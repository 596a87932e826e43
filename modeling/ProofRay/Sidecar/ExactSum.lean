/- The closed-world sum of the executor: the values are read as decimals and added in the default
   context (`typed_causal_program.py`). -/

import ProofRay.Lib.Numeral
import ProofRay.Sidecar.Authority
import ProofRay.Sidecar.Program

namespace ProofRay.Sidecar

open Lib
open Lib.Guard
open Lib.Decimal (Number Signal sumFrom)

def defaultContext : Decimal.Context := ⟨28, -999999, 999999, by decide, by decide⟩

def conversionContext : Decimal.Context :=
  ⟨999999999999999999, -999999999999999999, 999999999999999999, by decide, by decide⟩

section

-- what `unicodedata.decimal` knows of a character beyond ASCII
variable (unicodeDecimal : Char → Option (Fin 10))

def asciiOf (ch : Char) : Option Char :=
  if 0 < ch.toNat ∧ ch.toNat < 128 then some ch
  else if isBlank ch then some ' '
  else (unicodeDecimal ch).map fun digit => Nat.digitChar digit

def asciiText (text : String) : Option (List Char) :=
  (((text.toList.dropWhile isBlank).rdropWhile isBlank).filter fun ch => ch ≠ '_').mapM
    (asciiOf unicodeDecimal)

def spelled (text : String) : Option Number := (asciiText unicodeDecimal text).bind Decimal.scan

def numeral (text : String) : Option ℚ := (spelled unicodeDecimal text).bind Number.value?

/-- `Decimal(text)`. -/
def decimal (text : String) : Except Signal Number :=
  match spelled unicodeDecimal text with
  | none => .error .invalidOperation
  | some (.finite d) =>
    if conversionContext.holds d then .ok (.finite d) else .error .invalidOperation
  | some x => .ok x

/-- `_format`. -/
def formatDecimal (x : Number) : String := String.ofList x.plain

/-- `sum((Decimal(value) for value in values), Decimal(0))`, formatted. -/
def sumDecimals (values : List String) : Except Signal String :=
  (sumFrom defaultContext (decimal unicodeDecimal) (.finite ⟨false, 0, 0⟩) values).map formatDecimal

namespace TypedCausalExecutor

variable (x : TypedCausalExecutor) (program : TypedCausalProgram)

/-- The values a program adds, when it comes to that: of its selected facts, which are all asserted,
the positive ones, in one unit. -/
def summands : Option (List String) :=
  match program.operator, (x.selected program.selector program.atTime).1 with
  | .sum, some facts =>
    let active := facts.filter fun f => 0 < f.polarity
    if (∀ f ∈ facts, f.asserted = true) ∧ program.closedWorld = true ∧ active ≠ [] ∧
        program.unit ≠ "" ∧ ∀ f ∈ active, f.unit = program.unit then
      some (active.map FactFields.value)
    else none
  | _, _ => none

def answerSum (values : List String) : Except Signal TypedCausalResult :=
  match sumDecimals unicodeDecimal values with
  | .error .overflow => .error .overflow
  | .error .invalidOperation => .ok (x.execute (fun _ => none) program)
  | .ok total => .ok (x.execute (fun _ => some total) program)

/-- `execute`, with the exception it lets through. -/
def executeRaising : Except Signal TypedCausalResult :=
  match x.summands program with
  | some values => x.answerSum unicodeDecimal program values
  | none => .ok (x.execute (fun _ => none) program)

end TypedCausalExecutor

def exactSum (values : List String) : Option ℚ :=
  (values.mapM (numeral unicodeDecimal)).map List.sum

/-- A sum of values does not raise, it is resolved to the exact sum only, and it abstains where a
value is not a finite decimal numeral. -/
structure SumsExactly (values : List String) (outcome : Except Signal TypedCausalResult) :
    Prop where
  answers : ∃ result, outcome = .ok result
  exact : ∀ result, outcome = .ok result → result.state = .resolved →
    ∃ total sum, result.value = some total ∧ numeral unicodeDecimal total = some sum ∧
      exactSum unicodeDecimal values = some sum
  abstains : (∃ value ∈ values, numeral unicodeDecimal value = none) →
    ∃ result, outcome = .ok result ∧ result.state = .abstain ∧
      result.reason = "non_numeric_measurement"

/-- Up to the first value that `Decimal` or an addition refuses, every value is a finite number and
every partial sum fits the default context: 28 digits and its exponents. -/
def SumFits (values : List String) : Prop :=
  Decimal.SoundFrom defaultContext (decimal unicodeDecimal) 0 values

variable {unicodeDecimal}

theorem asciiOf_digit {ch : Char} (digit : ch.isDigit = true) :
    isBlank ch = false ∧ ch ≠ '_' ∧ asciiOf unicodeDecimal ch = some ch := by
  have range : 48 ≤ ch.toNat ∧ ch.toNat ≤ 57 := by
    simp only [Char.isDigit, Bool.and_eq_true, decide_eq_true_eq] at digit
    exact ⟨digit.1, digit.2⟩
  refine ⟨?_, Decimal.digit_ne digit rfl, if_pos (by omega)⟩
  simp only [isBlank, Bool.or_eq_false_iff, Bool.and_eq_false_iff, decide_eq_false_iff_not]
  omega

theorem asciiText_plain (d : Decimal.Finite) :
    asciiText unicodeDecimal (formatDecimal (.finite d)) = some (Number.finite d).plain := by
  have plain (ch : Char) (member : ch ∈ (Number.finite d).plain) :
      isBlank ch = false ∧ ch ≠ '_' ∧ asciiOf unicodeDecimal ch = some ch := by
    rcases Decimal.mem_plain member with digit | rfl | rfl
    · exact asciiOf_digit digit
    · exact ⟨rfl, by decide, rfl⟩
    · exact ⟨rfl, by decide, rfl⟩
  have front : (Number.finite d).plain.dropWhile isBlank = (Number.finite d).plain :=
    List.dropWhile_eq_self_iff.mpr fun some_char => by
      rw [(plain _ (List.getElem_mem _)).1]
      exact Bool.false_ne_true
  have back : (Number.finite d).plain.rdropWhile isBlank = (Number.finite d).plain :=
    List.rdropWhile_eq_self_iff.mpr fun some_char => by
      rw [(plain _ (List.getLast_mem _)).1]
      exact Bool.false_ne_true
  have bare : ((Number.finite d).plain.filter fun ch => ch ≠ '_') = (Number.finite d).plain :=
    List.filter_eq_self.mpr fun ch member => decide_eq_true (plain ch member).2.1
  rw [asciiText, formatDecimal, String.toList_ofList, front, back, bare]
  rw [mapM_congr fun ch member => (plain ch member).2.2]
  exact (List.mapM_pure (m := Option)).trans (congrArg some (List.map_id _))

theorem numeral_format (d : Decimal.Finite) :
    numeral unicodeDecimal (formatDecimal (.finite d)) = some d.value := by
  obtain ⟨r, read, same⟩ := Decimal.scan_plain d
  rw [numeral, spelled, asciiText_plain, Option.bind_some, read, Option.bind_some, ← same]
  rfl

variable {text : String}

theorem numeral_of_decimal {d : Decimal.Finite}
    (read : decimal unicodeDecimal text = .ok (.finite d)) :
    numeral unicodeDecimal text = some d.value := by
  unfold decimal at read
  rw [numeral]
  cases spelt : spelled unicodeDecimal text with
  | none =>
    rw [spelt] at read
    cases read
  | some y =>
    rw [spelt] at read
    cases y with
    | finite d' =>
      simp only at read
      split at read
      · cases read
        rfl
      · cases read
    | infinity => cases read
    | nan => cases read

variable {y : Number}

theorem decimal_of_numeral {q : ℚ} (value : numeral unicodeDecimal text = some q)
    (read : decimal unicodeDecimal text = .ok y) : ∃ d, y = .finite d ∧ d.value = q := by
  rw [numeral] at value
  unfold decimal at read
  cases spelt : spelled unicodeDecimal text with
  | none =>
    rw [spelt] at value
    cases value
  | some z =>
    rw [spelt] at value read
    cases z with
    | finite d =>
      simp only at read
      cases value
      split at read
      · cases read
        exact ⟨d, rfl, rfl⟩
      · cases read
    | infinity => cases value
    | nan => cases value

theorem decimal_ne_overflow (text : String) : decimal unicodeDecimal text ≠ .error .overflow := by
  unfold decimal
  split
  · simp
  · split <;> simp
  · simp

theorem finite?_eq_numeral (read : decimal unicodeDecimal text = .ok y) :
    Decimal.finite? (decimal unicodeDecimal) text = numeral unicodeDecimal text := by
  rw [Decimal.finite?, read]
  cases value : numeral unicodeDecimal text with
  | some q =>
    obtain ⟨d, rfl, same⟩ := decimal_of_numeral value read
    exact congrArg some same
  | none =>
    cases y with
    | finite d =>
      rw [numeral_of_decimal read] at value
      cases value
    | infinity negative => rfl
    | nan negative signaling payload => rfl

namespace TypedCausalExecutor

variable {x : TypedCausalExecutor} {program : TypedCausalProgram} {selected : List String}

theorem run_of_summands (summed : x.summands program = some selected)
    (sumDecimals : List String → Option String) :
    ∃ factIds, (x.run sumDecimals program).1 =
      match sumDecimals selected with
      | none => .abstain "non_numeric_measurement"
      | some total => .resolved total program.unit factIds "closed_world_exact_sum" := by
  unfold summands at summed
  split at summed
  · rename_i facts sums found
    simp only at summed
    split at summed
    · rename_i reached
      obtain ⟨asserted, closed, active, unit, units⟩ := reached
      cases summed
      have certain : ¬ (facts.any fun f => f.asserted = false) = true := by
        simp only [List.any_eq_true, decide_eq_true_eq, not_exists, not_and]
        intro f member uncertain
        rw [asserted f member] at uncertain
        cases uncertain
      obtain ⟨f, rest, rfl⟩ : ∃ f rest, facts = f :: rest := by
        cases facts with
        | nil => exact absurd rfl active
        | cons f rest => exact ⟨f, rest, rfl⟩
      refine ⟨((f :: rest).filter fun f => 0 < f.polarity).map FactFields.factId, ?_⟩
      rw [run, sums, if_neg (by decide)]
      simp only [found]
      rw [if_neg certain, if_neg (by rw [closed]; simp), aggregate, sums]
      simp only
      rw [if_neg active, if_neg (not_or.mpr ⟨unit, not_not.mpr units⟩)]
      cases sumDecimals (((f :: rest).filter fun f => 0 < f.polarity).map FactFields.value) <;> rfl
    · cases summed
  · cases summed

theorem execute_none (summed : x.summands program = some selected) :
    (x.execute (fun _ => none) program).state = .abstain ∧
      (x.execute (fun _ => none) program).reason = "non_numeric_measurement" := by
  obtain ⟨factIds, ran⟩ := run_of_summands summed fun _ => none
  rw [execute]
  generalize x.run (fun _ => none) program = outcome at ran ⊢
  obtain ⟨result, examined⟩ := outcome
  cases ran
  exact ⟨rfl, rfl⟩

theorem execute_some (summed : x.summands program = some selected) (total : String) :
    (x.execute (fun _ => some total) program).state = .resolved ∧
      (x.execute (fun _ => some total) program).value = some total := by
  obtain ⟨factIds, ran⟩ := run_of_summands summed fun _ => some total
  rw [execute]
  generalize x.run (fun _ => some total) program = outcome at ran ⊢
  obtain ⟨result, examined⟩ := outcome
  cases ran
  exact ⟨rfl, rfl⟩

theorem sumsExactly_iff (summed : x.summands program = some selected) (values : List String) :
    SumsExactly unicodeDecimal values (x.answerSum unicodeDecimal program values) ↔
      Decimal.ExactSum (decimal unicodeDecimal) 0 values
        (sumFrom defaultContext (decimal unicodeDecimal) (.finite ⟨false, 0, 0⟩) values) := by
  rw [answerSum, sumDecimals]
  cases added : sumFrom defaultContext (decimal unicodeDecimal) (.finite ⟨false, 0, 0⟩) values with
  | error signal =>
    cases signal with
    | overflow =>
      refine iff_of_false (fun exact_sum => ?_) id
      obtain ⟨result, same⟩ := exact_sum.answers
      cases same
    | invalidOperation =>
      have refused := execute_none summed
      refine iff_of_true ⟨⟨_, rfl⟩, ?_, fun _ => ⟨_, rfl, refused⟩⟩ trivial
      intro result same resolved
      cases same
      rw [refused.1] at resolved
      cases resolved
  | ok total =>
    have answered := execute_some summed (formatDecimal total)
    have reads := Decimal.reads_of_sumFrom added
    have alike : values.mapM (Decimal.finite? (decimal unicodeDecimal)) =
        values.mapM (numeral unicodeDecimal) :=
      mapM_congr fun value member => finite?_eq_numeral (reads value member).choose_spec
    constructor
    · intro exact_sum
      obtain ⟨text, sum, same, read, summed_up⟩ := exact_sum.exact _ rfl answered.1
      rw [answered.2] at same
      cases same
      obtain ⟨qs, mapped, rfl⟩ := Option.map_eq_some_iff.mp summed_up
      have finite (value : String) (member : value ∈ values) :
          ∃ d, decimal unicodeDecimal value = .ok (.finite d) := by
        obtain ⟨q, known⟩ := isSome_of_mapM mapped member
        obtain ⟨y, read⟩ := reads value member
        obtain ⟨d, rfl, -⟩ := decimal_of_numeral known read
        exact ⟨d, read⟩
      obtain ⟨d, rfl⟩ := Decimal.finite_of_sumFrom finite added
      rw [numeral_format, Option.some.injEq] at read
      exact ⟨d, qs, rfl, alike.trans mapped, by rw [read, zero_add]⟩
    · rintro ⟨d, qs, rfl, mapped, value⟩
      rw [alike] at mapped
      refine ⟨⟨_, rfl⟩, fun result same _ => ?_, fun ⟨value, member, none_read⟩ => ?_⟩
      · cases same
        refine ⟨_, qs.sum, answered.2, ?_, by rw [exactSum, mapped]; rfl⟩
        rw [numeral_format, value, zero_add]
      · obtain ⟨q, known⟩ := isSome_of_mapM mapped member
        rw [none_read] at known
        cases known

/-- Exactly when every value up to the first that is refused is a finite number, and every partial
sum fits the default context, the sums of the values and of all their initial segments are exact. -/
theorem sum_exact_iff (summed : x.summands program = some selected) :
    (SumFits unicodeDecimal selected →
        SumsExactly unicodeDecimal selected (x.executeRaising unicodeDecimal program)) ∧
      ∀ values, (∀ n, SumsExactly unicodeDecimal (values.take n)
          (x.answerSum unicodeDecimal program (values.take n))) ↔
        SumFits unicodeDecimal values := by
  have initial (values : List String) : (∀ n, SumsExactly unicodeDecimal (values.take n)
      (x.answerSum unicodeDecimal program (values.take n))) ↔ SumFits unicodeDecimal values := by
    simp only [sumsExactly_iff summed, SumFits]
    have none_yet : (⟨false, 0, 0⟩ : Decimal.Finite).value = 0 := by
      simp [Decimal.Finite.value, Decimal.Finite.signed]
    have iff_sound : _ ↔ Decimal.SoundFrom defaultContext (decimal unicodeDecimal) _ _ :=
      Decimal.exactSum_iff decimal_ne_overflow values ⟨false, 0, 0⟩
    rwa [none_yet] at iff_sound
  refine ⟨fun fits => ?_, initial⟩
  have whole := (initial selected).mpr fits selected.length
  rw [List.take_length] at whole
  rwa [executeRaising, summed]

def weightFields (factId : Nat) (event value : String) : FactFields where
  factId := factId
  scope := "s"
  subject := "a"
  predicate := "weight"
  value := value
  observedAt := 0
  eventTime := 0
  version := 1
  unit := "kg"
  polarity := 1
  asserted := true
  eventId := event
  causes := []
  sourceId := "doc"
  sourceSha256 := String.ofList (List.replicate 64 '0')
  sourceSpan := (0, 1)

def weight (factId : Nat) (event value : String) : TypedCausalFact where
  toFactFields := weightFields factId event value
  checked := by
    refine ⟨?_, Nat.le_refl 1, .inr rfl, ⟨.nil, List.not_mem_nil⟩, ?_, Nat.one_pos⟩
    · exact ⟨(by decide : "s" ≠ ""), (by decide : "a" ≠ ""), (by decide : "weight" ≠ "")⟩
    · refine ⟨(by decide : "doc" ≠ ""), ?_⟩
      exact (by decide : isSha256 (String.ofList (List.replicate 64 '0')) = true)

def weightSum : TypedCausalProgram := ⟨.sum, ⟨"a", "weight", none⟩, [], "kg", none, true⟩

def twoWeights : TypedCausalExecutor := ⟨[weight 1 "e" "1.50", weight 2 "f" "2.5e1"], "s"⟩

theorem summands_twoWeights : twoWeights.summands weightSum = some ["1.50", "2.5e1"] := by
  decide

/-- Two weights add up exactly. -/
theorem sum_exact_iff_twoWeights :
    SumsExactly (fun _ => none) ["1.50", "2.5e1"]
      (twoWeights.executeRaising (fun _ => none) weightSum) := by
  refine (sum_exact_iff summands_twoWeights).1 ?_
  have first : decimal (fun _ => none) "1.50" = .ok (.finite ⟨false, 150, -2⟩) := by decide +kernel
  have second : decimal (fun _ => none) "2.5e1" = .ok (.finite ⟨false, 25, 0⟩) := by decide +kernel
  simp only [SumFits, Decimal.SoundFrom, first, second, and_true]
  refine ⟨⟨150, -2, by decide +kernel, by decide +kernel, by decide +kernel, ?_⟩,
    265, -1, by decide +kernel, by decide +kernel, by decide +kernel, ?_⟩
  · simp [Decimal.Finite.value, Decimal.Finite.signed]
  · norm_num [Decimal.Finite.value, Decimal.Finite.signed]

/-- A weight of 29 digits is resolved to one of 28. -/
theorem not_sums_exactly :
    ¬ ∀ (x : TypedCausalExecutor) (program : TypedCausalProgram) (selected : List String),
      x.summands program = some selected →
        SumsExactly (fun _ => none) selected (x.executeRaising (fun _ => none) program) := by
  intro all
  have summed : (⟨[weight 1 "e" "10000000000000000000000000001"], "s"⟩ :
      TypedCausalExecutor).summands weightSum = some ["10000000000000000000000000001"] := by
    decide +kernel
  have exact_sum := all _ _ _ summed
  rw [executeRaising, summed] at exact_sum
  have total := (sumsExactly_iff summed _).mp exact_sum
  have read : decimal (fun _ => none) "10000000000000000000000000001" =
      .ok (.finite ⟨false, 10000000000000000000000000001, 0⟩) := by
    decide +kernel
  have added : sumFrom defaultContext (decimal fun _ => none) (.finite ⟨false, 0, 0⟩)
      ["10000000000000000000000000001"] =
        .ok (.finite ⟨false, 1000000000000000000000000000, 1⟩) := by
    decide +kernel
  rw [added] at total
  obtain ⟨d, qs, same, mapped, value⟩ := total
  cases same
  rw [List.mapM_cons, Decimal.finite?, read] at mapped
  cases mapped
  norm_num [Number.value?, Decimal.Finite.value, Decimal.Finite.signed] at value

end TypedCausalExecutor

end

end ProofRay.Sidecar
