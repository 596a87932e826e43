/- Decimal arithmetic in a context of bounded precision and exponents: when addition is exact. -/

import Mathlib.Algebra.Order.Field.Power
import Mathlib.Algebra.Order.Field.Rat
import Mathlib.Data.Nat.Log
import Mathlib.Data.List.DropRight
import Mathlib.Tactic.Linarith
import Mathlib.Tactic.Positivity
import Mathlib.Tactic.Ring

namespace ProofRay.Lib.Decimal

/-- A sign, a coefficient and a power of ten. -/
structure Finite where
  negative : Bool
  coefficient : Nat
  exponent : Int
  deriving DecidableEq, Repr

namespace Finite

variable (d : Finite)

def signed : Int := if d.negative then -(d.coefficient : Int) else d.coefficient

def value : ℚ := d.signed * 10 ^ d.exponent

end Finite

/-- The signals a context raises an exception for. -/
inductive Signal where
  | invalidOperation
  | overflow
  deriving DecidableEq, Repr

/-- How many digits a result has, and how far the exponent of its first digit may go. -/
structure Context where
  prec : Nat
  emin : Int
  emax : Int
  positive : 0 < prec
  ordered : emin ≤ emax

namespace Context

variable (ctx : Context)

def etiny : Int := ctx.emin - ctx.prec + 1

def etop : Int := ctx.emax - ctx.prec + 1

theorem etiny_le_etop : ctx.etiny ≤ ctx.etop := by
  have := ctx.ordered
  rw [etiny, etop]
  omega

/-- A number of so many digits times a power of ten in range. -/
def Representable (v : ℚ) : Prop :=
  ∃ (s k : Int), s.natAbs < 10 ^ ctx.prec ∧ ctx.etiny ≤ k ∧ k ≤ ctx.etop ∧ v = s * 10 ^ k

end Context

def halfEven (n drop : Nat) : Nat :=
  n / 10 ^ drop +
    if 10 ^ drop < 2 * (n % 10 ^ drop) ∨ (10 ^ drop = 2 * (n % 10 ^ drop) ∧ n / 10 ^ drop % 2 = 1)
    then 1 else 0

def fix (ctx : Context) (d : Finite) : Except Signal Finite :=
  if d.coefficient = 0 then
    .ok { d with exponent := min (max d.exponent ctx.etiny) ctx.emax }
  else
    let least : Int := Nat.log 10 d.coefficient + 1 + d.exponent - ctx.prec
    if ctx.etop < least then .error .overflow
    else
      let least := max least ctx.etiny
      if d.exponent < least then
        let rounded := halfEven d.coefficient (least - d.exponent).toNat
        -- a carry into one digit more
        if rounded = 10 ^ ctx.prec then
          if ctx.etop < least + 1 then .error .overflow
          else .ok ⟨d.negative, 10 ^ (ctx.prec - 1), least + 1⟩
        else .ok ⟨d.negative, rounded, least⟩
      else .ok d

def aligned (a b : Finite) : Finite :=
  let exponent := min a.exponent b.exponent
  let total := a.signed * 10 ^ (a.exponent - exponent).toNat +
    b.signed * 10 ^ (b.exponent - exponent).toNat
  ⟨if total = 0 then a.negative && b.negative else total < 0, total.natAbs, exponent⟩

def Finite.add (ctx : Context) (a b : Finite) : Except Signal Finite := fix ctx (aligned a b)

theorem signed_natAbs (total : Int) (zero : Bool) (exponent : Int) :
    (⟨if total = 0 then zero else total < 0, total.natAbs, exponent⟩ : Finite).signed = total := by
  simp only [Finite.signed]
  by_cases none : total = 0
  · simp [none]
  · rw [if_neg none]
    by_cases below : total < 0
    · simp only [below, decide_true, if_true]
      omega
    · simp only [below, decide_false, Bool.false_eq_true, if_false]
      omega

theorem shifted (s k e : Int) (above : e ≤ k) :
    (s : ℚ) * 10 ^ k = ((s * 10 ^ (k - e).toNat : Int) : ℚ) * 10 ^ e := by
  have split : (10 : ℚ) ^ k = 10 ^ (k - e).toNat * 10 ^ e := by
    rw [← zpow_natCast, Int.toNat_of_nonneg (by omega), ← zpow_add₀ (by norm_num)]
    congr 1
    omega
  rw [split]
  push_cast
  ring

theorem value_aligned (a b : Finite) : (aligned a b).value = a.value + b.value := by
  rw [Finite.value, aligned, signed_natAbs, Finite.value, Finite.value,
    shifted a.signed a.exponent _ (min_le_left _ b.exponent),
    shifted b.signed b.exponent _ (min_le_right a.exponent _)]
  push_cast
  ring

theorem value_eq (d : Finite) :
    d.value = (if d.negative then -1 else 1) * ((d.coefficient : ℚ) * 10 ^ d.exponent) := by
  unfold Finite.value Finite.signed
  split
  · push_cast
    ring
  · push_cast
    ring

theorem abs_value (d : Finite) : |d.value| = d.coefficient * 10 ^ d.exponent := by
  have positive : (0 : ℚ) ≤ d.coefficient * 10 ^ d.exponent := by positivity
  rw [value_eq, abs_mul, abs_of_nonneg positive]
  split <;> simp

theorem value_congr {d r : Finite} (sign : r.negative = d.negative)
    (same : (r.coefficient : ℚ) * 10 ^ r.exponent = d.coefficient * 10 ^ d.exponent) :
    r.value = d.value := by
  rw [value_eq, value_eq, sign, same]

private theorem shiftedNat (n : Nat) (k e : Int) (above : e ≤ k) :
    (n : ℚ) * 10 ^ k = ((n * 10 ^ (k - e).toNat : Nat) : ℚ) * 10 ^ e := by
  have moved := shifted n k e above
  push_cast at moved ⊢
  exact moved

private theorem lead_lt {c n L p : Nat} {e k : Int} (same : (c : ℚ) * 10 ^ e = n * 10 ^ k)
    (low : 10 ^ L ≤ c) (high : n < 10 ^ p) : L + e < p + k := by
  have positive (z : Int) : (0 : ℚ) < 10 ^ z := by positivity
  have low : (10 : ℚ) ^ (L + e) ≤ c * 10 ^ e := by
    rw [zpow_add₀ (by norm_num), zpow_natCast]
    exact mul_le_mul_of_nonneg_right (by exact_mod_cast low) (positive e).le
  have high : (n : ℚ) * 10 ^ k < 10 ^ (p + k) := by
    rw [zpow_add₀ (by norm_num), zpow_natCast]
    exact mul_lt_mul_of_pos_right (by exact_mod_cast high) (positive k)
  exact (zpow_lt_zpow_iff_right₀ (by norm_num)).mp (low.trans_lt (same ▸ high))

theorem halfEven_of_dvd {n drop : Nat} (dvd : 10 ^ drop ∣ n) : halfEven n drop = n / 10 ^ drop := by
  have positive : 0 < 10 ^ drop := by positivity
  rw [halfEven, Nat.mod_eq_zero_of_dvd dvd, if_neg (by omega), Nat.add_zero]

theorem halfEven_le (n drop : Nat) : halfEven n drop ≤ n / 10 ^ drop + 1 := by
  unfold halfEven
  split <;> omega

variable {ctx : Context} {d r : Finite}

theorem fix_of_representable (representable : ctx.Representable d.value) :
    ∃ r, fix ctx d = .ok r ∧ r.value = d.value := by
  unfold fix
  by_cases zero : d.coefficient = 0
  · rw [if_pos zero]
    exact ⟨_, rfl, value_congr rfl (by simp [zero])⟩
  rw [if_neg zero]
  obtain ⟨s, k, few, low, high, same⟩ := representable
  have same : (d.coefficient : ℚ) * 10 ^ d.exponent = s.natAbs * 10 ^ k := by
    rw [← abs_value, same, abs_mul, Nat.cast_natAbs, Int.cast_abs,
      abs_of_pos (show (0 : ℚ) < 10 ^ k by positivity)]
  have lead := Nat.pow_log_le_self 10 zero
  have below := lead_lt same lead few
  simp only
  generalize leastEq : max ((Nat.log 10 d.coefficient : Int) + 1 + d.exponent - ctx.prec)
    ctx.etiny = least
  rw [if_neg (by omega)]
  by_cases wide : d.exponent < least
  · have product : d.coefficient = s.natAbs * 10 ^ (k - d.exponent).toNat := by
      have moved := same.trans (shiftedNat s.natAbs k d.exponent (by omega))
      have nonzero : (10 : ℚ) ^ d.exponent ≠ 0 := by positivity
      exact_mod_cast mul_right_cancel₀ nonzero moved
    have split : (k - d.exponent).toNat = (k - least).toNat + (least - d.exponent).toNat := by
      omega
    have dvd : 10 ^ (least - d.exponent).toNat ∣ d.coefficient := by
      rw [product, split, pow_add]
      exact ⟨s.natAbs * 10 ^ (k - least).toNat, by ring⟩
    have quotient := Nat.div_mul_cancel dvd
    have narrow : d.coefficient / 10 ^ (least - d.exponent).toNat ≠ 10 ^ ctx.prec := by
      intro carried
      rw [carried, ← pow_add] at quotient
      have := Nat.lt_pow_succ_log_self (b := 10) (by norm_num) d.coefficient
      rw [← quotient] at this
      have := (Nat.pow_lt_pow_iff_right (by norm_num)).mp this
      rw [quotient] at this
      omega
    rw [if_pos wide, halfEven_of_dvd dvd, if_neg narrow]
    refine ⟨_, rfl, value_congr rfl ?_⟩
    rw [shiftedNat _ least d.exponent (by omega), quotient]
  · rw [if_neg wide]
    exact ⟨d, rfl, rfl⟩

private theorem representable_of_low {d : Finite} (few : d.coefficient < 10 ^ ctx.prec)
    (low : ctx.etiny ≤ d.exponent) (high : d.exponent ≤ ctx.etop) : ctx.Representable d.value := by
  refine ⟨d.signed, d.exponent, ?_, low, high, rfl⟩
  unfold Finite.signed
  split <;> simpa using few

theorem representable_of_fix (fixed : fix ctx d = .ok r) : ctx.Representable r.value := by
  unfold fix at fixed
  have ordered := ctx.etiny_le_etop
  by_cases zero : d.coefficient = 0
  · rw [if_pos zero] at fixed
    cases fixed
    refine ⟨0, ctx.etiny, by simp, le_rfl, ordered, ?_⟩
    rw [value_eq]
    simp [zero]
  rw [if_neg zero] at fixed
  simp only at fixed
  have positive := ctx.positive
  have lead := Nat.lt_pow_succ_log_self (b := 10) (by norm_num) d.coefficient
  generalize leastEq : (Nat.log 10 d.coefficient : Int) + 1 + d.exponent - ctx.prec = least at fixed
  by_cases beyond : ctx.etop < least
  · rw [if_pos beyond] at fixed
    cases fixed
  rw [if_neg beyond] at fixed
  by_cases wide : d.exponent < max least ctx.etiny
  · rw [if_pos wide] at fixed
    have quotient : d.coefficient / 10 ^ (max least ctx.etiny - d.exponent).toNat <
        10 ^ ctx.prec := by
      rw [Nat.div_lt_iff_lt_mul (by positivity), ← pow_add]
      exact lead.trans_le (Nat.pow_le_pow_right (by norm_num) (by omega))
    have rounded := halfEven_le d.coefficient (max least ctx.etiny - d.exponent).toNat
    split at fixed
    · split at fixed
      · cases fixed
      · cases fixed
        refine representable_of_low (Nat.pow_lt_pow_right (by norm_num) (by omega)) ?_ ?_
        · simp only
          omega
        · simp only
          omega
    · rename_i narrow
      cases fixed
      refine representable_of_low ?_ ?_ ?_
      · simp only
        omega
      · simp only
        omega
      · simp only
        omega
  · rw [if_neg wide] at fixed
    cases fixed
    have digits : Nat.log 10 d.coefficient + 1 ≤ ctx.prec := by omega
    by_cases above : d.exponent ≤ ctx.etop
    · exact representable_of_low (lead.trans_le (Nat.pow_le_pow_right (by norm_num) digits))
        (by omega) above
    · -- the exponent comes down to the top, with zeros behind the coefficient
      refine ⟨d.signed * 10 ^ (d.exponent - ctx.etop).toNat, ctx.etop, ?_, ordered, le_rfl, ?_⟩
      · have few : d.coefficient * 10 ^ (d.exponent - ctx.etop).toNat < 10 ^ ctx.prec := by
          have scaled := Nat.mul_lt_mul_of_pos_right lead
            (show 0 < 10 ^ (d.exponent - ctx.etop).toNat by positivity)
          rw [← pow_add] at scaled
          exact scaled.trans_le (Nat.pow_le_pow_right (by norm_num) (by omega))
        have magnitude : d.signed.natAbs = d.coefficient := by
          unfold Finite.signed
          split <;> simp
        rw [Int.natAbs_mul, magnitude, Int.natAbs_pow]
        exact few
      · exact shifted d.signed d.exponent ctx.etop (by omega)

variable {a b : Finite}

theorem add_of_representable (representable : ctx.Representable (a.value + b.value)) :
    ∃ r, a.add ctx b = .ok r ∧ r.value = a.value + b.value := by
  rw [← value_aligned] at representable ⊢
  exact fix_of_representable representable

theorem add_of_not_representable (lost : ¬ ctx.Representable (a.value + b.value)) :
    a.add ctx b = .error .overflow ∨ ∃ r, a.add ctx b = .ok r ∧ r.value ≠ a.value + b.value := by
  cases added : a.add ctx b with
  | ok r =>
    refine .inr ⟨r, rfl, fun same => lost ?_⟩
    rw [← same]
    exact representable_of_fix added
  | error signal =>
    have overflows : fix ctx (aligned a b) ≠ .error .invalidOperation := by
      unfold fix
      simp only
      split_ifs <;> simp
    cases signal with
    | overflow => exact .inl rfl
    | invalidOperation => exact absurd added overflows

inductive Number where
  | finite (d : Finite)
  | infinity (negative : Bool)
  | nan (negative signaling : Bool) (payload : List Char)
  deriving DecidableEq, Repr

def fixNan (ctx : Context) (payload : List Char) : List Char :=
  if ctx.prec < payload.length then
    (payload.drop (payload.length - ctx.prec)).dropWhile fun c => c = '0'
  else payload

def Number.add (ctx : Context) : Number → Number → Except Signal Number
  | .nan _ true _, _ => .error .invalidOperation
  | _, .nan _ true _ => .error .invalidOperation
  | .nan negative false payload, _ => .ok (.nan negative false (fixNan ctx payload))
  | _, .nan negative false payload => .ok (.nan negative false (fixNan ctx payload))
  | .infinity negative, .infinity negative' =>
    if negative ≠ negative' then .error .invalidOperation else .ok (.infinity negative)
  | .infinity negative, .finite _ => .ok (.infinity negative)
  | .finite _, .infinity negative => .ok (.infinity negative)
  | .finite a, .finite b => (a.add ctx b).map .finite

def Number.value? : Number → Option ℚ
  | .finite d => some d.value
  | _ => none

section

variable {α : Type} (ctx : Context) (read : α → Except Signal Number)

def sumFrom (total : Number) : List α → Except Signal Number
  | [] => .ok total
  | a :: rest => do
    let x ← read a
    let total ← total.add ctx x
    sumFrom total rest

def finite? (a : α) : Option ℚ :=
  match read a with
  | .ok x => x.value?
  | .error _ => none

/-- Up to the first text that is refused, every text is a finite number and the context represents
every partial sum. -/
def SoundFrom (total : ℚ) : List α → Prop
  | [] => True
  | a :: rest =>
    match read a with
    | .error _ => True
    | .ok (.nan _ true _) => True
    | .ok (.finite d) =>
      ctx.Representable (total + d.value) ∧ SoundFrom (total + d.value) rest
    | .ok _ => False

def ExactSum (total : ℚ) (as : List α) : Except Signal Number → Prop
  | .error .overflow => False
  | .error .invalidOperation => True
  | .ok x => ∃ d qs, x = .finite d ∧ as.mapM (finite? read) = some qs ∧ d.value = total + qs.sum

variable {ctx read}

variable {as : List α} {a : α}

theorem exactSum_cons {d : Finite} (reads : read a = .ok (.finite d)) {total total' : ℚ}
    (next : total' = total + d.value) (rest : List α) (outcome : Except Signal Number) :
    ExactSum read total (a :: rest) outcome ↔ ExactSum read total' rest outcome := by
  have here : finite? read a = some d.value := by
    rw [finite?, reads]
    rfl
  cases outcome with
  | error signal => cases signal <;> rfl
  | ok x =>
    simp only [ExactSum, List.mapM_cons, here, Option.bind_eq_bind, Option.bind_some]
    constructor
    · rintro ⟨r, qs, rfl, mapped, same⟩
      cases tail : rest.mapM (finite? read) with
      | none =>
        rw [tail] at mapped
        cases mapped
      | some rests =>
        rw [tail] at mapped
        cases mapped
        exact ⟨r, rests, rfl, rfl, by rw [same, next, List.sum_cons, add_assoc]⟩
    · rintro ⟨r, qs, rfl, mapped, same⟩
      refine ⟨r, d.value :: qs, rfl, by rw [mapped]; rfl, ?_⟩
      rw [same, next, List.sum_cons, add_assoc]

theorem sumFrom_finite {d : Finite} (reads : read a = .ok (.finite d)) (total : Finite)
    (rest : List α) : sumFrom ctx read (.finite total) (a :: rest) =
      match total.add ctx d with
      | .error signal => .error signal
      | .ok r => sumFrom ctx read (.finite r) rest := by
  rw [sumFrom, reads]
  show ((total.add ctx d).map Number.finite >>= fun total => sumFrom ctx read total rest) = _
  cases total.add ctx d <;> rfl

theorem reads_of_sumFrom {total r : Number} (summed : sumFrom ctx read total as = .ok r) :
    ∀ a ∈ as, ∃ y, read a = .ok y := by
  induction as generalizing total with
  | nil => simp
  | cons a rest ih =>
    intro b member
    cases reads : read a with
    | error signal =>
      rw [sumFrom, reads] at summed
      cases summed
    | ok y =>
      rcases List.mem_cons.mp member with rfl | later
      · exact ⟨y, reads⟩
      · rw [sumFrom, reads] at summed
        change (total.add ctx y >>= fun total => sumFrom ctx read total rest) = _ at summed
        cases added : total.add ctx y with
        | error signal =>
          rw [added] at summed
          cases summed
        | ok next =>
          rw [added] at summed
          exact ih summed b later

theorem finite_of_sumFrom (all : ∀ a ∈ as, ∃ d, read a = .ok (.finite d)) {total : Finite}
    {r : Number} (summed : sumFrom ctx read (.finite total) as = .ok r) : ∃ d, r = .finite d := by
  induction as generalizing total with
  | nil =>
    cases summed
    exact ⟨total, rfl⟩
  | cons a rest ih =>
    obtain ⟨d, reads⟩ := all a List.mem_cons_self
    rw [sumFrom_finite reads] at summed
    cases added : total.add ctx d with
    | error signal =>
      rw [added] at summed
      cases summed
    | ok next =>
      rw [added] at summed
      exact ih (fun b member => all b (List.mem_cons_of_mem a member)) summed

/-- The sums of all initial segments are exact just when every partial sum up to the first refusal
is representable. -/
theorem exactSum_iff (signals : ∀ a, read a ≠ .error .overflow) (as : List α) (total : Finite) :
    (∀ n, ExactSum read total.value (as.take n) (sumFrom ctx read (.finite total) (as.take n))) ↔
      SoundFrom ctx read total.value as := by
  induction as generalizing total with
  | nil =>
    simp only [List.take_nil, SoundFrom, iff_true]
    exact fun _ => ⟨total, [], rfl, rfl, by simp⟩
  | cons a rest ih =>
    have none_taken : ExactSum read total.value ((a :: rest).take 0)
        (sumFrom ctx read (.finite total) ((a :: rest).take 0)) :=
      ⟨total, [], rfl, rfl, by simp⟩
    have split : (∀ n, ExactSum read total.value ((a :: rest).take n)
        (sumFrom ctx read (.finite total) ((a :: rest).take n))) ↔
        ∀ n, ExactSum read total.value (a :: rest.take n)
          (sumFrom ctx read (.finite total) (a :: rest.take n)) := by
      constructor
      · exact fun all n => all (n + 1)
      · intro all n
        cases n with
        | zero => exact none_taken
        | succ n => exact all n
    rw [split]
    unfold SoundFrom
    cases reads : read a with
    | error signal =>
      cases signal with
      | overflow => exact absurd reads (signals a)
      | invalidOperation =>
        simp only [iff_true, sumFrom, reads]
        exact fun _ => trivial
    | ok x =>
      cases x with
      | infinity negative =>
        simp only [iff_false, not_forall]
        refine ⟨0, ?_⟩
        simp only [List.take_zero, sumFrom, reads]
        rintro ⟨d, qs, same, -⟩
        cases same
      | nan negative signaling payload =>
        cases signaling with
        | true =>
          simp only [iff_true, sumFrom, reads]
          exact fun _ => trivial
        | false =>
          simp only [iff_false, not_forall]
          refine ⟨0, ?_⟩
          simp only [List.take_zero, sumFrom, reads]
          rintro ⟨d, qs, same, -⟩
          cases same
      | finite d =>
        simp only
        by_cases representable : ctx.Representable (total.value + d.value)
        · obtain ⟨r, added, exact_sum⟩ := add_of_representable representable
          have here (n : Nat) : sumFrom ctx read (.finite total) (a :: rest.take n) =
              sumFrom ctx read (.finite r) (rest.take n) := by
            rw [sumFrom_finite reads, added]
          simp only [here, exactSum_cons reads exact_sum, representable, true_and]
          rw [ih r, exact_sum]
        · refine iff_of_false (fun all => ?_) (fun sound => representable sound.1)
          have first := all 0
          rw [List.take_zero, sumFrom_finite reads, exactSum_cons reads rfl] at first
          rcases add_of_not_representable representable with overflows | ⟨r, added, wrong⟩
          · rw [overflows] at first
            exact first
          · rw [added] at first
            obtain ⟨r', qs, same, mapped, value⟩ := first
            cases same
            cases mapped
            exact wrong (by simpa using value)

end

end ProofRay.Lib.Decimal
