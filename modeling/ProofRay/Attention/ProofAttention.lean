/- The breadth-first evaluation of a conjunctive program: every environment meets the facts of one
   goal after the other. -/

import ProofRay.Attention.SigmaPba
import ProofRay.Engine.Primitives

namespace ProofRay.Attention

open Engine (Crypto PyError stdCrypto)
open Lib (grouped sortedSet)
open Lib.Guard
open Lib.Worklist (denotes)
open Sidecar (Canonical blank encode hexSha256 isSha256 isSha256_hexSha256 slice)

def Environment.key (e : Environment) : List (String ×ₗ String) ×ₗ
    (List Int ×ₗ (List String ×ₗ List (String ×ₗ (String ×ₗ Int)))) :=
  toLex (e.bindings.map toLex,
    toLex (e.factIds, toLex (e.assumptions, e.witnesses.map BindingWitness.key)))

section

variable (c : Crypto) (executor : SigmaPBAExecutor) (program : ConjunctiveProgram) (b : Budgets)

def joinAll (created : Nat) (arguments : List String) (keys : List AuthorizedFact) :
    List Environment → Spending → Except SigmaPBAResult (Spending × List Environment)
  | [], s => .ok (s, [])
  | e :: environments, s => do
    let (s, expanded) ← joinFacts executor b created arguments e keys s
    let (s, more) ← joinAll created arguments keys environments s
    return (s, expanded ++ more)

def attend : Nat → List Nat → List Environment → Progress →
    Except SigmaPBAResult (List Environment × Progress)
  | 0, _, environments, p => .ok (environments, p)
  | fuel + 1, remaining, environments, p =>
    match foremost c executor program (fun x => !isVariable x) remaining with
    | none => .ok (environments, p)
    | some i =>
      match program.goals[i]? with
      | none => .ok (environments, p)
      | some goal => do
        let (s, expanded) ← joinAll executor b p.2 goal.arguments
          (executor.index c goal.predicate goal.arguments.length) environments p.1
        let created := p.2 + expanded.length
        if created > b.maxEnvironments then
          .error (s.abstain p.2 "environment_budget_exhausted")
        else
          let environments := sortedSet Environment.key expanded
          if environments = [] then
            .error (s.abstain created "no_complete_authorized_environment")
          else attend fuel (without remaining i) environments (s, created)

/-- `execute_proof_attention`. -/
def executeProofAttention : Except PyError SigmaPBAResult :=
  if b.Positive then
    if (program.goals.length : Int) > b.maxHops then
      .ok (Spending.none.abstain 1 "hop_budget_exceeded")
    else
      match attend c executor program b program.goals.length (List.range program.goals.length)
          [.empty] (Spending.none, 1) with
      | .error r => .ok r
      | .ok (environments, s, created) =>
        .ok (finish program Environment.factIds environments s created)
  else .error (.valueError "Proof Attention budgets must be positive")

end

section

variable {c : Crypto} {executor : SigmaPBAExecutor} {program : ConjunctiveProgram} {b : Budgets}
  {environments : List Environment} {remaining : List Nat}

variable {goal : RelationalGoal} {created : Nat} {i : Nat}

theorem of_joinAll {created : Nat} {goal : RelationalGoal} {s s' : Spending}
    {expanded : List Environment}
    (ok : joinAll executor b created goal.arguments
      (executor.index c goal.predicate goal.arguments.length) environments s =
        .ok (s', expanded)) : expanded = environments.flatMap (expansion c executor goal) := by
  induction environments generalizing s expanded with
  | nil =>
    cases ok
    rfl
  | cons e environments ih =>
    unfold joinAll at ok
    simp only [bind_eq_ok, pure_eq_ok, Prod.mk.injEq, Prod.exists] at ok
    obtain ⟨s₁, here, first, s₂, more, rest, rfl, rfl⟩ := ok
    rw [List.flatMap_cons, of_joinFacts first, ih rest]
    rfl

theorem exhausted_of_joinAll {arguments : List String} {keys : List AuthorizedFact} {s : Spending}
    {r : SigmaPBAResult}
    (stopped : joinAll executor b created arguments keys environments s = .error r) :
    r.Exhausted := by
  induction environments generalizing s with
  | nil => cases stopped
  | cons e environments ih =>
    unfold joinAll at stopped
    simp only [bind_eq_error, pure_ne_error, or_false, Prod.exists, and_false, exists_false]
      at stopped
    rcases stopped with here | ⟨s₁, joined, -, later⟩
    · exact exhausted_of_joinFacts here
    · exact ih later

private theorem denotes_flatMap_expansion
    (fit : ∀ e ∈ environments, e.Fit executor program remaining) (member : i ∈ remaining)
    (here : program.goals[i]? = some goal) :
    denotes (meaning c executor program (without remaining i))
        (environments.flatMap (expansion c executor goal)) =
      denotes (meaning c executor program remaining) environments := by
  ext answer
  constructor
  · rintro ⟨m, made, means⟩
    obtain ⟨e, inside, expanded⟩ := List.mem_flatMap.mp made
    refine ⟨e, inside, ?_⟩
    rw [← denotes_expansion (fit e inside) member here]
    exact ⟨m, expanded, means⟩
  · rintro ⟨e, inside, means⟩
    rw [← denotes_expansion (fit e inside) member here] at means
    obtain ⟨m, expanded, means⟩ := means
    exact ⟨m, List.mem_flatMap.mpr ⟨e, inside, expanded⟩, means⟩

private theorem length_without_lt (member : i ∈ remaining) :
    (without remaining i).length < remaining.length :=
  List.length_filter_lt_length_iff_exists.mpr ⟨i, member, by simp⟩

/-- A loop that ends has complete environments that come to the answers; one that stops lists them
all the same, unless a budget ran out. -/
def Attends (c : Crypto) (executor : SigmaPBAExecutor) (program : ConjunctiveProgram)
    (listed : Set Answer) : Except SigmaPBAResult (List Environment × Progress) → Prop
  | .error r => ¬r.Exhausted → r.Lists listed
  | .ok (last, _) => (∀ e ∈ last, e.Fit executor program []) ∧
    denotes (meaning c executor program []) last = listed

theorem attends {fuel : Nat} {p : Progress} (enough : remaining.length ≤ fuel)
    (fit : ∀ e ∈ environments, e.Fit executor program remaining)
    (within : ∀ i ∈ remaining, i < program.goals.length) :
    Attends c executor program (denotes (meaning c executor program remaining) environments)
      (attend c executor program b fuel remaining environments p) := by
  induction fuel generalizing remaining environments p with
  | zero =>
    obtain rfl : remaining = [] := List.length_eq_zero_iff.mp (Nat.le_zero.mp enough)
    exact ⟨fit, rfl⟩
  | succ fuel ih =>
    unfold attend
    cases chosen : foremost c executor program (fun x => !isVariable x) remaining with
    | none =>
      obtain rfl := List.argmax_eq_none.mp chosen
      exact ⟨fit, rfl⟩
    | some i =>
      have member : i ∈ remaining := List.argmax_mem chosen
      obtain ⟨goal, here⟩ : ∃ goal, program.goals[i]? = some goal :=
        ⟨_, List.getElem?_eq_getElem (within i member)⟩
      simp only [here]
      cases joined : joinAll executor b p.2 goal.arguments
          (executor.index c goal.predicate goal.arguments.length) environments p.1 with
      | error r => exact absurd (exhausted_of_joinAll joined)
      | ok met =>
        obtain ⟨s, expanded⟩ := met
        have all := of_joinAll joined
        have same := denotes_flatMap_expansion (c := c) fit member here
        simp only [ok_bind]
        split
        · refine absurd ?_
          simp [SigmaPBAResult.Exhausted, Spending.abstain]
        · split
          · rename_i none
            intro _
            have nothing : environments.flatMap (expansion c executor goal) = [] := by
              rw [← all]
              refine List.eq_nil_iff_forall_not_mem.mpr fun e inside => ?_
              have kept : e ∈ sortedSet Environment.key expanded :=
                Lib.mem_sortedSet.mpr inside
              rw [none] at kept
              cases kept
            rw [← same, nothing, Lib.Worklist.denotes_nil]
            exact lists_empty
          · have fit' : ∀ e ∈ sortedSet Environment.key expanded,
                e.Fit executor program (without remaining i) := by
              intro m inside
              rw [Lib.mem_sortedSet, all] at inside
              obtain ⟨e, before, made⟩ := List.mem_flatMap.mp inside
              exact fit_of_expansion (fit e before) here made
            have shorter := length_without_lt member
            have rest := ih (p := (s, p.2 + expanded.length)) (by omega) fit'
              fun j remains => within j (mem_without.mp remains).1
            have kept : denotes (meaning c executor program (without remaining i))
                (sortedSet Environment.key expanded) =
                  denotes (meaning c executor program remaining) environments := by
              rw [← same, ← all]
              ext answer
              simp only [Lib.Worklist.mem_denotes, Lib.mem_sortedSet]
            rw [kept] at rest
            exact rest

theorem lists_executeProofAttention (c : Crypto) (executor : SigmaPBAExecutor)
    (program : ConjunctiveProgram) (positive : b.Positive) :
    ∃ r, executeProofAttention c executor program b = .ok r ∧
      (¬r.Exhausted → r.Lists (answers c executor program)) := by
  unfold executeProofAttention
  rw [if_pos positive]
  split
  · refine ⟨_, rfl, fun within => absurd ?_ within⟩
    simp [SigmaPBAResult.Exhausted, Spending.abstain]
  · have ran := attends (c := c) (b := b) (p := (Spending.none, 1))
      (List.length_range (n := program.goals.length)).le
      (List.forall_mem_singleton.mpr (fit_empty executor.noEmptyNogood))
      fun i => List.mem_range.mp
    have first : denotes (meaning c executor program (List.range program.goals.length))
        [Environment.empty] = answers c executor program := by
      rw [Lib.Worklist.denotes_cons, Lib.Worklist.denotes_nil, Set.union_empty, meaning_empty]
    rw [first] at ran
    split
    · rename_i r stopped
      rw [stopped] at ran
      exact ⟨r, rfl, ran⟩
    · rename_i last s created ended
      rw [ended] at ran
      exact ⟨_, rfl, fun _ => lists_finish _ _ (fun e member => ⟨ran.1 e member, rfl⟩) ran.2⟩

theorem canonical_of_mem_answers {answer : Answer} (member : answer ∈ answers c executor program) :
    answer.2 ≠ [] ∧ Canonical answer.2 := by
  obtain ⟨assignment, choice, -, rfl⟩ := member
  refine ⟨?_, Lib.pairwise_sortedSet Function.injective_id⟩
  have some_goal : 0 ∈ List.range program.goals.length :=
    List.mem_range.mpr (List.length_pos_of_ne_nil program.nonempty.1)
  refine List.ne_nil_of_mem (a := (choice 0).factId) (Lib.mem_sortedSet.mpr ?_)
  exact List.mem_map_of_mem (f := fun i => (choice i).factId) some_goal

end

section

variable (c : Crypto)

def saying : SealedSource := ⟨"s", "Ada says so.", hexSha256 c (encode "Ada says so.")⟩

def said (factId version : Int) (value : String) : AuthorizedFact :=
  let fact : AuthorizedFact := ⟨factId, "says", ["ada", value], "town", version, "ada", "s",
    hexSha256 c (encode "Ada says so."), (0, 12), "sentence", "", []⟩
  { fact with semanticAttestation := fact.semanticDigest c }

theorem verify_said {factId version : Int} {value : String} (numbered : 0 ≤ factId)
    (first : 1 ≤ version) (some_value : value ≠ "") :
    (said c factId version value).verify c (saying c) ["sentence"] = true := by
  have digest : (said c factId version value).semanticAttestation =
      (said c factId version value).semanticDigest c := rfl
  have form : isSha256 (said c factId version value).semanticAttestation = true :=
    isSha256_hexSha256 c _
  have sealed_source : (saying c).verify c = true := by
    simp [SealedSource.verify, saying]
  have cited : blank (slice "Ada says so." 0 12) = false := by decide
  have predicate : isPredicate "says" = true := by decide
  have none : sortedSet (id : String → String) [] = [] := rfl
  unfold AuthorizedFact.verify
  rw [digest, ← digest, form, sealed_source]
  simp [said, saying, AuthorizedFact.cited, numbered, first, some_value, cited, predicate, none]

def town (facts : List AuthorizedFact) (some_fact : facts ≠ [])
    (factIds : (facts.map fun f => f.factId).Nodup) : SigmaPBAExecutor where
  sources := [saying c]
  facts
  scope := "town"
  allowedRules := ["sentence"]
  nogoods := []
  supplied := ⟨by simp, some_fact, by decide, by decide⟩
  sourceIds := by simp
  factIds
  noEmptyNogood := by simp

def whatAdaSays : ConjunctiveProgram where
  goals := [⟨"says", ["ada", "?What"], by decide⟩]
  outputVariables := ["?What"]
  nonempty := by simp
  outputs := by decide
  distinct := by decide

end

section

variable {c : Crypto} {facts : List AuthorizedFact} {some_fact : facts ≠ []}
  {factIds : (facts.map fun f => f.factId).Nodup} {factId version : Int} {value : String}

theorem said_authorized (numbered : 0 ≤ factId) (first : 1 ≤ version) (some_value : value ≠ "") :
    (town c facts some_fact factIds).Authorizes c (said c factId version value) :=
  ⟨rfl, saying c, rfl, verify_said c numbered first some_value⟩

theorem activeFacts_town (sorted : facts.insertionSort (fun a b => a.factId ≤ b.factId) = facts)
    (all : ∀ fact ∈ facts, (town c facts some_fact factIds).Authorizes c fact) :
    (town c facts some_fact factIds).activeFacts c =
      facts.filter fun fact => fact.version = latestVersion facts fact.orbit := by
  have authorized : (town c facts some_fact factIds).authorized c = facts := by
    show (facts.insertionSort fun a b => a.factId ≤ b.factId).filter _ = facts
    rw [sorted]
    exact List.filter_eq_self.mpr fun fact member => decide_eq_true (all fact member)
  rw [SigmaPBAExecutor.activeFacts, authorized]

theorem cost_said : (town c facts some_fact factIds).cost (said c factId version value) = 12 := by
  have source : (town c facts some_fact factIds).source (said c factId version value).sourceId =
      some (saying c) := rfl
  have cited : (said c factId version value).cited (saying c) = "Ada says so." := by
    show slice "Ada says so." 0 12 = "Ada says so."
    decide
  rw [SigmaPBAExecutor.cost, source, Option.map_some, Option.getD_some, cited]
  rfl

theorem executeProofAttention_said
    (active : (town c facts some_fact factIds).activeFacts c = [said c factId version value]) :
    executeProofAttention c (town c facts some_fact factIds) whatAdaSays ⟨6, 10, 100, 10⟩ =
      .ok ⟨.resolved, [⟨[value], [[factId]]⟩], [⟨"?What", value, factId⟩], [factId], 1, 12, 2,
        "all_complete_environments_agree"⟩ := by
  let executor := town c facts some_fact factIds
  let b : Budgets := ⟨6, 10, 100, 10⟩
  let spent : Spending := ⟨1, 12, [factId], [⟨"?What", value, factId⟩]⟩
  let joined : Environment := ⟨[("?What", value)], [factId], [], [⟨"?What", value, factId⟩]⟩
  have index : executor.index c "says" 2 = [said c factId version value] := by
    rw [SigmaPBAExecutor.index, active]
    rfl
  have one : joinFact executor b 1 ["ada", "?What"] .empty .none (said c factId version value) =
      .ok (spent, some joined) := by
    simp only [joinFact, executor, cost_said]
    rfl
  have met : joinAll executor b 1 ["ada", "?What"] (executor.index c "says" 2) [.empty] .none =
      .ok (spent, [joined]) := by
    rw [index]
    simp only [joinAll, joinFacts, one]
    rfl
  have attended : attend c executor whatAdaSays b 1 [0] [.empty] (Spending.none, 1) =
      .ok ([joined], spent, 2) := by
    unfold attend
    show (joinAll executor b 1 ["ada", "?What"] (executor.index c "says" 2) [.empty] .none).bind
      _ = _
    rw [met]
    rfl
  have positive : b.Positive := by decide
  have hops : ¬(whatAdaSays.goals.length : Int) > b.maxHops := by decide
  have run : attend c executor whatAdaSays b whatAdaSays.goals.length
      (List.range whatAdaSays.goals.length) [.empty] (Spending.none, 1) =
        .ok ([joined], spent, 2) := attended
  have finished : finish whatAdaSays Environment.factIds [joined] spent 2 =
      ⟨.resolved, [⟨[value], [[factId]]⟩], [⟨"?What", value, factId⟩], [factId], 1, 12, 2,
        "all_complete_environments_agree"⟩ := by
    have groups : grouped [([value], [factId])] = [([value], [[factId]])] := by
      simp [grouped, sortedSet]
    have pairs : ([joined].filterMap fun e =>
        (whatAdaSays.outputVariables.mapM e.binding.get).map fun values =>
          (values, e.factIds)) = [([value], [factId])] := rfl
    unfold finish
    simp only [pairs, groups]
    rfl
  unfold executeProofAttention
  rw [if_pos positive, if_neg hops, run]
  exact congrArg Except.ok finished

end

end ProofRay.Attention
