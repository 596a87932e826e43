/- What a verdict of the checker says about the history, either way. -/

import ProofRay.Engine.Linearizability
import Mathlib.Data.Fintype.Card

namespace ProofRay.Engine.Linearization

open Lib (Dict)
open Lib.Guard
open Lib.MemoSearch
open Engine.Linearizability

/-- The operations run one after the other on the sequential model, each with the answer it
was recorded with. -/
inductive Reproduces (captures : List Int) : State → List Op → Prop where
  | nil (s : State) : Reproduces captures s []
  | cons {s s' : State} {op : Op} {rest : List Op} {expected : Result}
      (legal : applyOp captures s op = .ok (s', .valid, expected)) (answer : agrees op expected)
      (tail : Reproduces captures s' rest) : Reproduces captures s (op :: rest)

/-- An order of all the completed operations of a history and of some of the others, by
their positions. -/
structure Linearizes (ops : List Op) (init : State) (order : List (Fin ops.length)) : Prop where
  once : order.Nodup
  completed : ∀ i : Fin ops.length, ops[i].response.isSome → i ∈ order
  realTime : order.Pairwise fun i j => ¬ precedes ops[j] ops[i]
  reproduces : Reproduces (captureIds ops) init (order.map fun i => ops[i])

theorem testBit_linearized (mask i j : Nat) :
    (mask ||| 1 <<< i).testBit j = true ↔ mask.testBit j = true ∨ j = i := by
  rw [Nat.testBit_or, Nat.one_shiftLeft, Nat.testBit_two_pow, Bool.or_eq_true, decide_eq_true_eq,
    eq_comm (a := i)]

private theorem testBit_foldl (p : Nat → Bool) (l : List Nat) (mask i : Nat) :
    (l.foldl (fun mask j => if p j then mask ||| 1 <<< j else mask) mask).testBit i = true ↔
      mask.testBit i = true ∨ i ∈ l ∧ p i := by
  induction l generalizing mask with
  | nil => simp
  | cons j l ih =>
    rw [List.foldl_cons, ih]
    by_cases marked : p j
    · rw [if_pos marked, testBit_linearized, List.mem_cons]
      constructor
      · rintro ((old | rfl) | tail)
        · exact .inl old
        · exact .inr ⟨.inl rfl, marked⟩
        · exact .inr ⟨.inr tail.1, tail.2⟩
      · rintro (old | ⟨rfl | tail, holds⟩)
        · exact .inl (.inl old)
        · exact .inl (.inr rfl)
        · exact .inr ⟨tail, holds⟩
    · rw [if_neg marked, List.mem_cons]
      constructor
      · rintro (old | tail)
        · exact .inl old
        · exact .inr ⟨.inr tail.1, tail.2⟩
      · rintro (old | ⟨rfl | tail, holds⟩)
        · exact .inl old
        · exact absurd holds marked
        · exact .inr ⟨tail, holds⟩

theorem testBit_completeMask (ops : List Op) (i : Fin ops.length) :
    (completeMask ops).testBit i = true ↔ ops[i].response.isSome := by
  unfold completeMask
  rw [testBit_foldl fun j => ops[j]?.any fun op => op.response.isSome]
  simp

variable {expected : Result} {s t s' : State} {ops : List Op} {i : Nat} {op : Op}

theorem lt_of_testBit_completeMask (marked : (completeMask ops).testBit i = true) :
    i < ops.length := by
  unfold completeMask at marked
  rw [testBit_foldl fun j => ops[j]?.any fun op => op.response.isSome] at marked
  simp only [Nat.zero_testBit, Bool.false_eq_true, List.mem_range, false_or] at marked
  exact marked.1

theorem goal_iff (ops : List Op) (node : Node) :
    (space ops).goal node = true ↔
      ∀ i : Fin ops.length, ops[i].response.isSome → node.1.testBit i = true := by
  show decide (node.1 &&& completeMask ops = completeMask ops) = true ↔ _
  rw [decide_eq_true_eq]
  constructor
  · intro covered i answered
    have marked := (testBit_completeMask ops i).mpr answered
    rw [← covered, Nat.testBit_and, Bool.and_eq_true] at marked
    exact marked.1
  · intro linearized
    apply Nat.eq_of_testBit_eq
    intro i
    rw [Nat.testBit_and]
    cases marked : (completeMask ops).testBit i with
    | false => simp
    | true =>
      have inside := lt_of_testBit_completeMask marked
      have answered := (testBit_completeMask ops ⟨i, inside⟩).mp marked
      rw [linearized ⟨i, inside⟩ answered]
      rfl

theorem mem_realTimePreds (ops : List Op) (i : Nat) (op : Op) (j : Nat) :
    j ∈ realTimePreds ops i op ↔ ∃ inside : j < ops.length, j ≠ i ∧ precedes ops[j] op := by
  unfold realTimePreds
  simp only [List.mem_filter, List.mem_range, decide_eq_true_eq]
  constructor
  · rintro ⟨inside, other, before⟩
    rw [List.getElem?_eq_getElem inside] at before
    exact ⟨inside, other, before⟩
  · rintro ⟨inside, other, before⟩
    rw [List.getElem?_eq_getElem inside]
    exact ⟨inside, other, before⟩

theorem child_iff (ops : List Op) (node next : Node) (i : Fin ops.length) :
    (space ops).child node i = .ok (some next) ↔
      node.1.testBit i = false ∧
      (∀ j : Fin ops.length, j ≠ i → precedes ops[j] ops[i] → node.1.testBit j = true) ∧
      ∃ s' expected, applyOp (captureIds ops) node.2 ops[i] = .ok (s', .valid, expected) ∧
        agrees ops[i] expected ∧ next = (node.1 ||| 1 <<< (i : Nat), s') := by
  show linearizeNext ops (captureIds ops) node i = .ok (some next) ↔ _
  have found : ops[(i : Nat)]? = some ops[i] := List.getElem?_eq_getElem i.isLt
  have waiting : (realTimePreds ops i ops[i]).any (fun j => !node.1.testBit j) = true ↔
      ¬ ∀ j : Fin ops.length, j ≠ i → precedes ops[j] ops[i] → node.1.testBit j = true := by
    rw [List.any_eq_true]
    constructor
    · rintro ⟨j, member, pending⟩ ready
      obtain ⟨inside, other, before⟩ := (mem_realTimePreds ops i ops[i] j).mp member
      have done := ready ⟨j, inside⟩ (fun same => other (congrArg Fin.val same)) before
      simp [done] at pending
    · intro notReady
      push Not at notReady
      obtain ⟨j, other, before, pending⟩ := notReady
      refine ⟨j, (mem_realTimePreds ops i ops[i] j).mpr ⟨j.isLt, ?_, before⟩, by simp [pending]⟩
      exact fun same => other (Fin.ext same)
  unfold linearizeNext
  rw [found]
  dsimp only
  by_cases taken : node.1.testBit i = true
  · simp [taken]
  · rw [if_neg taken]
    by_cases blocked : (realTimePreds ops i ops[i]).any (fun j => !node.1.testBit j) = true
    · rw [if_pos blocked]
      have notReady := waiting.mp blocked
      constructor
      · intro impossible
        cases impossible
      · rintro ⟨-, ready, -⟩
        exact absurd ready notReady
    · rw [if_neg blocked]
      have ready := not_not.mp (mt waiting.mpr blocked)
      have free : node.1.testBit i = false := by simpa using taken
      simp only [bind_eq_ok]
      constructor
      · rintro ⟨⟨s', outcome, expected⟩, run, rest⟩
        dsimp only at rest
        split at rest
        · simp at rest
        · rename_i valid
          split at rest
          · simp at rest
          · rename_i answer
            have legal : outcome = .valid := not_not.mp valid
            subst legal
            simp only [pure_eq_ok, Option.some.injEq] at rest
            exact ⟨free, ready, s', expected, run, not_not.mp answer, rest.symm⟩
      · rintro ⟨-, -, s', expected, run, answer, rfl⟩
        refine ⟨(s', .valid, expected), run, ?_⟩
        dsimp only
        rw [if_neg (not_not.mpr rfl), if_neg (not_not.mpr answer)]
        rfl

/-- What is left to order once the mask is linearized. -/
structure Continues (ops : List Op) (mask : Nat) (s : State) (order : List (Fin ops.length)) :
    Prop where
  fresh : ∀ i ∈ order, mask.testBit i = false
  once : order.Nodup
  completed : ∀ i : Fin ops.length, ops[i].response.isSome → mask.testBit i = true ∨ i ∈ order
  realTime : order.Pairwise fun i j => ¬ precedes ops[j] ops[i]
  reproduces : Reproduces (captureIds ops) s (order.map fun i => ops[i])

theorem isSome_of_precedes {b a : Op} (before : precedes b a) : b.response.isSome := by
  unfold precedes at before
  cases answered : b.response with
  | none => rw [answered] at before; cases before
  | some r => rfl

theorem continues_cons_iff (ops : List Op) (mask : Nat) (s : State) (i : Fin ops.length)
    (rest : List (Fin ops.length)) :
    Continues ops mask s (i :: rest) ↔
      ∃ next, (space ops).child (mask, s) i = .ok (some next) ∧
        Continues ops next.1 next.2 rest := by
  constructor
  · intro order
    obtain ⟨iFresh, restFresh⟩ := List.forall_mem_cons.mp order.fresh
    obtain ⟨iOnce, restOnce⟩ := List.nodup_cons.mp order.once
    obtain ⟨iFirst, restOrdered⟩ := List.pairwise_cons.mp order.realTime
    have reproduces := order.reproduces
    rw [List.map_cons] at reproduces
    cases reproduces with
    | cons legal answer tail =>
      refine ⟨_, (child_iff ops _ _ i).mpr ⟨iFresh, ?_, _, _, legal, answer, rfl⟩, ?_⟩
      · intro j other before
        rcases order.completed j (isSome_of_precedes before) with done | member
        · exact done
        · rcases List.mem_cons.mp member with same | later
          · exact absurd same other
          · exact absurd before (iFirst j later)
      · refine ⟨?_, restOnce, ?_, restOrdered, tail⟩
        · intro j member
          rw [← Bool.not_eq_true, testBit_linearized]
          rintro (old | same)
          · rw [restFresh j member] at old
            cases old
          · exact iOnce (Fin.ext same ▸ member)
        · intro j answered
          rw [testBit_linearized]
          rcases order.completed j answered with old | member
          · exact .inl (.inl old)
          · rcases List.mem_cons.mp member with same | later
            · exact .inl (.inr (congrArg Fin.val same))
            · exact .inr later
  · rintro ⟨next, child, order⟩
    obtain ⟨iFresh, ready, s', expected, legal, answer, rfl⟩ := (child_iff ops _ _ i).mp child
    have absent : ∀ j ∈ rest, mask.testBit j = false ∧ j ≠ i := by
      intro j member
      have unset := order.fresh j member
      rw [← Bool.not_eq_true, testBit_linearized] at unset
      push Not at unset
      exact ⟨by simpa using unset.1, fun same => unset.2 (congrArg Fin.val same)⟩
    refine ⟨?_, ?_, ?_, ?_, .cons legal answer order.reproduces⟩
    · exact List.forall_mem_cons.mpr ⟨iFresh, fun j member => (absent j member).1⟩
    · exact List.nodup_cons.mpr ⟨fun member => (absent i member).2 rfl, order.once⟩
    · intro j answered
      rcases order.completed j answered with linearized | member
      · rcases (testBit_linearized mask i j).mp linearized with old | same
        · exact .inl old
        · exact .inr (List.mem_cons.mpr (.inl (Fin.ext same)))
      · exact .inr (List.mem_cons_of_mem i member)
    · refine List.pairwise_cons.mpr ⟨?_, order.realTime⟩
      intro j member before
      have done := ready j (absent j member).2 before
      rw [(absent j member).1] at done
      cases done

theorem reaches_iff (ops : List Op) (node : Node) :
    Reaches (space ops) node ↔ ∃ order, Continues ops node.1 node.2 order := by
  constructor
  · intro reached
    induction reached with
    | @goal node found =>
      have linearized := (goal_iff ops node).mp found
      exact ⟨[], by simp, List.nodup_nil, fun i answered => .inl (linearized i answered),
        List.Pairwise.nil, .nil _⟩
    | @step node next i member child rest ih =>
      obtain ⟨order, continues⟩ := ih
      have inside : i < ops.length := List.mem_range.mp member
      exact ⟨⟨i, inside⟩ :: order,
        (continues_cons_iff ops _ _ ⟨i, inside⟩ order).mpr ⟨next, child, continues⟩⟩
  · rintro ⟨order, continues⟩
    induction order generalizing node with
    | nil =>
      apply Reaches.goal
      rw [goal_iff]
      intro i answered
      rcases continues.completed i answered with done | member
      · exact done
      · cases member
    | cons i rest ih =>
      obtain ⟨next, child, tail⟩ := (continues_cons_iff ops _ _ i rest).mp continues
      exact .step (List.mem_range.mpr i.isLt) child (ih next tail)

theorem continues_zero_iff (ops : List Op) (init : State) (order : List (Fin ops.length)) :
    Continues ops 0 init order ↔ Linearizes ops init order := by
  constructor
  · intro order
    refine ⟨order.once, ?_, order.realTime, order.reproduces⟩
    intro i answered
    simpa using order.completed i answered
  · intro order
    exact ⟨by simp, order.once, fun i answered => .inr (order.completed i answered),
      order.realTime, order.reproduces⟩

/-- Two states of the model that no operation tells apart: dictionaries with the same
answers, whatever the order of their items. -/
structure Alike (s t : State) : Prop where
  facts : ∀ k, s.facts.get k = t.facts.get k
  dedup : ∀ k, s.dedup.get k = t.dedup.get k
  readSeq : s.readSeq = t.readSeq
  generation : s.generation = t.generation
  captures : ∀ k, s.captures.get k = t.captures.get k

theorem factRank_injective : Function.Injective factRank := fun _ _ same => same

theorem Alike.factsSnapshot {s t : State} (alike : Alike s t) :
    factsSnapshot s = factsSnapshot t := by
  have perm := Dict.items_perm alike.facts
  have sorted := (Dict.sortedBy_eq_iff factRank_injective).mpr alike.facts
  have known : none ∉ s.facts.keys ↔ none ∉ t.facts.keys := by
    rw [← Dict.get_eq_none_iff, ← Dict.get_eq_none_iff, alike.facts]
  unfold Linearizability.factsSnapshot
  simp only [perm.length_eq, known, sorted]

theorem Alike.of_key {s t : State} {k : StateKey} (left : s.key = .ok k) (right : t.key = .ok k) :
    Alike s t := by
  have facts (u : State) (key : u.key = .ok k) : u.facts.sortedBy factRank = k.facts ∧
      u.dedup.sortedBy id = k.dedup ∧ u.readSeq = k.readSeq ∧ u.generation = k.generation ∧
      u.captures.sortedBy id = k.captures := by
    unfold State.key Linearizability.factsSnapshot at key
    simp only [bind_eq_ok, require_eq_ok, pure_eq_ok] at key
    obtain ⟨_, ⟨_, _, rfl⟩, rfl⟩ := key
    exact ⟨rfl, rfl, rfl, rfl, rfl⟩
  obtain ⟨factsS, dedupS, seqS, genS, capturesS⟩ := facts s left
  obtain ⟨factsT, dedupT, seqT, genT, capturesT⟩ := facts t right
  exact ⟨(Dict.sortedBy_eq_iff factRank_injective).mp (factsS.trans factsT.symm),
    (Dict.sortedBy_eq_iff Function.injective_id).mp (dedupS.trans dedupT.symm),
    seqS.trans seqT.symm, genS.trans genT.symm,
    (Dict.sortedBy_eq_iff Function.injective_id).mp (capturesS.trans capturesT.symm)⟩

private theorem get_set_congr {κ α : Type} [DecidableEq κ] {d e : Dict κ α} (k : κ) (a : α)
    (same : ∀ k, d.get k = e.get k) (j : κ) : (d.set k a).get j = (e.set k a).get j := by
  rw [Dict.get_set, Dict.get_set, same]

theorem Alike.applyWrite (alike : Alike s t) (h : applyWrite s op = .ok (s', expected)) :
    ∃ t', applyWrite t op = .ok (t', expected) ∧ Alike s' t' := by
  have sameDedup : op.operationId.bind t.dedup.get = op.operationId.bind s.dedup.get := by
    congr 1
    funext id
    exact (alike.dedup id).symm
  unfold Linearizability.applyWrite at h ⊢
  rw [sameDedup]
  cases known : op.operationId.bind s.dedup.get with
  | some stored =>
    rw [known] at h
    dsimp only at h ⊢
    by_cases same : commandDigest op = stored.digest
    · rw [if_pos same] at h ⊢
      cases h
      exact ⟨t, rfl, alike⟩
    · rw [if_neg same] at h ⊢
      cases h
      exact ⟨t, rfl, alike⟩
  | none =>
    rw [known] at h
    dsimp only at h ⊢
    rw [← alike.facts op.factId]
    simp only [bind_eq_ok] at h ⊢
    obtain ⟨decision, decided, h⟩ := h
    by_cases isApplied : decision = applied
    · rw [if_pos isApplied] at h
      cases h
      refine ⟨_, ⟨decision, decided, by rw [if_pos isApplied, ← alike.readSeq]; rfl⟩, ?_⟩
      refine ⟨get_set_congr _ _ alike.facts, ?_, rfl, alike.generation, alike.captures⟩
      intro id
      dsimp only
      cases op.operationId with
      | none => exact alike.dedup id
      | some id' => exact get_set_congr _ _ alike.dedup id
    · rw [if_neg isApplied] at h
      cases h
      exact ⟨t, ⟨decision, decided, by rw [if_neg isApplied]; rfl⟩, alike⟩

theorem Alike.applyOp {captureIds : List Int} {outcome : Outcome} (alike : Alike s t)
    (h : applyOp captureIds s op = .ok (s', outcome, expected)) :
    ∃ t', applyOp captureIds t op = .ok (t', outcome, expected) ∧ Alike s' t' := by
  have write (h : (Linearizability.applyWrite s op >>= fun r => pure (r.1, Outcome.valid, r.2)) =
        Except.ok (s', outcome, expected)) :
      ∃ t', (Linearizability.applyWrite t op >>= fun r => pure (r.1, Outcome.valid, r.2)) =
        Except.ok (t', outcome, expected) ∧ Alike s' t' := by
    simp only [bind_eq_ok, pure_eq_ok, Prod.mk.injEq] at h
    obtain ⟨⟨_, _⟩, run, rfl, rfl, rfl⟩ := h
    obtain ⟨t', run', alike'⟩ := alike.applyWrite run
    exact ⟨t', by rw [run']; rfl, alike'⟩
  unfold Linearizability.applyOp at h ⊢
  cases kind : op.kind with
  | put => rw [kind] at h; exact write h
  | delete => rw [kind] at h; exact write h
  | read =>
    rw [kind] at h
    dsimp only at h ⊢
    cases source : op.snapshotOf with
    | none =>
      rw [source] at h
      dsimp only at h ⊢
      rw [alike.facts op.factId] at h
      cases h
      exact ⟨t, rfl, alike⟩
    | some id =>
      rw [source] at h
      dsimp only at h ⊢
      by_cases unknown : id ∉ captureIds
      · rw [if_pos unknown] at h ⊢
        cases h
        exact ⟨t, rfl, alike⟩
      · rw [if_neg unknown] at h ⊢
        rw [← alike.captures id]
        cases frozen : s.captures.get id with
        | none =>
          rw [frozen] at h
          cases h
          exact ⟨t, rfl, alike⟩
        | some capture =>
          rw [frozen] at h
          cases h
          exact ⟨t, rfl, alike⟩
  | capture =>
    rw [kind] at h
    simp only [bind_eq_ok, pure_eq_ok, Prod.mk.injEq] at h ⊢
    obtain ⟨facts, frozen, rfl, rfl, rfl⟩ := h
    rw [alike.factsSnapshot] at frozen
    refine ⟨_, ⟨facts, frozen, rfl, rfl, by rw [alike.generation, alike.readSeq]⟩, ?_⟩
    refine ⟨alike.facts, alike.dedup, alike.readSeq, alike.generation, ?_⟩
    rw [alike.readSeq, alike.generation]
    exact get_set_congr _ _ alike.captures
  | rotate =>
    rw [kind] at h
    cases h
    exact ⟨t, by rw [alike.generation], alike⟩
  | compact =>
    rw [kind] at h
    cases h
    refine ⟨_, by rw [alike.generation], ?_⟩
    exact ⟨alike.facts, alike.dedup, alike.readSeq, by rw [alike.generation], alike.captures⟩
  | recover =>
    rw [kind] at h
    cases h
    exact ⟨t, rfl, alike⟩
  | other text =>
    rw [kind] at h
    cases h
    exact ⟨t, rfl, alike⟩

/-- Nodes with one key have linearized the same operations and hold states that no
operation tells apart. -/
theorem bisimulation (ops : List Op) :
    Bisimulation (space ops) fun x y => x.1 = y.1 ∧ Alike x.2 y.2 := by
  refine ⟨?_, ?_, ?_⟩
  · intro x y k keyX keyY
    simp only [space, bind_eq_ok, pure_eq_ok] at keyX keyY
    obtain ⟨kx, keyX, rfl⟩ := keyX
    obtain ⟨ky, keyY, same⟩ := keyY
    obtain ⟨masks, rfl⟩ := Prod.mk.injEq .. ▸ same
    exact ⟨masks.symm, Alike.of_key keyX keyY⟩
  · rintro x y ⟨masks, -⟩ found
    rw [goal_iff] at found ⊢
    rw [← masks]
    exact found
  · rintro x y i x' ⟨masks, alike⟩ child
    have inside : i < ops.length := by
      by_contra outside
      have absent : ops[i]? = none := List.getElem?_eq_none (not_lt.mp outside)
      simp [space, linearizeNext, absent] at child
    obtain ⟨free, ready, s', expected, legal, answer, rfl⟩ :=
      (child_iff ops x x' ⟨i, inside⟩).mp child
    obtain ⟨t', legal', alike'⟩ := alike.applyOp legal
    refine ⟨(y.1 ||| 1 <<< i, t'), ?_, by rw [masks], alike'⟩
    rw [masks] at free ready
    exact (child_iff ops y _ ⟨i, inside⟩).mpr ⟨free, ready, t', expected, legal', answer, rfl⟩

def remaining (ops : List Op) (node : Node) : Nat :=
  (Finset.univ.filter fun i : Fin ops.length => node.1.testBit i = false).card

theorem remaining_child {x y : Node} (member : i ∈ (space ops).branches)
    (child : (space ops).child x i = .ok (some y)) : remaining ops y < remaining ops x := by
  have inside : i < ops.length := List.mem_range.mp member
  obtain ⟨free, -, s', -, -, -, rfl⟩ := (child_iff ops x y ⟨i, inside⟩).mp child
  unfold remaining
  apply Finset.card_lt_card
  rw [Finset.ssubset_iff_of_subset]
  · refine ⟨⟨i, inside⟩, by simpa using free, ?_⟩
    simp
  · intro j pending
    simp only [Finset.mem_filter, Finset.mem_univ, true_and] at pending ⊢
    rw [← Bool.not_eq_true, testBit_linearized] at pending
    simpa using fun old => pending (.inl old)

theorem remaining_le (ops : List Op) (node : Node) : remaining ops node ≤ ops.length :=
  (Finset.card_filter_le _ _).trans (Finset.card_fin _).le

/-- The checker decides its definition: `linearizable` comes with an order that reproduces the
history, and `nonLinearizable` is answered only where there is none.  The memo prunes no order,
and a search that the budget cut short gives neither verdict. -/
theorem checkLinearizable_decides (ops : List Op) (maxStates initialReadSeq initialGeneration : Int)
    (initialFacts : Dict (Option Int) Versioned) {r : CheckResult}
    (h : checkLinearizable ops maxStates initialReadSeq initialGeneration initialFacts = .ok r) :
    (r.verdict = .linearizable →
      ∃ order, Linearizes ops (State.init initialFacts initialReadSeq initialGeneration) order) ∧
    (r.verdict = .nonLinearizable →
      ¬ ∃ order, Linearizes ops (State.init initialFacts initialReadSeq initialGeneration)
        order) := by
  unfold checkLinearizable at h
  simp only [bind_eq_ok] at h
  obtain ⟨⟨found, trail⟩, searched, h⟩ := h
  set init := State.init initialFacts initialReadSeq initialGeneration
  have ordered : Reaches (space ops) (0, init) ↔ ∃ order, Linearizes ops init order := by
    rw [reaches_iff]
    exact exists_congr fun order => continues_zero_iff ops init order
  have answers := answers_visit (bisimulation ops).keyDecides maxStates (remaining ops)
    (fun x i y member child => remaining_child member child)
    (Nat.lt_succ_of_le (remaining_le ops (0, init))) searched
  dsimp only at h
  by_cases hit : found = true
  · rw [if_pos hit] at h
    cases h
    exact ⟨fun _ => ordered.mp (answers.sound hit), fun negative => (by cases negative)⟩
  · rw [if_neg hit] at h
    by_cases cut : trail.exhausted = true
    · rw [if_pos cut] at h
      cases h
      exact ⟨fun positive => (by cases positive), fun negative => (by cases negative)⟩
    · rw [if_neg cut] at h
      cases h
      refine ⟨fun positive => (by cases positive), fun _ order => ?_⟩
      have emptyMemo : DeadMemo (space ops) ⟨[], 0, false, ((-1, 0) : Best)⟩ := by
        intro k member
        cases member
      have dead := (answers.complete (by simpa using hit) (by simpa using cut) emptyMemo).1
      exact dead (ordered.mpr order)

/-- A write that was answered at time 2, and a read that found nothing between `called` and
time 4. -/
def lateRead (called : Int) : List Op :=
  [⟨1, .put, 0, some 2, some 7, some 5, some 1, some 9, some [.text applied, .int 1], none⟩,
    ⟨2, .read, called, some 4, none, some 5, none, none, some [.text notFound, .none], none⟩]

/-- The read is in order while it overlaps the write, and no longer after its answer. -/
theorem checkLinearizable_decides_lateRead :
    (∃ order, Linearizes (lateRead 1) (State.init Dict.empty 0 0) order) ∧
    ¬ ∃ order, Linearizes (lateRead 3) (State.init Dict.empty 0 0) order :=
  have overlapping : checkLinearizable (lateRead 1) 500000 0 0 Dict.empty =
      .ok ⟨.linearizable, "linearizável", [], 3⟩ := by decide +kernel
  have stale : checkLinearizable (lateRead 3) 500000 0 0 Dict.empty =
      .ok ⟨.nonLinearizable, "não-linearizável (nenhuma ordem reproduz as respostas)", [2], 2⟩ := by
    decide +kernel
  ⟨(checkLinearizable_decides (lateRead 1) 500000 0 0 Dict.empty overlapping).1 rfl,
    (checkLinearizable_decides (lateRead 3) 500000 0 0 Dict.empty stale).2 rfl⟩

end ProofRay.Engine.Linearization
