/- Intent fibers under a purge: the passes of the closure reach exactly the FactIds that follow
   from those asked for, fiber by fiber. -/

import ProofRay.Sidecar.Ledger

namespace ProofRay.Sidecar

/-- What goes with the FactIds asked for: every member of a fiber follows another one. -/
inductive Goes (fibers : List (List Nat)) (asked : List Nat) : Nat → Prop
  | asked {id : Nat} (member : id ∈ asked) : Goes fibers asked id
  | follows {fiber : List Nat} {first id : Nat} (known : fiber ∈ fibers)
      (before : Goes fibers asked first) (here : first ∈ fiber) (member : id ∈ fiber) :
      Goes fibers asked id

section

variable {fibers fibers' : List (List Nat)} {asked asked' : List Nat} {id : Nat}

theorem Goes.mono (goes : Goes fibers asked id) (within : ∀ fiber ∈ fibers, fiber ∈ fibers')
    (sooner : ∀ id ∈ asked, id ∈ asked') : Goes fibers' asked' id := by
  induction goes with
  | asked member => exact .asked (sooner _ member)
  | follows known before here member ih => exact .follows (within _ known) ih here member

end

section

variable {intents : List SidecarObservedIntent} {intent : SidecarObservedIntent}
  {selected : List Nat}

def FiberClosed (selected : List Nat) (intent : SidecarObservedIntent) : Prop :=
  (∃ id ∈ intent.factIds, id ∈ selected) → ∀ id ∈ intent.factIds, id ∈ selected

theorem exists_closeIntent (selected : List Nat) (intent : SidecarObservedIntent) :
    ∃ extra, closeIntent selected intent = selected ++ extra ∧
      ∀ id ∈ extra, id ∈ intent.factIds ∧ ∃ first ∈ intent.factIds, first ∈ selected := by
  unfold closeIntent
  split
  · rename_i opened
    refine ⟨_, rfl, fun id member => ⟨(List.mem_filter.mp member).1, opened.1⟩⟩
  · exact ⟨[], (List.append_nil selected).symm, fun id member => (by cases member)⟩

theorem closeIntent_eq_self :
    closeIntent selected intent = selected ↔ FiberClosed selected intent := by
  unfold closeIntent FiberClosed
  split
  · rename_i opened
    constructor
    · intro same
      have nothing := List.self_eq_append_right.mp same.symm
      refine absurd (fun id member => ?_) opened.2
      by_contra missing
      exact List.filter_eq_nil_iff.mp nothing id member (decide_eq_true missing)
    · intro closed
      exact absurd (closed opened.1) opened.2
  · rename_i shut
    refine ⟨fun _ touched => ?_, fun _ => rfl⟩
    by_contra missing
    exact shut ⟨touched, missing⟩

theorem covered_of_closeIntent (changes : closeIntent selected intent ≠ selected) :
    (¬ ∀ id ∈ intent.factIds, id ∈ selected) ∧
      ∀ id ∈ intent.factIds, id ∈ closeIntent selected intent := by
  unfold closeIntent at changes ⊢
  split at changes
  · rename_i opened
    rw [if_pos opened]
    refine ⟨opened.2, fun id member => ?_⟩
    by_cases chosen : id ∈ selected
    · exact List.mem_append_left _ chosen
    · exact List.mem_append_right _ (List.mem_filter.mpr ⟨member, decide_eq_true chosen⟩)
  · exact absurd rfl changes

theorem exists_closePass (intents : List SidecarObservedIntent) (selected : List Nat) :
    ∃ extra, intents.foldl closeIntent selected = selected ++ extra := by
  induction intents generalizing selected with
  | nil => exact ⟨[], (List.append_nil selected).symm⟩
  | cons intent rest ih =>
    obtain ⟨first, here, -⟩ := exists_closeIntent selected intent
    obtain ⟨later, there⟩ := ih (closeIntent selected intent)
    refine ⟨first ++ later, ?_⟩
    rw [List.foldl_cons, there, here, List.append_assoc]

theorem closed_of_closePass (still : intents.foldl closeIntent selected = selected) :
    ∀ intent ∈ intents, FiberClosed selected intent := by
  induction intents with
  | nil =>
    intro intent member
    cases member
  | cons first rest ih =>
    obtain ⟨extra, here, -⟩ := exists_closeIntent selected first
    obtain ⟨later, there⟩ := exists_closePass rest (closeIntent selected first)
    have same : closeIntent selected first = selected := by
      rw [List.foldl_cons, there, here, List.append_assoc] at still
      have nothing := List.self_eq_append_right.mp still.symm
      rw [here, (List.append_eq_nil_iff.mp nothing).1, List.append_nil]
    intro intent member
    rcases List.mem_cons.mp member with rfl | later
    · exact closeIntent_eq_self.mp same
    · rw [List.foldl_cons, same] at still
      exact ih still intent later

theorem exists_covered_of_closePass (changes : intents.foldl closeIntent selected ≠ selected) :
    ∃ intent ∈ intents, (¬ ∀ id ∈ intent.factIds, id ∈ selected) ∧
      ∀ id ∈ intent.factIds, id ∈ intents.foldl closeIntent selected := by
  induction intents with
  | nil => exact absurd rfl changes
  | cons first rest ih =>
    by_cases same : closeIntent selected first = selected
    · rw [List.foldl_cons, same] at changes ⊢
      obtain ⟨intent, member, rest⟩ := ih changes
      exact ⟨intent, List.mem_cons_of_mem first member, rest⟩
    · obtain ⟨uncovered, covered⟩ := covered_of_closeIntent same
      obtain ⟨later, there⟩ := exists_closePass rest (closeIntent selected first)
      refine ⟨first, List.mem_cons_self, uncovered, fun id member => ?_⟩
      rw [List.foldl_cons, there]
      exact List.mem_append_left _ (covered id member)

private theorem countP_lt {α : Type} {p q : α → Bool} {l : List α} (wider : ∀ a, p a → q a)
    (gained : ∃ a ∈ l, ¬ p a ∧ q a) : l.countP p < l.countP q := by
  obtain ⟨a, member, fails, holds⟩ := gained
  obtain ⟨front, back, rfl⟩ := List.append_of_mem member
  have before : front.countP p ≤ front.countP q := List.countP_mono_left fun a _ => wider a
  have after : back.countP p ≤ back.countP q := List.countP_mono_left fun a _ => wider a
  rw [List.countP_append, List.countP_append, List.countP_cons_of_neg fails,
    List.countP_cons_of_pos holds]
  omega

theorem closed_of_closeFibers {fuel : Nat} (enough : intents.length <
    fuel + intents.countP fun intent => ∀ id ∈ intent.factIds, id ∈ selected) :
    ∀ intent ∈ intents, FiberClosed (closeFibers intents fuel selected) intent := by
  induction fuel generalizing selected with
  | zero =>
    have bounded : intents.countP (fun intent => ∀ id ∈ intent.factIds, id ∈ selected) ≤
      intents.length := List.countP_le_length
    omega
  | succ fuel ih =>
    unfold closeFibers
    simp only
    split
    · rename_i still
      exact closed_of_closePass still
    · rename_i changes
      obtain ⟨extra, grown⟩ := exists_closePass intents selected
      obtain ⟨intent, member, uncovered, covered⟩ := exists_covered_of_closePass changes
      apply ih
      have more : intents.countP (fun intent => ∀ id ∈ intent.factIds, id ∈ selected) <
          intents.countP fun intent =>
            ∀ id ∈ intent.factIds, id ∈ intents.foldl closeIntent selected := by
        refine countP_lt (fun i all => ?_) ⟨intent, member, ?_, ?_⟩
        · refine decide_eq_true fun id inside => ?_
          rw [grown]
          exact List.mem_append_left _ (of_decide_eq_true all id inside)
        · intro all
          exact uncovered (of_decide_eq_true all)
        · exact decide_eq_true covered
      omega

theorem mem_closeFibers_of_mem {fuel id : Nat} (member : id ∈ selected) :
    id ∈ closeFibers intents fuel selected := by
  induction fuel generalizing selected with
  | zero => exact member
  | succ fuel ih =>
    unfold closeFibers
    simp only
    split
    · exact member
    · obtain ⟨extra, grown⟩ := exists_closePass intents selected
      apply ih
      rw [grown]
      exact List.mem_append_left _ member

private theorem goes_of_closePass {asked : List Nat} {rest : List SidecarObservedIntent}
    (within : ∀ intent ∈ rest, intent ∈ intents)
    (sound : ∀ id ∈ selected, Goes (intents.map fun i => i.factIds) asked id) :
    ∀ id ∈ rest.foldl closeIntent selected, Goes (intents.map fun i => i.factIds) asked id := by
  induction rest generalizing selected with
  | nil => exact sound
  | cons intent rest ih =>
    refine ih (fun i member => within i (List.mem_cons_of_mem intent member)) fun id member => ?_
    obtain ⟨extra, grown, own⟩ := exists_closeIntent selected intent
    rw [grown, List.mem_append] at member
    rcases member with before | added
    · exact sound id before
    · obtain ⟨inside, first, here, chosen⟩ := own id added
      have known : intent.factIds ∈ intents.map fun i => i.factIds :=
        List.mem_map_of_mem (within intent List.mem_cons_self)
      exact .follows known (sound first chosen) here inside

theorem goes_of_mem_closeFibers {asked : List Nat} {fuel id : Nat}
    (sound : ∀ id ∈ selected, Goes (intents.map fun i => i.factIds) asked id)
    (member : id ∈ closeFibers intents fuel selected) :
    Goes (intents.map fun i => i.factIds) asked id := by
  induction fuel generalizing selected with
  | zero => exact sound id member
  | succ fuel ih =>
    unfold closeFibers at member
    simp only at member
    split at member
    · exact sound id member
    · exact ih (goes_of_closePass (fun _ here => here) sound) member

end

theorem mem_purgeSelection {known : List AttestedSidecarFact} {factIds : List Nat} {id : Nat} :
    id ∈ purgeSelection known factIds ↔
      Goes ((observedIntents known).map fun i => i.factIds)
        (factIds.filter fun id => id ∈ known.map fun item => item.fact.factId) id := by
  constructor
  · intro member
    exact goes_of_mem_closeFibers (fun _ => .asked) member
  · intro goes
    induction goes with
    | asked member => exact mem_closeFibers_of_mem member
    | follows known' before here member ih =>
      obtain ⟨intent, inIntents, rfl⟩ := List.mem_map.mp known'
      have closed : FiberClosed (purgeSelection known factIds) intent :=
        closed_of_closeFibers (by omega) intent inIntents
      exact closed ⟨_, here, ih⟩ _ member

end ProofRay.Sidecar
