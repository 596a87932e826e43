/- Greedy choice: round after round the first item with the best value is taken; the order of the
   items matters exactly where two tie. -/

import Mathlib.Data.List.Nodup
import Mathlib.Order.Lattice
import Mathlib.Tactic.Push

namespace ProofRay.Lib

universe u v w

variable {ι : Type u} {ρ : Type v} {σ : Type w} [DecidableEq ι] [LinearOrder ρ]

/-- The best item so far after a visit of the items in their order: one is kept when its value is
above the best value so far, and an item without a value is passed over. -/
def scan (value : ι → Option ρ) : ρ × Option ι → List ι → ρ × Option ι
  | best, [] => best
  | best, item :: rest =>
    match value item with
    | none => scan value best rest
    | some r => scan value (if best.1 < r then (r, some item) else best) rest

/-- The item is among the best of those with a value above the bound. -/
structure Best (value : ι → Option ρ) (bound : ρ) (items : List ι) (item : ι) : Prop where
  mem : item ∈ items
  above : ∃ r, value item = some r ∧ bound < r ∧
    ∀ other ∈ items, ∀ r', value other = some r' → r' ≤ r

section

variable {value : ι → Option ρ} {bound : ρ} {items items' : List ι} {item : ι}

omit [DecidableEq ι] in
theorem Best.congr (same : ∀ i, i ∈ items ↔ i ∈ items') (best : Best value bound items item) :
    Best value bound items' item := by
  obtain ⟨r, valued, above, most⟩ := best.above
  exact ⟨(same item).mp best.mem, r, valued, above,
    fun other member => most other ((same other).mpr member)⟩

omit [DecidableEq ι] in
theorem scan_spec (value : ι → Option ρ) (best : ρ × Option ι) (items : List ι) :
    best.1 ≤ (scan value best items).1 ∧
      (∀ other ∈ items, ∀ r, value other = some r → r ≤ (scan value best items).1) ∧
      (scan value best items = best ∨ ∃ item ∈ items, ∃ r, value item = some r ∧ best.1 < r ∧
        scan value best items = (r, some item)) := by
  induction items generalizing best with
  | nil => exact ⟨le_rfl, fun other member => (by cases member), .inl rfl⟩
  | cons first rest ih =>
    unfold scan
    cases valued : value first with
    | none =>
      obtain ⟨grows, most, ends⟩ := ih best
      refine ⟨grows, fun other member r valued' => ?_, ?_⟩
      · rcases List.mem_cons.mp member with rfl | member
        · rw [valued] at valued'
          cases valued'
        · exact most other member r valued'
      · exact ends.imp id fun ⟨item, member, found⟩ => ⟨item, List.mem_cons_of_mem _ member, found⟩
    | some r =>
      simp only
      by_cases better : best.1 < r
      · rw [if_pos better]
        obtain ⟨grows, most, ends⟩ := ih (r, some first)
        refine ⟨better.le.trans grows, fun other member r' valued' => ?_, .inr ?_⟩
        · rcases List.mem_cons.mp member with rfl | member
          · rw [valued] at valued'
            cases valued'
            exact grows
          · exact most other member r' valued'
        · rcases ends with same | ⟨item, member, r', valued', above, found⟩
          · exact ⟨first, List.mem_cons_self, r, valued, better, same⟩
          · exact ⟨item, List.mem_cons_of_mem _ member, r', valued', better.trans above, found⟩
      · rw [if_neg better]
        obtain ⟨grows, most, ends⟩ := ih best
        refine ⟨grows, fun other member r' valued' => ?_, ?_⟩
        · rcases List.mem_cons.mp member with rfl | member
          · rw [valued] at valued'
            cases valued'
            exact (not_lt.mp better).trans grows
          · exact most other member r' valued'
        · exact ends.imp id fun ⟨item, member, found⟩ =>
            ⟨item, List.mem_cons_of_mem _ member, found⟩

def firstBest (value : ι → Option ρ) (bound : ρ) (items : List ι) : Option ι :=
  (scan value (bound, none) items).2

omit [DecidableEq ι] in
theorem best_of_firstBest (found : firstBest value bound items = some item) :
    Best value bound items item := by
  obtain ⟨-, most, ends⟩ := scan_spec value (bound, none) items
  unfold firstBest at found
  rcases ends with same | ⟨item', member, r, valued, above, same⟩
  · rw [same] at found
    cases found
  · rw [same] at found most
    cases found
    exact ⟨member, r, valued, above, most⟩

omit [DecidableEq ι] in
theorem not_best_of_firstBest (none_found : firstBest value bound items = none) (item : ι) :
    ¬ Best value bound items item := by
  intro best
  obtain ⟨r, valued, above, -⟩ := best.above
  obtain ⟨-, most, ends⟩ := scan_spec value (bound, none) items
  unfold firstBest at none_found
  rcases ends with same | ⟨item', -, r', -, -, same⟩
  · rw [same] at most
    exact absurd above (not_lt.mpr (most item best.mem r valued))
  · rw [same] at none_found
    cases none_found

omit [DecidableEq ι] in
theorem firstBest_of_head {rest : List ι} (best : Best value bound (item :: rest) item) :
    firstBest value bound (item :: rest) = some item := by
  obtain ⟨r, valued, above, most⟩ := best.above
  have first : firstBest value bound (item :: rest) = (scan value (r, some item) rest).2 := by
    simp only [firstBest, scan, valued, above, if_true]
  obtain ⟨-, -, ends⟩ := scan_spec value (r, some item) rest
  rw [first]
  rcases ends with same | ⟨other, member, r', valued', above', -⟩
  · rw [same]
  · exact absurd above' (not_lt.mpr (most other (List.mem_cons_of_mem _ member) r' valued'))

end

/-- A greedy choice: what an item is worth in a state, the bound it has to be above, and the state
after it is taken. -/
structure Greedy (σ : Type w) (ι : Type u) (ρ : Type v) where
  value : σ → ι → Option ρ
  bound : ρ
  take : σ → ι → σ

namespace Greedy

variable (greedy : Greedy σ ι ρ)

/-- The items taken from those that are left, which `visit` puts in the order of each round. -/
def choose (visit : List ι → List ι) : Nat → σ → List ι → List ι
  | 0, _, _ => []
  | rounds + 1, s, left =>
    match firstBest (greedy.value s) greedy.bound (visit left) with
    | none => []
    | some item => item :: choose visit rounds (greedy.take s item) (left.erase item)

/-- The items taken when none may be taken any more. -/
inductive Run : σ → List ι → List ι → Prop where
  | stop {s : σ} {left : List ι}
      (done : ∀ item, ¬ Best (greedy.value s) greedy.bound left item) : Run s left []
  | pick {s : σ} {left chosen : List ι} {item : ι}
      (best : Best (greedy.value s) greedy.bound left item)
      (rest : Run (greedy.take s item) (left.erase item) chosen) : Run s left (item :: chosen)

/-- The states before a round, and what is left there. -/
inductive Reached (s : σ) (left : List ι) : σ → List ι → Prop where
  | start : Reached s left s left
  | pick {s' : σ} {left' : List ι} {item : ι} (reached : Reached s left s' left')
      (best : Best (greedy.value s') greedy.bound left' item) :
      Reached s left (greedy.take s' item) (left'.erase item)

def Untied (s : σ) (left : List ι) : Prop :=
  ∀ s' left', greedy.Reached s left s' left' → ∀ item other,
    Best (greedy.value s') greedy.bound left' item →
      Best (greedy.value s') greedy.bound left' other → item = other

def Visits (visit : List ι → List ι) (items : List ι) : Prop :=
  ∀ left, left.Sublist items → (visit left).Perm left

def inOrder (order left : List ι) : List ι := order.filter (· ∈ left)

theorem visits_inOrder {items order : List ι} (nodup : items.Nodup) (same : order.Perm items) :
    Visits (inOrder order) items := by
  intro left sub
  refine (List.perm_ext_iff_of_nodup ((same.nodup_iff.mpr nodup).filter _)
    (nodup.sublist sub)).mpr fun item => ?_
  simp only [List.mem_filter, decide_eq_true_eq]
  exact ⟨And.right, fun member => ⟨same.mem_iff.mpr (sub.subset member), member⟩⟩

variable {visit : List ι → List ι} {rounds : Nat}

omit [DecidableEq ι] in
theorem Visits.mono {items items' : List ι} (visits : Visits visit items)
    (sub : items'.Sublist items) : Visits visit items' :=
  fun left inside => visits left (inside.trans sub)

variable {greedy} {s s' s'' : σ} {left left' left'' chosen chosen' : List ι}

theorem Reached.trans (first : greedy.Reached s left s' left')
    (next : greedy.Reached s' left' s'' left'') : greedy.Reached s left s'' left'' := by
  induction next with
  | start => exact first
  | pick _ best ih => exact .pick ih best

theorem run_choose (visits : Visits visit left) (enough : left.length ≤ rounds) :
    greedy.Run s left (greedy.choose visit rounds s left) := by
  induction rounds generalizing s left with
  | zero =>
    refine .stop fun item best => ?_
    have empty : left = [] := List.length_eq_zero_iff.mp (Nat.le_zero.mp enough)
    have member := best.mem
    rw [empty] at member
    cases member
  | succ rounds ih =>
    have same := fun item => (visits left (List.Sublist.refl _)).mem_iff (a := item)
    unfold choose
    cases found : firstBest (greedy.value s) greedy.bound (visit left) with
    | none => exact .stop fun item best =>
        not_best_of_firstBest found item (best.congr fun i => (same i).symm)
    | some item =>
      have best := (best_of_firstBest found).congr same
      have shorter : (left.erase item).length ≤ rounds := by
        rw [List.length_erase_of_mem best.mem]
        omega
      exact .pick best (ih (visits.mono List.erase_sublist) shorter)

theorem Run.split (run : greedy.Run s left chosen) : ∃ rest, (chosen ++ rest).Perm left := by
  induction run with
  | stop => exact ⟨_, List.Perm.refl _⟩
  | pick best _ ih =>
    obtain ⟨rest, same⟩ := ih
    exact ⟨rest, (same.cons _).trans (List.perm_cons_erase best.mem).symm⟩

theorem choose_of_run (before : List ι) {rest order : List ι} (run : greedy.Run s left chosen)
    (ordered : order = before ++ (chosen ++ rest)) (nodup : order.Nodup) (once : left.Nodup)
    (same : ∀ item, item ∈ left ↔ item ∈ chosen ++ rest) (enough : left.length ≤ rounds) :
    greedy.choose (inOrder order) rounds s left = chosen := by
  have visited {chosen left before : List ι} (ordered : order = before ++ (chosen ++ rest))
      (same : ∀ item, item ∈ left ↔ item ∈ chosen ++ rest) :
      inOrder order left = chosen ++ rest := by
    have apart := List.disjoint_of_nodup_append (ordered ▸ nodup)
    have none_before : before.filter (· ∈ left) = [] := by
      refine List.filter_eq_nil_iff.mpr fun item member => ?_
      simpa [same] using apart member
    have all_after : (chosen ++ rest).filter (· ∈ left) = chosen ++ rest :=
      List.filter_eq_self.mpr fun item member => decide_eq_true ((same item).mpr member)
    rw [inOrder, ordered, List.filter_append, none_before, all_after, List.nil_append]
  induction run generalizing rounds before with
  | @stop s left done =>
    cases rounds with
    | zero => rfl
    | succ rounds =>
      unfold choose
      cases found : firstBest (greedy.value s) greedy.bound (inOrder order left) with
      | none => rfl
      | some item =>
        rw [visited ordered same] at found
        exact absurd ((best_of_firstBest found).congr fun i => (same i).symm) (done item)
  | @pick s left chosen item best _ ih =>
    cases rounds with
    | zero =>
      have empty : left = [] := List.length_eq_zero_iff.mp (Nat.le_zero.mp enough)
      have member := best.mem
      rw [empty] at member
      cases member
    | succ rounds =>
      have first : firstBest (greedy.value s) greedy.bound (item :: (chosen ++ rest)) = some item :=
        firstBest_of_head (best.congr same)
      have fresh : item ∉ chosen ++ rest := by
        have tail : (item :: (chosen ++ rest)).Nodup := (List.nodup_append.mp (ordered ▸ nodup)).2.1
        exact (List.nodup_cons.mp tail).1
      have same' : ∀ i, i ∈ left.erase item ↔ i ∈ chosen ++ rest := by
        intro i
        rw [once.mem_erase_iff, same, List.cons_append, List.mem_cons]
        constructor
        · rintro ⟨other, here | member⟩
          · exact absurd here other
          · exact member
        · intro member
          exact ⟨fun here => fresh (here ▸ member), .inr member⟩
      have shorter : (left.erase item).length ≤ rounds := by
        rw [List.length_erase_of_mem best.mem]
        omega
      unfold choose
      rw [visited ordered same, List.cons_append, first]
      have next := ih (before ++ [item]) (by simpa using ordered) (once.erase item) same' shorter
      simp only [next]

theorem exists_run (greedy : Greedy σ ι ρ) (s : σ) (left : List ι) :
    ∃ chosen, greedy.Run s left chosen := by
  have visits : Visits id left := fun _ _ => List.Perm.refl _
  exact ⟨_, run_choose visits (Nat.le_refl _)⟩

theorem Reached.run (reached : greedy.Reached s left s' left') :
    ∃ before, ∀ chosen, greedy.Run s' left' chosen → greedy.Run s left (before ++ chosen) := by
  induction reached with
  | start => exact ⟨[], fun chosen run => run⟩
  | @pick s' left' item _ best ih =>
    obtain ⟨before, runs⟩ := ih
    refine ⟨before ++ [item], fun chosen run => ?_⟩
    rw [List.append_assoc]
    exact runs _ (.pick best run)

theorem Untied.next {item : ι} (untied : greedy.Untied s left)
    (best : Best (greedy.value s) greedy.bound left item) :
    greedy.Untied (greedy.take s item) (left.erase item) :=
  fun s' left' reached => untied s' left' ((Reached.start.pick best).trans reached)

theorem Untied.run_unique (untied : greedy.Untied s left) (run : greedy.Run s left chosen)
    (run' : greedy.Run s left chosen') : chosen = chosen' := by
  induction run generalizing chosen' with
  | stop done =>
    cases run' with
    | stop => rfl
    | pick best => exact absurd best (done _)
  | @pick s left chosen item best _ ih =>
    cases run' with
    | stop done => exact absurd best (done _)
    | @pick _ _ chosen' item' best' rest' =>
      obtain rfl : item = item' := untied _ _ .start item item' best best'
      rw [ih (untied.next best) rest']

theorem Untied.choose_congr {visit visit' : List ι → List ι} (untied : greedy.Untied s left)
    (visits : Visits visit left) (visits' : Visits visit' left) :
    greedy.choose visit left.length s left = greedy.choose visit' left.length s left :=
  untied.run_unique (run_choose visits (Nat.le_refl _)) (run_choose visits' (Nat.le_refl _))

theorem exists_orders_of_tied (nodup : left.Nodup) (tied : ¬ greedy.Untied s left) :
    ∃ order order' : List ι, order.Perm left ∧ order'.Perm left ∧
      greedy.choose (inOrder order) left.length s left ≠
        greedy.choose (inOrder order') left.length s left := by
  unfold Untied at tied
  push Not at tied
  obtain ⟨s', left', reached, item, other, best, best', distinct⟩ := tied
  obtain ⟨before, runs⟩ := reached.run
  have chosen_by (item : ι) (best : Best (greedy.value s') greedy.bound left' item) :
      ∃ order, order.Perm left ∧ ∃ after,
        greedy.choose (inOrder order) left.length s left = before ++ item :: after := by
    obtain ⟨after, rest⟩ := exists_run greedy (greedy.take s' item) (left'.erase item)
    have run := runs _ (.pick best rest)
    obtain ⟨unused, same⟩ := run.split
    exact ⟨_, same, after, choose_of_run [] run rfl (same.nodup_iff.mpr nodup) nodup
      (fun i => same.mem_iff.symm) (Nat.le_refl _)⟩
  obtain ⟨order, same, after, chosen⟩ := chosen_by item best
  obtain ⟨order', same', after', chosen'⟩ := chosen_by other best'
  refine ⟨order, order', same, same', fun alike => distinct ?_⟩
  rw [chosen, chosen'] at alike
  exact (List.cons.inj (List.append_cancel_left alike)).1

end Greedy

end ProofRay.Lib
