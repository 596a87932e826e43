/- Lists that take in the values they do not hold: all of them, up to a quota, or until the list has
   a size. -/

import Mathlib.Data.List.Nodup
import Mathlib.Data.List.Sort

namespace ProofRay.Lib

variable {α : Type}

section

variable [DecidableEq α]

def enlist (l : List α) (v : α) : List α := if v ∈ l then l else l ++ [v]

def enlistAll (l vs : List α) : List α := vs.foldl enlist l

def enlistUpTo (quota : Nat) : List α → List α → List α
  | l, [] => l
  | l, v :: vs => if quota ≤ l.length then l else enlistUpTo quota (enlist l v) vs

def enlistUntil (size : Nat) : List α → List α → List α
  | l, [] => l
  | l, v :: vs =>
    if v ∈ l then enlistUntil size l vs
    else if l.length + 1 = size then l ++ [v]
    else enlistUntil size (l ++ [v]) vs

end

/-- What a list has become that takes in some of the values. -/
structure Enlisted (l vs l' : List α) : Prop where
  start : l <+: l'
  source : ∀ v ∈ l', v ∈ l ∨ v ∈ vs
  nodup : l.Nodup → l'.Nodup

theorem Enlisted.none (l vs : List α) : Enlisted l vs l :=
  ⟨List.prefix_rfl, fun _ => .inl, id⟩

theorem Enlisted.append {l l' l'' vs ws : List α} (first : Enlisted l vs l')
    (second : Enlisted l' ws l'') : Enlisted l (vs ++ ws) l'' where
  start := first.start.trans second.start
  source v member := by
    rw [List.mem_append, ← or_assoc]
    exact (second.source v member).imp_left (first.source v)
  nodup := second.nodup ∘ first.nodup

section

variable [DecidableEq α]

theorem enlisted_one (l : List α) (v : α) : Enlisted l [v] (enlist l v) := by
  unfold enlist
  split_ifs with held
  · exact .none l [v]
  · refine ⟨List.prefix_append l [v], fun _ => List.mem_append.mp, fun nodup => ?_⟩
    exact List.Nodup.append nodup (List.nodup_singleton v) (by simpa using held)

theorem enlisted_all (l vs : List α) : Enlisted l vs (enlistAll l vs) := by
  induction vs generalizing l with
  | nil => exact .none l []
  | cons v vs ih => exact (enlisted_one l v).append (ih (enlist l v))

variable {size : Nat} {l vs : List α}

variable {v : α}

theorem mem_enlistAll (member : v ∈ vs) : v ∈ enlistAll l vs := by
  induction vs generalizing l with
  | nil => cases member
  | cons w vs ih =>
    rcases List.mem_cons.mp member with rfl | later
    · refine (enlisted_all (enlist l v) vs).start.subset ?_
      unfold enlist
      split_ifs with held
      · exact held
      · exact List.mem_append_right l (List.mem_singleton_self v)
    · exact ih later

theorem enlisted_upTo (quota : Nat) (l vs : List α) : Enlisted l vs (enlistUpTo quota l vs) := by
  induction vs generalizing l with
  | nil => exact .none l []
  | cons v vs ih =>
    unfold enlistUpTo
    split_ifs
    · exact .none l (v :: vs)
    · exact (enlisted_one l v).append (ih (enlist l v))

theorem enlisted_until (size : Nat) (l vs : List α) : Enlisted l vs (enlistUntil size l vs) := by
  induction vs generalizing l with
  | nil => exact .none l []
  | cons v vs ih =>
    have one := enlisted_one l v
    unfold enlistUntil
    unfold enlist at one
    split_ifs at one ⊢
    · exact one.append (ih l)
    · exact one.append (.none (l ++ [v]) vs)
    · exact one.append (ih (l ++ [v]))

theorem length_enlistUntil_le {l : List α} (vs : List α) (short : l.length < size) :
    (enlistUntil size l vs).length ≤ size := by
  induction vs generalizing l with
  | nil => exact Nat.le_of_lt short
  | cons v vs ih =>
    unfold enlistUntil
    have longer : (l ++ [v]).length = l.length + 1 := List.length_append
    split_ifs
    · exact ih short
    · omega
    · exact ih (by omega)

theorem mem_enlistUntil (member : v ∈ vs) :
    v ∈ enlistUntil size l vs ∨ (enlistUntil size l vs).length = size := by
  induction vs generalizing l with
  | nil => cases member
  | cons w vs ih =>
    unfold enlistUntil
    split_ifs with held full
    · rcases List.mem_cons.mp member with rfl | later
      · exact .inl ((enlisted_until size l vs).start.subset held)
      · exact ih later
    · exact .inr (by rw [List.length_append, List.length_singleton, full])
    · rcases List.mem_cons.mp member with rfl | later
      · exact .inl ((enlisted_until size (l ++ [v]) vs).start.subset
          (List.mem_append_right l (List.mem_singleton_self v)))
      · exact ih later

theorem enlistUntil_of_full {l : List α} (vs : List α) (full : size ≤ l.length) :
    enlistUntil size l vs = enlistAll l vs := by
  induction vs generalizing l with
  | nil => rfl
  | cons v vs ih =>
    have longer : (l ++ [v]).length = l.length + 1 := List.length_append
    have step : enlistAll l (v :: vs) = enlistAll (enlist l v) vs := rfl
    unfold enlistUntil
    rw [step, enlist]
    split_ifs
    · exact ih full
    · omega
    · exact ih (by omega)

theorem enlistAll_of_held (held : ∀ v ∈ vs, v ∈ l) : enlistAll l vs = l := by
  induction vs with
  | nil => rfl
  | cons v vs ih =>
    have step : enlistAll l (v :: vs) = enlistAll (enlist l v) vs := rfl
    rw [step, enlist, if_pos (held v List.mem_cons_self)]
    exact ih fun w member => held w (List.mem_cons_of_mem v member)

theorem length_enlistUntil_le_iff {l : List α} (vs : List α) (fits : l.length ≤ size) :
    (enlistUntil size l vs).length ≤ size ↔ ¬(l.length = size ∧ ∃ v ∈ vs, v ∉ l) := by
  by_cases short : l.length < size
  · exact iff_of_true (length_enlistUntil_le vs short) fun full => by omega
  have full : l.length = size := by omega
  rw [enlistUntil_of_full vs full.ge]
  constructor
  · rintro bound ⟨-, v, member, new⟩
    have same := (enlisted_all l vs).start.eq_of_length_le (by omega)
    rw [same] at new
    exact new (mem_enlistAll member)
  · intro known
    have held : ∀ v ∈ vs, v ∈ l := by
      intro v member
      by_contra new
      exact known ⟨full, v, member, new⟩
    rw [enlistAll_of_held held, full]

end

/-- `sorted(l, key=last)`: the flagged values behind the others, each in their order. -/
def flaggedLast (last : α → Bool) (l : List α) : List α :=
  l.insertionSort fun a b => last a ≤ last b

theorem flaggedLast_perm (last : α → Bool) (l : List α) : (flaggedLast last l).Perm l :=
  List.perm_insertionSort _ l

theorem filter_flaggedLast (last : α → Bool) (l : List α) (flag : Bool) :
    (flaggedLast last l).filter (fun v => last v == flag) = l.filter fun v => last v == flag := by
  have alike : (l.filter fun v => last v == flag).Pairwise fun a b => last a ≤ last b := by
    rw [List.pairwise_filter]
    refine List.pairwise_of_forall fun a b => ?_
    intro first second
    rw [beq_iff_eq.mp first, beq_iff_eq.mp second]
  have kept : (l.filter fun v => last v == flag).Sublist (flaggedLast last l) :=
    List.sublist_insertionSort alike List.filter_sublist
  have among := kept.filter fun v => last v == flag
  rw [List.filter_filter] at among
  simp only [Bool.and_self] at among
  exact (among.eq_of_length ((flaggedLast_perm last l).filter _).length_eq.symm).symm

end ProofRay.Lib
