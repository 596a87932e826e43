/- A worklist: items are taken from the front and either are finished or give way to others, and what
   all of them denote together stays the same. -/

import Mathlib.Data.Set.Lattice

namespace ProofRay.Lib.Worklist

universe u v w x

variable {ν : Type u} {σ : Type v} {ε : Type w} {α : Type x}

def run (finished : ν → Bool) (step : σ → ν → Except ε (σ × List ν)) :
    Nat → List ν → List ν → σ → Except ε (List ν × σ)
  | 0, _, completed, s => .ok (completed, s)
  | _ + 1, [], completed, s => .ok (completed, s)
  | fuel + 1, n :: agenda, completed, s =>
    if finished n then run finished step fuel agenda (completed ++ [n]) s
    else
      match step s n with
      | .error e => .error e
      | .ok (s', children) => run finished step fuel (children ++ agenda) completed s'

def denotes (meaning : ν → Set α) (l : List ν) : Set α := {a | ∃ n ∈ l, a ∈ meaning n}

section

variable {meaning : ν → Set α} {l l' : List ν} {a : α}

theorem mem_denotes : a ∈ denotes meaning l ↔ ∃ n ∈ l, a ∈ meaning n := Iff.rfl

theorem denotes_append : denotes meaning (l ++ l') = denotes meaning l ∪ denotes meaning l' := by
  ext a
  simp [mem_denotes, or_and_right, exists_or]

theorem denotes_cons {n : ν} : denotes meaning (n :: l) = meaning n ∪ denotes meaning l := by
  ext a
  simp [mem_denotes]

theorem denotes_nil : denotes meaning ([] : List ν) = ∅ := by
  ext a
  simp [mem_denotes]

end

/-- A step that keeps what its item denotes, and does not make more items than there is room for. -/
structure Faithful (finished : ν → Bool) (step : σ → ν → Except ε (σ × List ν))
    (good : ν → Prop) (meaning : ν → Set α) (room : σ → Nat) : Prop where
  stays : ∀ s n s' children, good n → finished n = false → step s n = .ok (s', children) →
    ∀ m ∈ children, good m
  agrees : ∀ s n s' children, good n → finished n = false → step s n = .ok (s', children) →
    denotes meaning children = meaning n
  bounded : ∀ s n s' children, step s n = .ok (s', children) → children.length + room s' ≤ room s

section

variable {finished : ν → Bool} {step : σ → ν → Except ε (σ × List ν)} {good : ν → Prop}
  {meaning : ν → Set α} {room : σ → Nat}

variable {fuel : Nat}

theorem run_denotes (faithful : Faithful finished step good meaning room)
    {agenda completed last : List ν} {s s' : σ} (enough : agenda.length + room s ≤ fuel)
    (fit : ∀ n ∈ agenda, good n) (done : ∀ n ∈ completed, good n ∧ finished n = true)
    (ran : run finished step fuel agenda completed s = .ok (last, s')) :
    (∀ n ∈ last, good n ∧ finished n = true) ∧
      denotes meaning last = denotes meaning agenda ∪ denotes meaning completed := by
  induction fuel generalizing agenda completed s with
  | zero =>
    have none : agenda = [] := List.length_eq_zero_iff.mp (by omega)
    cases ran
    rw [none, denotes_nil, Set.empty_union]
    exact ⟨done, rfl⟩
  | succ fuel ih =>
    cases agenda with
    | nil =>
      cases ran
      rw [denotes_nil, Set.empty_union]
      exact ⟨done, rfl⟩
    | cons n agenda =>
      obtain ⟨here, later⟩ := List.forall_mem_cons.mp fit
      rw [List.length_cons] at enough
      unfold run at ran
      split at ran
      · rename_i is_finished
        have done' : ∀ m ∈ completed ++ [n], good m ∧ finished m = true := by
          intro m member
          rcases List.mem_append.mp member with before | last
          · exact done m before
          · rw [List.mem_singleton.mp last]
            exact ⟨here, is_finished⟩
        obtain ⟨all, same⟩ := ih (by omega) later done' ran
        refine ⟨all, ?_⟩
        rw [same, denotes_append, denotes_cons, denotes_cons, denotes_nil, Set.union_empty,
          Set.union_comm (denotes meaning completed), ← Set.union_assoc,
          Set.union_comm (denotes meaning agenda)]
      · rename_i open_
        split at ran
        · cases ran
        · rename_i next children stepped
          have waits : finished n = false := Bool.eq_false_iff.mpr open_
          have bound := faithful.bounded s n next children stepped
          have fit' : ∀ m ∈ children ++ agenda, good m := by
            intro m member
            rcases List.mem_append.mp member with child | rest
            · exact faithful.stays s n next children here waits stepped m child
            · exact later m rest
          obtain ⟨all, same⟩ := ih (by rw [List.length_append]; omega) fit' done ran
          refine ⟨all, ?_⟩
          rw [same, denotes_append, denotes_cons,
            faithful.agrees s n next children here waits stepped]

theorem of_run_error {agenda completed : List ν} {s : σ} {e : ε}
    (stopped : run finished step fuel agenda completed s = .error e) :
    ∃ s n, step s n = .error e := by
  induction fuel generalizing agenda completed s with
  | zero => cases stopped
  | succ fuel ih =>
    cases agenda with
    | nil => cases stopped
    | cons n agenda =>
      unfold run at stopped
      split at stopped
      · exact ih stopped
      · split at stopped
        · rename_i here
          cases stopped
          exact ⟨s, n, here⟩
        · exact ih stopped

end

end ProofRay.Lib.Worklist
