/- Rules applied in passes until a pass changes nothing: `while changed` over a list of rules, each
   of which leaves the state, changes it or stops. -/

import Mathlib.Data.List.Basic

namespace ProofRay.Lib.Saturation

universe u v w

variable {σ : Type u} {ρ : Type v} {ε : Type w}

def pass (step : ρ → σ → Except ε (Option σ)) : List ρ → σ → Except ε (σ × Bool)
  | [], s => .ok (s, false)
  | r :: rules, s =>
    match step r s with
    | .error e => .error e
    | .ok none => pass step rules s
    | .ok (some s') =>
      match pass step rules s' with
      | .error e => .error e
      | .ok (last, _) => .ok (last, true)

def saturate (step : ρ → σ → Except ε (Option σ)) (rules : List ρ) : Nat → σ → Except ε σ
  | 0, s => .ok s
  | fuel + 1, s =>
    match pass step rules s with
    | .error e => .error e
    | .ok (s', changed) => if changed then saturate step rules fuel s' else .ok s'

section

variable {step : ρ → σ → Except ε (Option σ)} {rules : List ρ} {P : σ → Prop}

theorem pass_keeps (keeps : ∀ r ∈ rules, ∀ s s', P s → step r s = .ok (some s') → P s')
    {s last : σ} {changed : Bool} (holds : P s) (passed : pass step rules s = .ok (last, changed)) :
    P last := by
  induction rules generalizing s changed with
  | nil =>
    cases passed
    exact holds
  | cons r rules ih =>
    have later : ∀ r' ∈ rules, ∀ s s', P s → step r' s = .ok (some s') → P s' :=
      fun r' member => keeps r' (List.mem_cons_of_mem r member)
    unfold pass at passed
    split at passed
    · cases passed
    · exact ih later holds passed
    · rename_i s' stepped
      split at passed
      · cases passed
      · rename_i _ _ rest
        cases passed
        exact ih later (keeps r List.mem_cons_self s s' holds stepped) rest

theorem of_pass_error (keeps : ∀ r ∈ rules, ∀ s s', P s → step r s = .ok (some s') → P s')
    {s : σ} {e : ε} (holds : P s) (stopped : pass step rules s = .error e) :
    ∃ r ∈ rules, ∃ s', P s' ∧ step r s' = .error e := by
  induction rules generalizing s with
  | nil => cases stopped
  | cons r rules ih =>
    have later : ∀ r' ∈ rules, ∀ s s', P s → step r' s = .ok (some s') → P s' :=
      fun r' member => keeps r' (List.mem_cons_of_mem r member)
    unfold pass at stopped
    split at stopped
    · rename_i here
      cases stopped
      exact ⟨r, List.mem_cons_self, s, holds, here⟩
    · obtain ⟨r', member, found⟩ := ih later holds stopped
      exact ⟨r', List.mem_cons_of_mem r member, found⟩
    · rename_i s' stepped
      split at stopped
      · rename_i rest
        cases stopped
        have onward := keeps r List.mem_cons_self s s' holds stepped
        obtain ⟨r', member, found⟩ := ih later onward rest
        exact ⟨r', List.mem_cons_of_mem r member, found⟩
      · cases stopped

theorem of_pass_unchanged {s last : σ} (passed : pass step rules s = .ok (last, false)) :
    last = s ∧ ∀ r ∈ rules, step r s = .ok none := by
  induction rules with
  | nil =>
    cases passed
    exact ⟨rfl, List.forall_mem_nil _⟩
  | cons r rules ih =>
    unfold pass at passed
    split at passed
    · cases passed
    · rename_i idle
      obtain ⟨same, rest⟩ := ih passed
      exact ⟨same, List.forall_mem_cons.mpr ⟨idle, rest⟩⟩
    · split at passed
      · cases passed
      · cases passed

variable {measure : σ → Nat}

theorem measure_of_pass (lowers : ∀ r ∈ rules, ∀ s s', step r s = .ok (some s') →
      measure s' < measure s)
    {s last : σ} {changed : Bool} (passed : pass step rules s = .ok (last, changed)) :
    measure last ≤ measure s ∧ (changed = true → measure last < measure s) := by
  induction rules generalizing s changed with
  | nil =>
    cases passed
    exact ⟨Nat.le_refl _, fun h => by cases h⟩
  | cons r rules ih =>
    have later : ∀ r' ∈ rules, ∀ s s', step r' s = .ok (some s') → measure s' < measure s :=
      fun r' member => lowers r' (List.mem_cons_of_mem r member)
    unfold pass at passed
    split at passed
    · cases passed
    · exact ih later passed
    · rename_i s' stepped
      split at passed
      · cases passed
      · rename_i _ _ rest
        cases passed
        have lower := lowers r List.mem_cons_self s s' stepped
        have bound := (ih later rest).1
        exact ⟨by omega, fun _ => by omega⟩

theorem saturate_keeps (keeps : ∀ r ∈ rules, ∀ s s', P s → step r s = .ok (some s') → P s')
    {fuel : Nat} {s last : σ} (holds : P s) (saturated : saturate step rules fuel s = .ok last) :
    P last := by
  induction fuel generalizing s with
  | zero =>
    cases saturated
    exact holds
  | succ fuel ih =>
    unfold saturate at saturated
    split at saturated
    · cases saturated
    · rename_i s' changed passed
      have next := pass_keeps keeps holds passed
      split at saturated
      · exact ih next saturated
      · cases saturated
        exact next

theorem of_saturate_error (keeps : ∀ r ∈ rules, ∀ s s', P s → step r s = .ok (some s') → P s')
    {fuel : Nat} {s : σ} {e : ε} (holds : P s) (stopped : saturate step rules fuel s = .error e) :
    ∃ r ∈ rules, ∃ s', P s' ∧ step r s' = .error e := by
  induction fuel generalizing s with
  | zero => cases stopped
  | succ fuel ih =>
    unfold saturate at stopped
    split at stopped
    · rename_i passed
      cases stopped
      exact of_pass_error keeps holds passed
    · rename_i s' changed passed
      have next := pass_keeps keeps holds passed
      split at stopped
      · exact ih next stopped
      · cases stopped

theorem saturated_of_measure (measure : σ → Nat)
    (lowers : ∀ r ∈ rules, ∀ s s', step r s = .ok (some s') → measure s' < measure s)
    {fuel : Nat} {s last : σ} (enough : measure s < fuel)
    (saturated : saturate step rules fuel s = .ok last) : ∀ r ∈ rules, step r last = .ok none := by
  induction fuel generalizing s with
  | zero => omega
  | succ fuel ih =>
    unfold saturate at saturated
    split at saturated
    · cases saturated
    · rename_i s' changed passed
      have lower := measure_of_pass lowers passed
      cases changed with
      | true =>
        have less := lower.2 rfl
        exact ih (by omega) saturated
      | false =>
        cases saturated
        obtain ⟨rfl, idle⟩ := of_pass_unchanged passed
        exact idle

theorem saturate_of_measure (measure : σ → Nat)
    (lowers : ∀ r ∈ rules, ∀ s s', step r s = .ok (some s') → measure s' < measure s)
    {fuel fuel' : Nat} {s : σ} (enough : measure s < fuel) (enough' : measure s < fuel') :
    saturate step rules fuel s = saturate step rules fuel' s := by
  induction fuel generalizing s fuel' with
  | zero => omega
  | succ fuel ih =>
    obtain ⟨fuel', rfl⟩ : ∃ n, fuel' = n + 1 := ⟨fuel' - 1, by omega⟩
    rw [saturate, saturate]
    cases passed : pass step rules s with
    | error e => rfl
    | ok next =>
      obtain ⟨s', changed⟩ := next
      cases changed with
      | true =>
        have less := (measure_of_pass lowers passed).2 rfl
        exact ih (by omega) (by omega)
      | false => rfl

end

end ProofRay.Lib.Saturation
