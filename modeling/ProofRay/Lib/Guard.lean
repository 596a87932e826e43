/- Guarded computations in `Except`: a check that either passes or ends the
   computation with its error, and the inversion of a bind that succeeded. -/

import Mathlib.Init

namespace ProofRay.Lib.Guard

universe u v

variable {ε : Type u} {α β : Type v}

/-- Continue when `c` holds, otherwise stop with `e`. -/
def require (c : Prop) [Decidable c] (e : ε) : Except ε Unit :=
  if c then .ok () else .error e

/-- The value of an option, or the error `e` when there is none. -/
def orThrow (o : Option α) (e : ε) : Except ε α :=
  match o with
  | some a => .ok a
  | none => .error e

/-- The computation succeeds with `a`. -/
def yields [DecidableEq α] (x : Except ε α) (a : α) : Bool :=
  match x with
  | .ok b => b = a
  | .error _ => false

variable {a : α} {f : α → Except ε β} {e : ε} {x : Except ε α} {l : List α} {c : Prop}
  {o : Option α} {l' : List β}

theorem eq_ok_of_yields [DecidableEq α] (h : yields x a) : x = .ok a := by
  cases x with
  | error e => cases h
  | ok b => exact congrArg Except.ok (of_decide_eq_true h)

@[simp] theorem bind_eq_ok {b : β} : (x >>= f) = .ok b ↔ ∃ a, x = .ok a ∧ f a = .ok b := by
  cases x with
  | error e => simp [bind, Except.bind]
  | ok a => simp [bind, Except.bind]

@[simp] theorem pure_eq_ok {a b : α} : (pure a : Except ε α) = .ok b ↔ a = b := by
  simp [pure, Except.pure]

@[simp] theorem require_eq_ok [Decidable c] {u : Unit} : require c e = .ok u ↔ c := by
  unfold require
  split <;> simp_all

@[simp] theorem orThrow_eq_ok : orThrow o e = .ok a ↔ o = some a := by
  cases o <;> simp [orThrow]

@[simp] theorem bind_eq_error :
    (x >>= f) = .error e ↔ x = .error e ∨ ∃ a, x = .ok a ∧ f a = .error e := by
  cases x with
  | error e' => simp [bind, Except.bind]
  | ok a => simp [bind, Except.bind]

@[simp] theorem pure_ne_error : (pure a : Except ε α) ≠ .error e := by
  intro h
  cases h

@[simp] theorem require_eq_error [Decidable c] {e e' : ε} :
    require c e = .error e' ↔ ¬ c ∧ e = e' := by
  unfold require
  split <;> simp_all

@[simp] theorem orThrow_eq_error {e e' : ε} : orThrow o e = .error e' ↔ o = none ∧ e = e' := by
  cases o <;> simp [orThrow]

@[simp] theorem mapError_eq_ok {ε' : Type u} {f : ε → ε'} : x.mapError f = .ok a ↔ x = .ok a := by
  cases x with
  | error e =>
    show Except.error (f e) = Except.ok a ↔ _
    simp
  | ok b =>
    show Except.ok b = Except.ok a ↔ _
    simp

@[simp] theorem mapError_eq_error {ε' : Type u} {f : ε → ε'} {e : ε'} :
    x.mapError f = .error e ↔ ∃ e', x = .error e' ∧ f e' = e := by
  cases x with
  | error e' =>
    show Except.error (f e') = Except.error e ↔ _
    simp
  | ok b =>
    show Except.ok b = Except.error e ↔ _
    simp

theorem require_of [Decidable c] (h : c) : require c e = .ok () := by
  simp [h]

@[simp] theorem orThrow_some : orThrow (some a) e = .ok a := rfl

@[simp] theorem ok_bind : ((.ok a : Except ε α) >>= f) = f a := rfl

@[simp] theorem error_bind :
    ((.error e : Except ε α) >>= f) = .error e := rfl

theorem bind_congr_ok {f g : α → Except ε β} (same : ∀ a, x = .ok a → f a = g a) :
    (x >>= f) = (x >>= g) := by
  cases x with
  | error e => rfl
  | ok a => exact same a rfl

theorem mapM_congr {m : Type v → Type v} [Monad m] [LawfulMonad m] {f g : α → m β}
    (each : ∀ a ∈ l, f a = g a) : l.mapM f = l.mapM g := by
  induction l with
  | nil => rfl
  | cons a l ih =>
    rw [List.mapM_cons, List.mapM_cons, each a List.mem_cons_self,
      ih fun a' member => each a' (List.mem_cons_of_mem a member)]

theorem isSome_of_mapM {f : α → Option β} {r : List β} (all : l.mapM f = some r) (member : a ∈ l) :
    ∃ b, f a = some b := by
  induction l generalizing r with
  | nil => cases member
  | cons a' l ih =>
    simp only [List.mapM_cons, Option.bind_eq_bind, Option.bind_eq_some_iff] at all
    obtain ⟨b, first, r', later, -⟩ := all
    rcases List.mem_cons.mp member with rfl | rest
    · exact ⟨b, first⟩
    · exact ih later rest

theorem mem_of_mapM_ok (h : l.mapM f = .ok l') : ∀ b ∈ l', ∃ a ∈ l, f a = .ok b := by
  induction l generalizing l' with
  | nil =>
    cases h
    exact List.forall_mem_nil _
  | cons a l ih =>
    simp only [List.mapM_cons, bind_eq_ok, pure_eq_ok] at h
    obtain ⟨b, made, rest, mapped, rfl⟩ := h
    intro b' member
    rcases List.mem_cons.mp member with rfl | later
    · exact ⟨a, List.mem_cons_self, made⟩
    · obtain ⟨a', member', made'⟩ := ih mapped b' later
      exact ⟨a', List.mem_cons_of_mem a member', made'⟩

theorem exists_of_mapM_ok (h : l.mapM f = .ok l') : ∀ a ∈ l, ∃ b ∈ l', f a = .ok b := by
  induction l generalizing l' with
  | nil => exact List.forall_mem_nil _
  | cons a l ih =>
    simp only [List.mapM_cons, bind_eq_ok, pure_eq_ok] at h
    obtain ⟨b, made, rest, mapped, rfl⟩ := h
    intro a' member
    rcases List.mem_cons.mp member with rfl | later
    · exact ⟨b, List.mem_cons_self, made⟩
    · obtain ⟨b', member', made'⟩ := ih mapped a' later
      exact ⟨b', List.mem_cons_of_mem b member', made'⟩

theorem exists_mapM_ok (each : ∀ a ∈ l, ∃ b, f a = .ok b) : ∃ l', l.mapM f = .ok l' := by
  induction l with
  | nil => exact ⟨[], rfl⟩
  | cons a l ih =>
    obtain ⟨b, made⟩ := each a List.mem_cons_self
    obtain ⟨rest, mapped⟩ := ih fun a' member => each a' (List.mem_cons_of_mem a member)
    refine ⟨b :: rest, ?_⟩
    simp only [List.mapM_cons, bind_eq_ok, pure_eq_ok]
    exact ⟨b, made, rest, mapped, rfl⟩

/-- A mapped list has no repetition when the list has none and no two of its elements become the
same. -/
theorem nodup_of_mapM_ok (h : l.mapM f = .ok l') (nodup : l.Nodup)
    (apart : ∀ a ∈ l, ∀ a' ∈ l, ∀ b, f a = .ok b → f a' = .ok b → a = a') : l'.Nodup := by
  induction l generalizing l' with
  | nil =>
    cases h
    exact List.nodup_nil
  | cons a l ih =>
    simp only [List.mapM_cons, bind_eq_ok, pure_eq_ok] at h
    obtain ⟨b, made, rest, mapped, rfl⟩ := h
    obtain ⟨fresh, nodup⟩ := List.nodup_cons.mp nodup
    refine List.nodup_cons.mpr ⟨?_, ih mapped nodup ?_⟩
    · intro member
      obtain ⟨a', member', made'⟩ := mem_of_mapM_ok mapped b member
      have same := apart a List.mem_cons_self a' (List.mem_cons_of_mem a member') b made made'
      subst same
      exact fresh member'
    · intro x xs y ys
      exact apart x (List.mem_cons_of_mem a xs) y (List.mem_cons_of_mem a ys)

theorem ite_some_eq_none [Decidable c] : (if c then some a else o) = none ↔ ¬ c ∧ o = none := by
  split <;> simp_all

theorem forall_mem_ite_some [Decidable c] {P : α → Prop} (head : P a) (tail : ∀ x ∈ o, P x) :
    ∀ x ∈ (if c then some a else o), P x := by
  split
  · simpa using head
  · exact tail

end ProofRay.Lib.Guard
