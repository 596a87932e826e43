/- Where a word occurs in a text, and in a text in which another word has been replaced. -/

import Mathlib.Data.List.Infix

namespace ProofRay.Lib

universe u

variable {α : Type u} {word before after left right : List α} {letter : α}

theorem occurs_apart (apart : letter ∉ word)
    (occurs : before ++ word ++ after = left ++ letter :: right) :
    (∃ after', left = before ++ word ++ after' ∧ after = after' ++ letter :: right) ∨
      ∃ before', before = left ++ letter :: before' ∧ right = before' ++ word ++ after := by
  rcases List.append_eq_append_iff.mp occurs with ⟨gap, whole, tail⟩ | ⟨gap, whole, tail⟩
  · exact .inl ⟨gap, whole, tail⟩
  · cases gap with
    | nil =>
      rw [List.append_nil] at whole
      rw [List.nil_append] at tail
      exact .inl ⟨[], by rw [List.append_nil, whole], tail.symm⟩
    | cons first gap =>
      obtain ⟨rfl, rfl⟩ := List.cons.inj (tail.trans (List.cons_append))
      rcases List.append_eq_append_iff.mp whole with ⟨part, -, inside⟩ | ⟨part, early, inside⟩
      · rw [inside] at apart
        exact absurd (by simp) apart
      · cases part with
        | nil =>
          rw [List.nil_append] at inside
          rw [← inside] at apart
          exact absurd List.mem_cons_self apart
        | cons first part =>
          obtain ⟨rfl, rfl⟩ := List.cons.inj (inside.trans (List.cons_append))
          exact .inr ⟨part, early, rfl⟩

theorem occurs_headed (once : letter ∉ word)
    (occurs : before ++ letter :: word ++ after = left ++ letter :: right) :
    (∃ after', left = before ++ letter :: word ++ after' ∧ after = after' ++ letter :: right) ∨
      ∃ before', before = left ++ before' ∧
        letter :: right = before' ++ letter :: word ++ after := by
  rcases List.append_eq_append_iff.mp occurs with ⟨gap, whole, tail⟩ | ⟨gap, whole, tail⟩
  · exact .inl ⟨gap, whole, tail⟩
  · rcases List.append_eq_append_iff.mp whole with ⟨part, head, inside⟩ | ⟨part, early, inside⟩
    · cases part with
      | nil =>
        rw [List.append_nil] at head
        rw [List.nil_append] at inside
        exact .inr ⟨[], by rw [List.append_nil, head], by rw [tail, ← inside, List.nil_append]⟩
      | cons first part =>
        obtain ⟨rfl, rest⟩ := List.cons.inj (inside.trans (List.cons_append))
        cases gap with
        | nil =>
          rw [List.append_nil] at whole
          rw [List.nil_append] at tail
          exact .inl ⟨[], by rw [List.append_nil, whole], tail.symm⟩
        | cons next gap =>
          obtain ⟨rfl, -⟩ := List.cons.inj (tail.trans (List.cons_append))
          rw [rest] at once
          exact absurd (by simp) once
    · exact .inr ⟨part, early, by rw [tail, inside]⟩

theorem infix_apart (apart : letter ∉ word) :
    word <:+: left ++ letter :: right ↔ word <:+: left ∨ word <:+: right := by
  constructor
  · rintro ⟨before, after, occurs⟩
    rcases occurs_apart apart occurs with ⟨after', whole, -⟩ | ⟨before', -, whole⟩
    · exact .inl ⟨before, after', whole.symm⟩
    · exact .inr ⟨before', after, whole.symm⟩
  · rintro (inLeft | inRight)
    · exact inLeft.trans (List.prefix_append _ _).isInfix
    · exact inRight.trans ((List.suffix_cons _ _).trans (List.suffix_append _ _)).isInfix

theorem infix_headed (once : letter ∉ word) :
    letter :: word <:+: left ++ letter :: right ↔
      letter :: word <:+: left ∨ letter :: word <:+: letter :: right := by
  constructor
  · rintro ⟨before, after, occurs⟩
    rcases occurs_headed once occurs with ⟨after', whole, -⟩ | ⟨before', -, whole⟩
    · exact .inl ⟨before, after', whole.symm⟩
    · exact .inr ⟨before', after, whole.symm⟩
  · rintro (inLeft | inRight)
    · exact inLeft.trans (List.prefix_append _ _).isInfix
    · exact inRight.trans (List.suffix_append _ _).isInfix

theorem infix_append_of_not_mem (apart : letter ∉ left) :
    letter :: word <:+: left ++ right ↔ letter :: word <:+: right := by
  induction left with
  | nil => rfl
  | cons first left ih =>
    have other : letter ≠ first := fun same => apart (same ▸ List.mem_cons_self)
    rw [List.cons_append, List.infix_cons_iff, List.cons_prefix_cons,
      ih fun member => apart (List.mem_cons_of_mem _ member)]
    simp [other]

theorem infix_fence (nonempty : word ≠ []) {fence : List α} (some_fence : fence ≠ [])
    (apart : ∀ letter ∈ fence, letter ∉ word) :
    word <:+: left ++ (fence ++ right) ↔ word <:+: left ∨ word <:+: right := by
  induction fence generalizing left with
  | nil => exact absurd rfl some_fence
  | cons letter fence ih =>
    rw [List.cons_append, infix_apart (apart letter List.mem_cons_self)]
    cases fence with
    | nil => rfl
    | cons next fence =>
      have rest := @ih [] (List.cons_ne_nil _ _) fun other member =>
        apart other (List.mem_cons_of_mem _ member)
      have not_nil : ¬ word <:+: [] := fun inside => nonempty (List.infix_nil.mp inside)
      rw [List.nil_append] at rest
      rw [rest]
      simp only [not_nil, false_or]

theorem only_at_end (apart : letter ∉ word) :
    (∀ before after, left ++ letter :: word = before ++ word ++ after → after = []) ↔
      ¬ word <:+: left := by
  constructor
  · rintro only ⟨before, after, inside⟩
    have earlier := only before (after ++ letter :: word) (by rw [← inside]; simp)
    simp at earlier
  · intro absent before after occurs
    rcases occurs_apart apart occurs.symm with ⟨after', inside, -⟩ | ⟨before', -, last⟩
    · exact absurd ⟨before, after', inside.symm⟩ absent
    · have lengths := congrArg List.length last
      simp only [List.length_append] at lengths
      exact List.length_eq_zero_iff.mp (by omega)

/-- A word at a place of a text occurs nowhere else exactly when it occurs neither before it nor
after it. -/
theorem only_there (once : letter ∉ word) {fence : α} (apart : fence ∉ letter :: word) :
    (∀ before after, left ++ (letter :: word ++ fence :: right) =
        before ++ letter :: word ++ after → before = left) ↔
      ¬ letter :: word <:+: left ∧ ¬ letter :: word <:+: right := by
  constructor
  · refine fun only => ⟨?_, ?_⟩
    · rintro ⟨before, after, inside⟩
      have same := only before (after ++ (letter :: word ++ fence :: right)) (by
        rw [← inside]
        simp)
      have lengths := congrArg List.length inside
      simp only [same, List.length_append, List.length_cons] at lengths
      omega
    · rintro ⟨before, after, inside⟩
      have same := only (left ++ (letter :: word ++ fence :: before)) after (by
        rw [← inside]
        simp)
      have lengths := congrArg List.length same
      simp only [List.length_append, List.length_cons] at lengths
      omega
  · rintro ⟨not_before, not_after⟩ before after occurs
    rcases occurs_headed once occurs.symm with ⟨after', inside, -⟩ | ⟨gap, here, later⟩
    · exact absurd ⟨before, after', inside.symm⟩ not_before
    · have rest : gap ++ letter :: word ++ after = letter :: word ++ fence :: right := later.symm
      rcases occurs_apart apart rest with ⟨after', inside, -⟩ | ⟨gap', -, inside⟩
      · have lengths := congrArg List.length inside
        simp only [List.length_append] at lengths
        have none_between : gap = [] := List.length_eq_zero_iff.mp (by omega)
        rw [here, none_between, List.append_nil]
      · exact absurd ⟨gap', after, inside.symm⟩ not_after

theorem infix_intercalate (nonempty : word ≠ []) (apart : letter ∉ word) {blocks : List (List α)} :
    word <:+: [letter, letter].intercalate blocks ↔ ∃ block ∈ blocks, word <:+: block := by
  have not_nil : ¬ word <:+: [] := fun inside => nonempty (List.infix_nil.mp inside)
  induction blocks with
  | nil => simp [not_nil]
  | cons block rest ih =>
    cases rest with
    | nil => simp
    | cons next rest =>
      have joined : [letter, letter].intercalate (block :: next :: rest) =
          block ++ letter :: ([] ++ letter :: [letter, letter].intercalate (next :: rest)) := by
        rw [List.intercalate_cons_cons, List.append_assoc]
        rfl
      rw [joined, infix_apart apart, infix_apart apart, List.exists_mem_cons_iff]
      simp only [not_nil, false_or]
      exact or_congr Iff.rfl ih

section

variable [DecidableEq α]

/-- `text.replace(old, new)` with the given letters of a replaced word still to be passed over. -/
def replaceFrom (old new : List α) : Nat → List α → List α
  | _, [] => []
  | skip + 1, _ :: text => replaceFrom old new skip text
  | 0, letter :: text =>
    if old <+: letter :: text then new ++ replaceFrom old new (old.length - 1) text
    else letter :: replaceFrom old new 0 text

/-- `text.replace(old, new)`, for an `old` that is not empty. -/
def replaceAll (old new text : List α) : List α := replaceFrom old new 0 text

variable {old new text tail : List α} {head mark : α}

theorem replaceFrom_skip (skip : Nat) (text : List α) :
    replaceFrom old new skip text = replaceAll old new (text.drop skip) := by
  induction text generalizing skip with
  | nil => cases skip <;> rfl
  | cons letter text ih =>
    cases skip with
    | zero => rfl
    | succ skip => exact ih skip

theorem replaceAll_of_starts (rest : List α) :
    replaceAll (head :: tail) new (head :: tail ++ rest) =
      new ++ replaceAll (head :: tail) new rest := by
  have starts : head :: tail <+: head :: (tail ++ rest) := ⟨rest, rfl⟩
  change replaceFrom _ _ 0 (head :: (tail ++ rest)) = _
  rw [replaceFrom, if_pos starts, replaceFrom_skip]
  congr 2
  exact List.drop_left' rfl

theorem replaceAll_of_not_starts (other : ¬ old <+: letter :: text) :
    replaceAll old new (letter :: text) = letter :: replaceAll old new text := by
  unfold replaceAll
  rw [replaceFrom, if_neg other]

theorem starts_replaceAll (old_apart : head ∉ word) (new_apart : mark ∉ word) :
    word <+: replaceAll (head :: tail) (mark :: new) text ↔ word <+: text := by
  induction word generalizing text with
  | nil => simp
  | cons first word ih =>
    have not_head : first ≠ head := fun same => old_apart (same ▸ List.mem_cons_self)
    have not_mark : first ≠ mark := fun same => new_apart (same ▸ List.mem_cons_self)
    cases text with
    | nil => rfl
    | cons letter text =>
      by_cases starts : head :: tail <+: letter :: text
      · obtain ⟨rest, whole⟩ := starts
        rw [← whole, replaceAll_of_starts]
        simp [not_head, not_mark]
      · rw [replaceAll_of_not_starts starts, List.cons_prefix_cons, List.cons_prefix_cons,
          ih (fun member => old_apart (List.mem_cons_of_mem _ member))
            fun member => new_apart (List.mem_cons_of_mem _ member)]

theorem not_infix_replaceAll (once : head ∉ tail) (marks : mark ∉ tail)
    (apart : head ∉ mark :: new) :
    ¬ head :: tail <:+: replaceAll (head :: tail) (mark :: new) text := by
  induction length : text.length using Nat.strong_induction_on generalizing text with
  | _ n ih =>
    cases text with
    | nil => exact fun inside => (by cases List.infix_nil.mp inside)
    | cons letter text =>
      by_cases starts : head :: tail <+: letter :: text
      · obtain ⟨rest, whole⟩ := starts
        rw [← whole, replaceAll_of_starts, infix_append_of_not_mem apart]
        refine ih rest.length ?_ rfl
        rw [← length, ← whole, List.length_append, List.length_cons]
        omega
      · rw [replaceAll_of_not_starts starts, List.infix_cons_iff, List.cons_prefix_cons,
          starts_replaceAll once marks, ← List.cons_prefix_cons]
        rintro (here | later)
        · exact starts here
        · exact ih text.length (by rw [← length, List.length_cons]; omega) rfl later

/-- A word that begins like the one replaced and goes on in another way occurs afterwards where it
occurred before. -/
theorem infix_replaceAll (once : head ∉ tail) (apart : head ∉ mark :: new) (old_apart : head ∉ word)
    (new_apart : mark ∉ word) (differs : ¬ word <+: tail) (differs' : ¬ tail <+: word) :
    head :: word <:+: replaceAll (head :: tail) (mark :: new) text ↔ head :: word <:+: text := by
  induction length : text.length using Nat.strong_induction_on generalizing text with
  | _ n ih =>
    cases text with
    | nil => rfl
    | cons letter text =>
      by_cases starts : head :: tail <+: letter :: text
      · obtain ⟨rest, whole⟩ := starts
        have shorter : rest.length < n := by
          rw [← length, ← whole, List.length_append, List.length_cons]
          omega
        have not_here : ¬ word <+: tail ++ rest := fun here =>
          (List.prefix_or_prefix_of_prefix here (List.prefix_append _ _)).elim differs differs'
        rw [← whole, replaceAll_of_starts, infix_append_of_not_mem apart,
          ih rest.length shorter rfl, List.cons_append, List.infix_cons_iff, List.cons_prefix_cons,
          infix_append_of_not_mem once]
        simp only [not_here, and_false, false_or]
      · rw [replaceAll_of_not_starts starts, List.infix_cons_iff, List.infix_cons_iff,
          List.cons_prefix_cons, List.cons_prefix_cons, starts_replaceAll old_apart new_apart,
          ih text.length (by rw [← length, List.length_cons]; omega) rfl]

end

end ProofRay.Lib
