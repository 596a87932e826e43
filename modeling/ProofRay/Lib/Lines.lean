/- The lines of a text: those that every line break of Unicode ends, against the pieces that
   newlines part. -/

import Mathlib.Data.List.Basic

namespace ProofRay.Lib.Lines

def isBreak (ch : Char) : Bool :=
  ch = '\n' || ch = '\r' || ch = '\x0b' || ch = '\x0c' || ch = '\x1c' || ch = '\x1d' ||
    ch = '\x1e' || ch = '\u0085' || ch = '\u2028' || ch = '\u2029'

def extend (ch : Char) : List (List Char) → List (List Char)
  | [] => [[ch]]
  | line :: lines => (ch :: line) :: lines

def splitFrom (afterReturn : Bool) : List Char → List (List Char)
  | [] => []
  | ch :: rest =>
    if afterReturn = true ∧ ch = '\n' then splitFrom false rest
    else if isBreak ch then [] :: splitFrom (ch = '\r') rest
    else extend ch (splitFrom false rest)

/-- `str.splitlines`. -/
def splitLines (l : List Char) : List (List Char) := splitFrom false l

/-- `"\n".join`. -/
def join (lines : List (List Char)) : List Char := ['\n'].intercalate lines

/-- `text.split("\n")`. -/
def pieces (l : List Char) : List (List Char) := l.splitOn '\n'

def Clean (l : List Char) : Prop :=
  (∀ ch ∈ l, isBreak ch = true → ch = '\n') ∧ l.getLast? ≠ some '\n'

instance (l : List Char) : Decidable (Clean l) := @instDecidableAnd _ _ (l.decidableBAll _) _

@[simp] theorem pieces_nil : pieces [] = [[]] := rfl

theorem pieces_cons (ch : Char) (l : List Char) :
    pieces (ch :: l) = if ch = '\n' then [] :: pieces l else extend ch (pieces l) := by
  unfold pieces List.splitOn
  rw [List.splitOnP_cons_eq_if_modifyHead]
  simp only [beq_iff_eq]
  split_ifs
  · rfl
  · cases parts : l.splitOnP (· == '\n') with
    | nil => exact absurd parts (List.splitOnP_ne_nil _ l)
    | cons piece parts => rfl

theorem pieces_ne_nil (l : List Char) : pieces l ≠ [] := List.splitOnP_ne_nil _ l

theorem join_pieces (l : List Char) : join (pieces l) = l := List.intercalate_splitOn '\n'

variable {l : List Char} {lines : List (List Char)}

theorem pieces_join (some_line : lines ≠ []) (unbroken : ∀ line ∈ lines, '\n' ∉ line) :
    pieces (join lines) = lines :=
  List.splitOn_intercalate '\n' unbroken some_line

variable {line : List Char}

theorem join_cons (more : lines ≠ []) : join (line :: lines) = line ++ '\n' :: join lines := by
  obtain ⟨line', lines', rfl⟩ := List.exists_cons_of_ne_nil more
  unfold join
  simp [List.intercalate]

@[simp] theorem join_nil : join [] = [] := rfl

@[simp] theorem join_singleton (line : List Char) : join [line] = line := by
  simp [join, List.intercalate]

theorem mem_extend {ch ch' : Char} (member : line ∈ extend ch lines) (inside : ch' ∈ line) :
    ch' = ch ∨ ∃ line' ∈ lines, ch' ∈ line' := by
  cases lines with
  | nil =>
    obtain rfl := List.mem_singleton.mp member
    exact .inl (List.mem_singleton.mp inside)
  | cons first others =>
    rcases List.mem_cons.mp member with rfl | there
    · rcases List.mem_cons.mp inside with rfl | later
      · exact .inl rfl
      · exact .inr ⟨first, List.mem_cons_self, later⟩
    · exact .inr ⟨line, List.mem_cons_of_mem _ there, inside⟩

@[simp] theorem splitLines_nil : splitLines [] = [] := rfl

theorem unbroken_of_mem : ∀ line ∈ splitLines l, ∀ ch ∈ line, isBreak ch = false := by
  have from_any : ∀ afterReturn, ∀ line ∈ splitFrom afterReturn l, ∀ ch ∈ line,
      isBreak ch = false := by
    induction l with
    | nil => exact fun _ _ member => absurd member List.not_mem_nil
    | cons first rest ih =>
      intro afterReturn line member ch inside
      simp only [splitFrom] at member
      split_ifs at member with skipped breaks
      · exact ih _ line member ch inside
      · rcases List.mem_cons.mp member with rfl | there
        · cases inside
        · exact ih _ line there ch inside
      · rcases mem_extend member inside with rfl | ⟨line', there, inside'⟩
        · exact Bool.not_eq_true _ ▸ breaks
        · exact ih _ line' there ch inside'
  exact from_any false

theorem extend_ne_nil (ch : Char) (lines : List (List Char)) : extend ch lines ≠ [] := by
  cases lines with
  | nil => exact List.cons_ne_nil _ _
  | cons line lines => exact List.cons_ne_nil _ _

theorem splitLines_ne_nil (some_char : l ≠ []) : splitLines l ≠ [] := by
  obtain ⟨ch, rest, rfl⟩ := List.exists_cons_of_ne_nil some_char
  simp only [splitLines, splitFrom, Bool.false_eq_true, false_and, if_false]
  split_ifs
  · exact List.cons_ne_nil _ _
  · exact extend_ne_nil _ _

theorem pieces_eq (newlines : ∀ ch ∈ l, isBreak ch = true → ch = '\n') :
    pieces l = if l = [] ∨ l.getLast? = some '\n' then splitLines l ++ [[]] else splitLines l := by
  induction l with
  | nil => rfl
  | cons ch rest ih =>
    have rest_eq := ih fun ch' member => newlines ch' (List.mem_cons_of_mem _ member)
    unfold splitLines at rest_eq ⊢
    rw [pieces_cons, rest_eq]
    simp only [splitFrom, Bool.false_eq_true, false_and, if_false, reduceCtorEq, false_or]
    by_cases breaks : isBreak ch = true
    · obtain rfl := newlines ch List.mem_cons_self breaks
      have last : ('\n' :: rest).getLast? = some '\n' ↔
          rest = [] ∨ rest.getLast? = some '\n' := by
        cases rest with
        | nil => simp
        | cons ch' rest' => simp
      have plain : decide ('\n' = '\r') = false := by decide
      rw [if_pos rfl, if_pos breaks, plain]
      by_cases ended : rest = [] ∨ rest.getLast? = some '\n'
      · rw [if_pos ended, if_pos (last.mpr ended), List.cons_append]
      · rw [if_neg ended, if_neg (mt last.mp ended)]
    · have other : ch ≠ '\n' := by
        rintro rfl
        exact breaks (by decide)
      rw [if_neg other, if_neg breaks]
      cases rest with
      | nil => simp [extend, splitFrom, other]
      | cons ch' rest' =>
        simp only [reduceCtorEq, false_or, List.getLast?_cons_cons]
        obtain ⟨line, lines, parts⟩ := List.exists_cons_of_ne_nil
          (splitLines_ne_nil (List.cons_ne_nil ch' rest'))
        unfold splitLines at parts
        split_ifs
        · rw [parts]
          rfl
        · rfl

theorem pieces_eq_of_clean (clean : Clean l) (some_char : l ≠ []) : pieces l = splitLines l := by
  rw [pieces_eq clean.1, if_neg (not_or.mpr ⟨some_char, clean.2⟩)]

theorem mem_pieces_of_mem {ch : Char} (member : ch ∈ l) (other : ch ≠ '\n') :
    ∃ piece ∈ pieces l, ch ∈ piece := by
  induction l with
  | nil => cases member
  | cons first rest ih =>
    have here : ∃ piece ∈ extend first (pieces rest), first ∈ piece := by
      cases pieces rest with
      | nil => exact ⟨[first], List.mem_singleton_self _, List.mem_singleton_self _⟩
      | cons piece others => exact ⟨_, List.mem_cons_self, List.mem_cons_self⟩
    rw [pieces_cons]
    rcases List.mem_cons.mp member with rfl | later
    · rw [if_neg other]
      exact here
    · obtain ⟨piece, there, inside⟩ := ih later
      split_ifs
      · exact ⟨piece, List.mem_cons_of_mem _ there, inside⟩
      · obtain ⟨piece', others, parts⟩ := List.exists_cons_of_ne_nil (pieces_ne_nil rest)
        rw [parts] at there ⊢
        rcases List.mem_cons.mp there with rfl | behind
        · exact ⟨_, List.mem_cons_self, List.mem_cons_of_mem _ inside⟩
        · exact ⟨piece, List.mem_cons_of_mem _ behind, inside⟩

theorem newlines_of_unbroken (unbroken : ∀ piece ∈ pieces l, ∀ ch ∈ piece, isBreak ch = false) :
    ∀ ch ∈ l, isBreak ch = true → ch = '\n' := by
  intro ch member breaks
  by_contra other
  obtain ⟨piece, there, inside⟩ := mem_pieces_of_mem member other
  rw [unbroken piece there ch inside] at breaks
  cases breaks

theorem clean_of_perm (same : lines.Perm (splitLines l)) (perm : lines.Perm (pieces l)) :
    Clean l := by
  have newlines := newlines_of_unbroken fun piece there =>
    unbroken_of_mem piece (same.subset (perm.symm.subset there))
  refine ⟨newlines, fun ended => ?_⟩
  have lengths := (same.symm.trans perm).length_eq
  rw [pieces_eq newlines, if_pos (.inr ended), List.length_append, List.length_singleton] at lengths
  omega

theorem pieces_append_newline (p rest : List Char) :
    pieces (p ++ '\n' :: rest) = pieces p ++ pieces rest := by
  induction p with
  | nil => rw [List.nil_append, pieces_cons, if_pos rfl, pieces_nil, List.singleton_append]
  | cons ch p ih =>
    rw [List.cons_append, pieces_cons, pieces_cons, ih]
    split_ifs
    · rfl
    · obtain ⟨piece, parts, same⟩ := List.exists_cons_of_ne_nil (pieces_ne_nil p)
      rw [same]
      rfl

theorem join_append {lines lines' : List (List Char)} (some_line : lines ≠ [])
    (more : lines' ≠ []) : join (lines ++ lines') = join lines ++ '\n' :: join lines' := by
  induction lines with
  | nil => exact absurd rfl some_line
  | cons line rest ih =>
    cases rest with
    | nil => rw [List.singleton_append, join_cons more, join_singleton]
    | cons line' rest' =>
      rw [List.cons_append, join_cons (by simp), ih (List.cons_ne_nil _ _),
        join_cons (List.cons_ne_nil line' rest'), List.append_assoc, List.cons_append]

theorem join_take_isPrefix (lines : List (List Char)) {j k : Nat} (order : j ≤ k) :
    join (lines.take j) <+: join (lines.take k) := by
  have split_take : lines.take k = lines.take j ++ (lines.take k).drop j := by
    conv_lhs => rw [← List.take_append_drop j (lines.take k)]
    rw [List.take_take, Nat.min_eq_left order]
  by_cases none_before : lines.take j = []
  · rw [none_before]
    exact List.nil_prefix
  by_cases none_after : (lines.take k).drop j = []
  · rw [none_after, List.append_nil] at split_take
    exact ⟨[], by rw [List.append_nil, split_take]⟩
  · rw [split_take, join_append none_before none_after]
    exact List.prefix_append _ _

/-- A prefix of a text that ends where the text starts or a line of it ends. -/
def AtBoundary (l p : List Char) : Prop :=
  p <+: l ∧ (p = [] ∨ (l.drop p.length).head?.all (fun ch => ch = '\n') = true)

theorem atBoundary_iff {l p : List Char} : AtBoundary l p ↔ ∃ k, p = join ((pieces l).take k) := by
  constructor
  · rintro ⟨⟨rest, rfl⟩, rfl | ended⟩
    · exact ⟨0, rfl⟩
    · rw [List.drop_left] at ended
      refine ⟨(pieces p).length, ?_⟩
      cases rest with
      | nil => rw [List.append_nil, List.take_length, join_pieces]
      | cons ch rest =>
        rw [List.head?_cons, Option.all_some, decide_eq_true_eq] at ended
        rw [ended, pieces_append_newline, List.take_left, join_pieces]
  · rintro ⟨k, rfl⟩
    by_cases none_before : (pieces l).take k = []
    · rw [none_before]
      exact ⟨List.nil_prefix, .inl rfl⟩
    by_cases none_after : (pieces l).drop k = []
    · have whole : (pieces l).take k = pieces l := by
        rw [← List.take_append_drop k (pieces l), none_after, List.append_nil, List.take_take,
          Nat.min_self]
      rw [whole, join_pieces]
      exact ⟨List.prefix_refl l, .inr (by rw [List.drop_length]; rfl)⟩
    · have parts := join_append none_before none_after
      rw [List.take_append_drop, join_pieces] at parts
      refine ⟨⟨_, parts.symm⟩, .inr ?_⟩
      rw [congrArg (List.drop _) parts, List.drop_left]
      rfl

theorem clean_of_join {k : Nat} (same : l = join ((splitLines l).take k)) : Clean l := by
  by_cases some_line : (splitLines l).take k = []
  · rw [some_line, join_nil] at same
    rw [same]
    exact ⟨fun _ member => absurd member List.not_mem_nil, by simp⟩
  have unbroken : ∀ line ∈ (splitLines l).take k, '\n' ∉ line := by
    intro line member inside
    have unbroken := unbroken_of_mem line (List.mem_of_mem_take member) '\n' inside
    cases unbroken
  have parts : pieces l = (splitLines l).take k := by
    conv_lhs => rw [same]
    exact pieces_join some_line unbroken
  have newlines := newlines_of_unbroken fun piece there => by
    rw [parts] at there
    exact unbroken_of_mem piece (List.mem_of_mem_take there)
  refine ⟨newlines, fun ended => ?_⟩
  have lengths := congrArg List.length parts
  rw [pieces_eq newlines, if_pos (.inr ended), List.length_append, List.length_singleton,
    List.length_take] at lengths
  omega

end ProofRay.Lib.Lines
