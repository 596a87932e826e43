/- The guard of a displayed rewrite (`rewrite_guard.py`): the numbers, negations, names and details
   that it compares, and what an accepted rewrite keeps. -/

import Mathlib.Data.Finset.Dedup
import ProofRay.Lib.Regex
import ProofRay.Sidecar.Authority

namespace ProofRay.RewriteGuard

open Lib (Regex)
open Lib.Regex (Reads all_group finditer group group_spelled opt plus
  reads_of_mem_finditer spelled)
open Sidecar (blank)

/-- `_NEGATIONS`. -/
def negationWords : List (List Char) :=
  ["not", "no", "never", "without", "none", "não", "nao", "nunca", "sem", "nenhum"].map
    String.toList

/-- `_FUNCTION_WORDS`. -/
def functionWords : List (List Char) :=
  ["a", "an", "and", "as", "at", "be", "been", "by", "da", "das", "de",
    "do", "dos", "e", "em", "for", "from", "foi", "is", "it", "na", "nas",
    "no", "nos", "o", "of", "on", "or", "os", "para", "por", "que", "the",
    "to", "um", "uma", "was", "were", "with", "é"].map String.toList

def numberMarks : List Char := ['+', '-', '.', ',', '%']

/-- The tables of the language's Unicode version, as far as the guard asks them. -/
structure Unicode where
  isWord : Char → Bool             -- `\w`
  isDigit : Char → Bool            -- `\d`
  isUpper : Char → Bool            -- `str.isupper`
  fold : Char → List Char          -- `str.casefold`
  fold_digit : ∀ ch, isDigit ch = true → fold ch = [ch]
  fold_mark : ∀ ch ∈ numberMarks, fold ch = [ch]
  fold_ne_nil : ∀ ch, fold ch ≠ []
  -- the foldings of several characters (`ss`, `ff`, `st`, ..) are in none of the negation words
  fold_apart : ∀ ch, 1 < (fold ch).length → ∀ w ∈ negationWords, ¬fold ch <:+: w

namespace Unicode

variable (u : Unicode)

def casefold (l : List Char) : List Char := l.flatMap u.fold

/-- `[^\W\d_]`. -/
def isLetter (ch : Char) : Bool := u.isWord ch && !u.isDigit ch && ch ≠ '_'

end Unicode

/-- `[+-]`. -/
def isSign (ch : Char) : Bool := ch = '+' || ch = '-'

/-- `[.,]`. -/
def isPoint (ch : Char) : Bool := ch = '.' || ch = ','

/-- `%`. -/
def isPercent (ch : Char) : Bool := ch = '%'

/-- `[-']`. -/
def isJoint (ch : Char) : Bool := ch = '-' || ch = '\x27'

section

variable (u : Unicode)

/-- `\d+`. -/
def digits : Regex := plus (.one u.isDigit)

/-- `[+-]?(?:\d+(?:[.,]\d+)?%?)`. -/
def digitRun : Regex :=
  .seq (opt (.one isSign))
    (.seq (digits u) (.seq (opt (.seq (.one isPoint) (digits u))) (opt (.one isPercent))))

/-- `(?<!\w)`. -/
def noWordBehind : Regex := .look fun prev _ => !prev.any u.isWord

/-- `(?!\w)`. -/
def noWordAhead : Regex := .look fun _ next => !next.any u.isWord

/-- `_NUMBER`. -/
def number : Regex := .seq (noWordBehind u) (.seq (digitRun u) (noWordAhead u))

/-- `_WORD`. -/
def word : Regex :=
  .seq (plus (.one u.isLetter)) (.many (.seq (.one isJoint) (plus (.one u.isLetter))))

/-- `_WORD.findall`. -/
def words (text : String) : List (List Char) :=
  (finditer (word u) text.toList).map (group text.toList)

def numberSpans (text : String) : List (Nat × Nat) :=
  finditer (number u) (u.casefold text.toList)

/-- `item.replace(",", ".")`. -/
def pointed (item : List Char) : List Char := item.map fun ch => if ch = ',' then '.' else ch

/-- `_numbers`. -/
def numbers (text : String) : List (List Char) :=
  (numberSpans u text).map fun span => pointed (group (u.casefold text.toList) span)

/-- `_negations`. -/
def negations (text : String) : Finset (List Char) :=
  (((words u text).filter fun word => u.casefold word ∈ negationWords).map u.casefold).toFinset

/-- `_proper_tokens`. -/
def properTokens (text : String) : Finset (List Char) :=
  (((words u text).filter fun word => word.head?.any u.isUpper && 1 < word.length).map
    u.casefold).toFinset

/-- `_content_lexemes`. -/
def contentLexemes (text : String) : List (List Char) :=
  (((words u text).filter fun word =>
      3 ≤ word.length && u.casefold word ∉ functionWords).map u.casefold).insertionSort (· ≤ ·)

structure RewriteDecision where
  accepted : Bool
  reason : String

/-- `guard_rewrite`. A text that UTF-8 cannot encode makes it raise, so it accepts none. -/
def guardRewrite (certified candidate : String) : RewriteDecision :=
  if blank certified || blank candidate then ⟨false, "empty_text"⟩
  else if min 24576 (max 512 (certified.utf8ByteSize * 2)) < candidate.utf8ByteSize then
    ⟨false, "rewrite_expanded"⟩
  else if numbers u certified ≠ numbers u candidate then ⟨false, "numeric_literals_changed"⟩
  else if negations u certified ≠ negations u candidate then ⟨false, "polarity_changed"⟩
  else if properTokens u certified ≠ properTokens u candidate then
    ⟨false, "named_literals_changed"⟩
  else if contentLexemes u certified ≠ contentLexemes u candidate then
    ⟨false, "protected_details_changed"⟩
  else ⟨true, "protected_literals_preserved"⟩

def runSpans (text : String) : List (Nat × Nat) := finditer (digitRun u) text.toList

def reading (text : String) (span : Nat × Nat) : List Char := pointed (group text.toList span)

def occurrences (w : List Char) (text : String) : Nat := ((words u text).map u.casefold).count w

def Keeps (certified candidate : String) : Prop :=
  (runSpans u certified).map (reading certified) =
      (runSpans u candidate).map (reading candidate) ∧
    ∀ w ∈ negationWords, occurrences u w certified = occurrences u w candidate

/-- Two digit runs that are, from end to end, the numbers of one place among those the guard
compares. -/
def BothCompared (certified candidate : String) (run run' : Nat × Nat) : Prop :=
  ∃ k : Nat, (numberSpans u certified)[k]? = some (spelled u.fold certified.toList run) ∧
    (numberSpans u candidate)[k]? = some (spelled u.fold candidate.toList run')

/-- The digit runs that the guard does not compare, one with a letter beside it for instance, read
the same, and "no" stands as often. -/
structure Unguarded (certified candidate : String) : Prop where
  count : (runSpans u certified).length = (runSpans u candidate).length
  runs : ∀ (i : Nat) (run run' : Nat × Nat), (runSpans u certified)[i]? = some run →
    (runSpans u candidate)[i]? = some run' → ¬BothCompared u certified candidate run run' →
      reading certified run = reading candidate run'
  no : occurrences u ['n', 'o'] certified = occurrences u ['n', 'o'] candidate

end

section

variable {u : Unicode}

theorem width_digitRun : 0 < (digitRun u).width := Nat.one_pos

variable {certified candidate : String} {text : String}

theorem within_digitRun :
    (digitRun u).Within fun ch => u.isDigit ch || decide (ch ∈ numberMarks) := by
  have digit : ∀ ch, u.isDigit ch = true → (u.isDigit ch || decide (ch ∈ numberMarks)) = true := by
    intro ch holds
    rw [holds, Bool.true_or]
  have sign : ∀ ch, isSign ch = true → ch ∈ numberMarks := by
    intro ch holds
    rcases (Bool.or_eq_true _ _).mp holds with plus | minus
    · rw [of_decide_eq_true plus]
      decide
    · rw [of_decide_eq_true minus]
      decide
  have point : ∀ ch, isPoint ch = true → ch ∈ numberMarks := by
    intro ch holds
    rcases (Bool.or_eq_true _ _).mp holds with dot | comma
    · rw [of_decide_eq_true dot]
      decide
    · rw [of_decide_eq_true comma]
      decide
  have percent : ∀ ch, isPercent ch = true → ch ∈ numberMarks := by
    intro ch holds
    rw [of_decide_eq_true holds]
    decide
  have marked {ch : Char} (member : ch ∈ numberMarks) :
      (u.isDigit ch || decide (ch ∈ numberMarks)) = true := by
    rw [decide_eq_true member, Bool.or_true]
  exact ⟨⟨fun ch holds => marked (sign ch holds), trivial⟩, ⟨digit, digit⟩,
    ⟨⟨fun ch holds => marked (point ch holds), digit, digit⟩, trivial⟩,
    fun ch holds => marked (percent ch holds), trivial⟩

theorem group_casefold {run : Nat × Nat} (member : run ∈ runSpans u text) :
    group (u.casefold text.toList) (spelled u.fold text.toList run) = group text.toList run := by
  have read : Reads text.toList (digitRun u) run.1 run.2 :=
    reads_of_mem_finditer width_digitRun member
  have ordered : run.1 ≤ run.2 := Nat.le_of_add_right_le read.bounds.1
  have same : ∀ ch ∈ group text.toList run, u.fold ch = [ch] := by
    intro ch inside
    rcases (Bool.or_eq_true _ _).mp (all_group read within_digitRun ch inside) with digit | mark
    · exact u.fold_digit ch digit
    · exact u.fold_mark ch (of_decide_eq_true mark)
  calc group (u.casefold text.toList) (spelled u.fold text.toList run)
      = (group text.toList run).flatMap u.fold := group_spelled u.fold text.toList ordered
    _ = (group text.toList run).flatMap fun ch => [ch] := List.flatMap_congr same
    _ = group text.toList run := List.flatMap_singleton' _

theorem reading_eq {run run' : Nat × Nat} (equal : numbers u certified = numbers u candidate)
    (here : run ∈ runSpans u certified) (there : run' ∈ runSpans u candidate)
    (compared : BothCompared u certified candidate run run') :
    reading certified run = reading candidate run' := by
  obtain ⟨k, first, second⟩ := compared
  have at_k := congrArg (fun l => l[k]?) equal
  simp only [numbers, List.getElem?_map, first, second, Option.map_some, Option.some.injEq] at at_k
  rw [group_casefold here, group_casefold there] at at_k
  exact at_k

theorem length_eq_of_casefold {l w : List Char} (negation : w ∈ negationWords)
    (folded : u.casefold l = w) : l.length = w.length := by
  have one : ∀ ch ∈ l, (u.fold ch).length = 1 := by
    intro ch member
    have inside : u.fold ch <:+: w := by
      obtain ⟨before, after, rfl⟩ := List.append_of_mem member
      refine ⟨u.casefold before, u.casefold after, ?_⟩
      rw [← folded, Unicode.casefold, Unicode.casefold, Unicode.casefold, List.flatMap_append,
        List.flatMap_cons, List.append_assoc]
    have short := mt (fun several => u.fold_apart ch several w negation) (not_not.mpr inside)
    have some_char := List.length_pos_iff.mpr (u.fold_ne_nil ch)
    omega
  rw [← folded, Unicode.casefold, List.length_flatMap, List.map_congr_left one, List.map_const',
    List.sum_replicate_nat, Nat.mul_one]

theorem detail_of_negation : ∀ w ∈ negationWords, w ≠ ['n', 'o'] →
    3 ≤ w.length ∧ w ∉ functionWords := by
  decide

theorem count_contentLexemes {w : List Char} (negation : w ∈ negationWords)
    (other : w ≠ ['n', 'o']) (text : String) :
    (contentLexemes u text).count w = occurrences u w text := by
  obtain ⟨long, content⟩ := detail_of_negation w negation other
  have passes : ∀ l ∈ words u text, u.casefold l = w →
      decide (3 ≤ l.length) = true ∧ decide (u.casefold l ∉ functionWords) = true := by
    intro l _ folded
    rw [folded, length_eq_of_casefold negation folded]
    exact ⟨decide_eq_true long, decide_eq_true content⟩
  rw [contentLexemes, (List.perm_insertionSort _ _).count_eq, occurrences, List.count_eq_countP,
    List.count_eq_countP, List.countP_map, List.countP_map, List.countP_filter]
  refine List.countP_congr fun l member => ?_
  simp only [Function.comp_apply, beq_iff_eq, Bool.and_eq_true]
  exact ⟨fun both => both.1, fun folded => ⟨folded, passes l member folded⟩⟩

theorem compared_of_accepted (accepted : (guardRewrite u certified candidate).accepted = true) :
    numbers u certified = numbers u candidate ∧
      contentLexemes u certified = contentLexemes u candidate := by
  unfold guardRewrite at accepted
  split_ifs at accepted with _ _ changed _ _ changed'
  exact ⟨not_not.mp changed, not_not.mp changed'⟩

end

/-- Of an accepted rewrite the digit runs and the negation words are kept exactly when the runs that
the guard does not compare and the word "no" are. -/
theorem accepted_keeps_iff (u : Unicode) (certified candidate : String)
    (accepted : (guardRewrite u certified candidate).accepted = true) :
    Keeps u certified candidate ↔ Unguarded u certified candidate := by
  obtain ⟨sameNumbers, sameDetails⟩ := compared_of_accepted accepted
  constructor
  · rintro ⟨runs, negated⟩
    refine ⟨?_, fun i run run' here there _ => ?_, negated _ (by decide +kernel)⟩
    · have lengths := congrArg List.length runs
      rwa [List.length_map, List.length_map] at lengths
    · have at_i := congrArg (fun l => l[i]?) runs
      simpa only [List.getElem?_map, here, there, Option.map_some, Option.some.injEq] using at_i
  · intro unguarded
    constructor
    · apply List.ext_getElem?
      intro i
      rw [List.getElem?_map, List.getElem?_map]
      have count := unguarded.count
      cases here : (runSpans u certified)[i]? with
      | none =>
        have beyond := List.getElem?_eq_none_iff.mp here
        rw [List.getElem?_eq_none (by omega)]
        rfl
      | some run =>
        obtain ⟨inside, -⟩ := List.getElem?_eq_some_iff.mp here
        obtain ⟨run', there⟩ : ∃ run', (runSpans u candidate)[i]? = some run' :=
          ⟨_, List.getElem?_eq_getElem (by omega)⟩
        rw [there]
        refine congrArg some ?_
        by_cases compared : BothCompared u certified candidate run run'
        · exact reading_eq sameNumbers (List.mem_of_getElem? here) (List.mem_of_getElem? there)
            compared
        · exact unguarded.runs i run run' here there compared
    · intro w negation
      by_cases no : w = ['n', 'o']
      · rw [no]
        exact unguarded.no
      · rw [← count_contentLexemes negation no, ← count_contentLexemes negation no, sameDetails]

theorem fold_plain_digit (ch : Char) (digit : ch.isDigit = true) : [ch.toLower] = [ch] := by
  unfold Char.isDigit at digit
  unfold Char.toLower
  rw [dif_neg]
  simp only [Bool.and_eq_true, decide_eq_true_eq, UInt32.le_iff_toNat_le] at digit ⊢
  intro upper
  have nine : '9'.val.toNat = 57 := rfl
  have first : 'A'.val.toNat = 65 := rfl
  omega

theorem fold_plain_mark : ∀ ch ∈ numberMarks, [ch.toLower] = [ch] := by
  have all : (numberMarks.all fun ch => decide ([ch.toLower] = [ch])) = true := by decide
  exact fun ch member => of_decide_eq_true (List.all_eq_true.mp all ch member)

theorem fold_plain_ne_nil (ch : Char) : [ch.toLower] ≠ [] := List.cons_ne_nil _ _

theorem fold_plain_apart (ch : Char) (several : 1 < [ch.toLower].length) :
    ∀ w ∈ negationWords, ¬[ch.toLower] <:+: w := absurd several (Nat.lt_irrefl 1)

def plain : Unicode where
  isWord ch := ch.isAlphanum || ch = '_'
  isDigit := Char.isDigit
  isUpper := Char.isUpper
  fold ch := [ch.toLower]
  fold_digit := fold_plain_digit
  fold_mark := fold_plain_mark
  fold_ne_nil := fold_plain_ne_nil
  fold_apart := fold_plain_apart

theorem spaced_accepted : (guardRewrite plain "Take 10 kg of rice, no salt."
    "Take 10 kg of  rice, no salt.").accepted = true := by
  decide

theorem accepted_keeps_iff_spaced :
    (guardRewrite plain "Take 10 kg of rice, no salt."
        "Take 10 kg of  rice, no salt.").accepted = true ∧
      (Keeps plain "Take 10 kg of rice, no salt." "Take 10 kg of  rice, no salt." ↔
        Unguarded plain "Take 10 kg of rice, no salt." "Take 10 kg of  rice, no salt.") :=
  ⟨spaced_accepted, accepted_keeps_iff plain _ _ spaced_accepted⟩

theorem changed_accepted : (guardRewrite plain "Take 10kg of rice."
    "Take 20kg of rice.").accepted = true := by
  decide

theorem not_accepted_keeps : ¬∀ (u : Unicode) (certified candidate : String),
    (guardRewrite u certified candidate).accepted = true → Keeps u certified candidate := by
  intro kept
  have runs := (kept plain _ _ changed_accepted).1
  revert runs
  decide +kernel

end ProofRay.RewriteGuard
