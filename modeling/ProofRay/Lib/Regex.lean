/- Regular expressions matched by backtracking: alternatives in order, greedy repetition and tests
   of the characters around a place; and what a scan of a text finds. -/

import Mathlib.Data.List.Basic

namespace ProofRay.Lib

universe u

inductive Regex where
  | empty
  | one (p : Char → Bool)
  | seq (r s : Regex)
  | alt (r s : Regex)
  | many (r : Regex)                                -- `(..)*`
  | look (q : Option Char → Option Char → Bool)     -- a test of the characters on both sides

/-- A place in a text: how far it is, the character before it and what follows. -/
structure Cursor where
  pos : Nat
  prev : Option Char
  rest : List Char

namespace Cursor

def next (cur : Cursor) : Option Char := cur.rest.head?

def start (l : List Char) : Cursor := ⟨0, none, l⟩

def forward (cur : Cursor) (c : Char) (rest : List Char) : Cursor := ⟨cur.pos + 1, some c, rest⟩

end Cursor

namespace Regex

variable {α : Type u}

/-- `(..)+`. -/
def plus (r : Regex) : Regex := .seq r (.many r)

/-- `(..)?`. -/
def opt (r : Regex) : Regex := .alt r .empty

def width : Regex → Nat
  | .empty => 0
  | .one _ => 1
  | .seq r s => r.width + s.width
  | .alt r s => min r.width s.width
  | .many _ => 0
  | .look _ => 0

def Advancing : Regex → Prop
  | .empty => True
  | .one _ => True
  | .seq r s => r.Advancing ∧ s.Advancing
  | .alt r s => r.Advancing ∧ s.Advancing
  | .many r => 0 < r.width ∧ r.Advancing
  | .look _ => True

instance decidableAdvancing : ∀ r : Regex, Decidable r.Advancing
  | .empty => isTrue trivial
  | .one _ => isTrue trivial
  | .seq r s =>
    have := decidableAdvancing r
    have := decidableAdvancing s
    inferInstanceAs (Decidable (r.Advancing ∧ s.Advancing))
  | .alt r s =>
    have := decidableAdvancing r
    have := decidableAdvancing s
    inferInstanceAs (Decidable (r.Advancing ∧ s.Advancing))
  | .many r =>
    have := decidableAdvancing r
    inferInstanceAs (Decidable (0 < r.width ∧ r.Advancing))
  | .look _ => isTrue trivial

def rounds (round : Cursor → (Cursor → Option α) → Option α) (k : Cursor → Option α) :
    Nat → Cursor → Option α
  | 0, cur => k cur
  | n + 1, cur =>
    match round cur (rounds round k n) with
    | some a => some a
    | none => k cur

/-- The first way to match from a place that `k` can go on from. A round takes a character, so what
is left of the text bounds their number. -/
def matchFrom : Regex → Cursor → (Cursor → Option α) → Option α
  | .empty, cur, k => k cur
  | .one p, cur, k =>
    match cur.rest with
    | [] => none
    | c :: rest => if p c then k (cur.forward c rest) else none
  | .seq r s, cur, k => matchFrom r cur fun mid => matchFrom s mid k
  | .alt r s, cur, k =>
    match matchFrom r cur k with
    | some a => some a
    | none => matchFrom s cur k
  | .many r, cur, k => rounds (matchFrom r) k cur.rest.length cur
  | .look q, cur, k => if q cur.prev cur.next then k cur else none

def matchAt (r : Regex) (cur : Cursor) : Option Nat := matchFrom r cur fun stop => some stop.pos

/-- The matches from left to right, none beginning before `next`. -/
def scan (r : Regex) : List Char → Nat → Option Char → Nat → List (Nat × Nat)
  | [], _, _, _ => []
  | c :: rest, pos, prev, next =>
    if pos < next then scan r rest (pos + 1) (some c) next
    else
      match matchAt r ⟨pos, prev, c :: rest⟩ with
      | some stop => (pos, stop) :: scan r rest (pos + 1) (some c) stop
      | none => scan r rest (pos + 1) (some c) next

def group (l : List Char) (m : Nat × Nat) : List Char := (l.drop m.1).take (m.2 - m.1)

/-- The spans of `finditer`, of an expression that matches no empty text. -/
def finditer (r : Regex) (l : List Char) : List (Nat × Nat) := scan r l 0 none 0

def place (l : List Char) (i : Nat) : Cursor := ⟨i, (l.take i).getLast?, l.drop i⟩

theorem next_place (l : List Char) (i : Nat) : (place l i).next = l[i]? := List.head?_drop

variable {k : Cursor → Option α} {q : Char → Bool} {P : Nat → Prop} {c : Char}

theorem prev_place_succ {l : List Char} {i : Nat} (here : l[i]? = some c) :
    (place l (i + 1)).prev = some c := by
  show (l.take (i + 1)).getLast? = some c
  rw [List.take_add_one, here]
  simp

theorem forward_place {l : List Char} {i : Nat} {rest : List Char} (here : l.drop i = c :: rest) :
    l[i]? = some c ∧ (place l i).forward c rest = place l (i + 1) := by
  have found : l[i]? = some c := by
    rw [← List.head?_drop, here]
    rfl
  have dropped : l.drop (i + 1) = rest := by
    rw [← List.tail_drop, here]
    rfl
  refine ⟨found, ?_⟩
  have prev : (l.take (i + 1)).getLast? = some c := prev_place_succ found
  unfold place
  rw [Cursor.forward, dropped, prev]

/-- An expression reads a text from one place to another. -/
inductive Reads (l : List Char) : Regex → Nat → Nat → Prop
  | empty (i : Nat) : Reads l .empty i i
  | one {p : Char → Bool} {i : Nat} {c : Char} (here : l[i]? = some c) (holds : p c = true) :
      Reads l (.one p) i (i + 1)
  | seq {r s : Regex} {i m j : Nat} (first : Reads l r i m) (second : Reads l s m j) :
      Reads l (.seq r s) i j
  | left {r s : Regex} {i j : Nat} (first : Reads l r i j) : Reads l (.alt r s) i j
  | right {r s : Regex} {i j : Nat} (second : Reads l s i j) : Reads l (.alt r s) i j
  | done {r : Regex} (i : Nat) : Reads l (.many r) i i
  | more {r : Regex} {i m j : Nat} (first : Reads l r i m) (others : Reads l (.many r) m j) :
      Reads l (.many r) i j
  | look {q : Option Char → Option Char → Bool} {i : Nat}
      (holds : q (place l i).prev l[i]? = true) : Reads l (.look q) i i

variable {l : List Char}

variable {r : Regex} {i j : Nat} {m : Nat × Nat}

theorem Reads.bounds (way : Reads l r i j) : i + r.width ≤ j ∧ (i ≤ l.length → j ≤ l.length) := by
  induction way with
  | empty i => exact ⟨Nat.le_refl i, id⟩
  | one here holds =>
    obtain ⟨inside, -⟩ := List.getElem?_eq_some_iff.mp here
    exact ⟨Nat.le_refl _, fun _ => inside⟩
  | seq first second ih ih' =>
    refine ⟨?_, fun inside => ih'.2 (ih.2 inside)⟩
    unfold width
    omega
  | left first ih =>
    refine ⟨?_, ih.2⟩
    unfold width
    omega
  | right second ih =>
    refine ⟨?_, ih.2⟩
    unfold width
    omega
  | done i => exact ⟨Nat.le_refl i, id⟩
  | more first others ih ih' =>
    refine ⟨?_, fun inside => ih'.2 (ih.2 inside)⟩
    unfold width at ih' ⊢
    omega
  | look holds => exact ⟨Nat.le_refl _, id⟩

theorem Reads.length_lt (wide : 0 < r.width) (way : Reads l r i j) : i < l.length := by
  induction way with
  | empty i => cases wide
  | one here holds =>
    obtain ⟨inside, -⟩ := List.getElem?_eq_some_iff.mp here
    exact inside
  | @seq r s _ _ _ first second ih ih' =>
    unfold width at wide
    rcases Nat.eq_zero_or_pos r.width with zero | positive
    · have later := ih' (by omega)
      have order := first.bounds.1
      omega
    · exact ih positive
  | left first ih =>
    unfold width at wide
    exact ih (by omega)
  | right second ih =>
    unfold width at wide
    exact ih (by omega)
  | done i => cases wide
  | more first others ih ih' => cases wide
  | look holds => cases wide

theorem reads_one {p : Char → Bool} (way : Reads l (.one p) i j) :
    ∃ ch, l[i]? = some ch ∧ p ch = true ∧ j = i + 1 := by
  cases way with
  | one here holds => exact ⟨_, here, holds, rfl⟩

theorem reads_look {q : Option Char → Option Char → Bool} (way : Reads l (.look q) i j) :
    i = j ∧ q (place l i).prev l[i]? = true := by
  cases way with
  | look holds => exact ⟨rfl, holds⟩

theorem reads_many (each : ∀ i j, Reads l r i j → P i ∧ j = i + 1) (way : Reads l (.many r) i j) :
    ∀ k, i ≤ k → k < j → P k := by
  generalize repeated : Regex.many r = r' at way
  induction way with
  | done i =>
    intro k after before
    omega
  | more first others _ ih =>
    cases repeated
    obtain ⟨here, rfl⟩ := each _ _ first
    intro k after before
    rcases Nat.eq_or_lt_of_le after with rfl | later
    · exact here
    · exact ih rfl k later before
  | _ => cases repeated

theorem reads_plus (each : ∀ i j, Reads l r i j → P i ∧ j = i + 1) (way : Reads l (plus r) i j) :
    i < j ∧ ∀ k, i ≤ k → k < j → P k := by
  cases way with
  | seq first others =>
    obtain ⟨here, rfl⟩ := each _ _ first
    have further := others.bounds.1
    refine ⟨by omega, fun k after before => ?_⟩
    rcases Nat.eq_or_lt_of_le after with rfl | later
    · exact here
    · exact reads_many each others k later before

/-- Every character that an expression takes holds `q`. -/
def Within (q : Char → Bool) : Regex → Prop
  | .empty => True
  | .one p => ∀ ch, p ch = true → q ch = true
  | .seq r s => r.Within q ∧ s.Within q
  | .alt r s => r.Within q ∧ s.Within q
  | .many r => r.Within q
  | .look _ => True

theorem Reads.within (way : Reads l r i j) (inside : r.Within q) :
    ∀ k, i ≤ k → k < j → ∃ ch, l[k]? = some ch ∧ q ch = true := by
  induction way with
  | empty i =>
    intro k after before
    omega
  | @one p i c here holds =>
    intro k after before
    obtain rfl : i = k := by omega
    exact ⟨c, here, inside c holds⟩
  | @seq r s i m j first second ih ih' =>
    intro k after before
    by_cases early : k < m
    · exact ih inside.1 k after early
    · exact ih' inside.2 k (by omega) before
  | left first ih => exact ih inside.1
  | right second ih => exact ih inside.2
  | done i =>
    intro k after before
    omega
  | @more r i m j first others ih ih' =>
    intro k after before
    by_cases early : k < m
    · exact ih inside k after early
    · exact ih' inside k (by omega) before
  | look holds =>
    intro k after before
    omega

theorem reads_of_matchFrom {i : Nat} {a : α} (found : matchFrom r (place l i) k = some a) :
    ∃ j, Reads l r i j ∧ k (place l j) = some a := by
  induction r generalizing i k with
  | empty => exact ⟨i, .empty i, found⟩
  | one p =>
    unfold matchFrom at found
    split at found
    · cases found
    · rename_i c rest here
      obtain ⟨there, moved⟩ := forward_place here
      split at found
      · rename_i holds
        rw [moved] at found
        exact ⟨i + 1, .one there holds, found⟩
      · cases found
  | seq r s ihr ihs =>
    obtain ⟨m, first, rest⟩ := ihr found
    obtain ⟨j, second, reached⟩ := ihs rest
    exact ⟨j, .seq first second, reached⟩
  | alt r s ihr ihs =>
    unfold matchFrom at found
    split at found
    · rename_i a' first
      cases found
      obtain ⟨j, way, reached⟩ := ihr first
      exact ⟨j, .left way, reached⟩
    · obtain ⟨j, way, reached⟩ := ihs found
      exact ⟨j, .right way, reached⟩
  | many r ih =>
    have by_rounds : ∀ n i, rounds (matchFrom r) k n (place l i) = some a →
        ∃ j, Reads l (.many r) i j ∧ k (place l j) = some a := by
      intro n
      induction n with
      | zero =>
        intro i found
        exact ⟨i, .done i, found⟩
      | succ n again =>
        intro i found
        unfold rounds at found
        split at found
        · rename_i a' round
          cases found
          obtain ⟨m, first, rest⟩ := ih round
          obtain ⟨j, others, reached⟩ := again m rest
          exact ⟨j, .more first others, reached⟩
        · exact ⟨i, .done i, found⟩
    exact by_rounds _ i found
  | look q =>
    unfold matchFrom at found
    split at found
    · rename_i holds
      rw [next_place] at holds
      exact ⟨i, .look holds, found⟩
    · cases found

/-- Where the expression reads up to a place that `k` goes on from, a match is found. -/
theorem isSome_matchFrom (advancing : r.Advancing) (way : Reads l r i j)
    (goes_on : (k (place l j)).isSome) : (matchFrom r (place l i) k).isSome := by
  induction r generalizing i j k with
  | empty =>
    cases way
    exact goes_on
  | one p =>
    cases way with
    | one here holds =>
      obtain ⟨inside, there⟩ := List.getElem?_eq_some_iff.mp here
      have dropped := List.drop_eq_getElem_cons inside
      rw [there] at dropped
      unfold matchFrom
      rw [show (place l i).rest = _ from dropped]
      simp only [holds, if_true]
      rw [(forward_place dropped).2]
      exact goes_on
  | seq r s ihr ihs =>
    cases way with
    | seq first second => exact ihr advancing.1 first (ihs advancing.2 second goes_on)
  | alt r s ihr ihs =>
    unfold matchFrom
    cases tried : matchFrom r (place l i) k with
    | some a => rfl
    | none =>
      cases way with
      | left first =>
        have found := ihr advancing.1 first goes_on
        rw [tried] at found
        cases found
      | right second => exact ihs advancing.2 second goes_on
  | many r ih =>
    have by_rounds : ∀ n i, l.length - i ≤ n → Reads l (.many r) i j →
        (rounds (matchFrom r) k n (place l i)).isSome := by
      intro n
      induction n with
      | zero =>
        intro i short way
        cases way with
        | done => exact goes_on
        | more first others =>
          have inside := first.length_lt advancing.1
          omega
      | succ n again =>
        intro i short way
        unfold rounds
        cases tried : matchFrom r (place l i) (rounds (matchFrom r) k n) with
        | some a => rfl
        | none =>
          cases way with
          | done => exact goes_on
          | more first others =>
            have further := first.bounds.1
            have positive := advancing.1
            have found := ih advancing.2 first (again _ (by omega) others)
            rw [tried] at found
            cases found
    refine by_rounds _ i (Nat.le_of_eq ?_) way
    rw [show (place l i).rest = l.drop i from rfl, List.length_drop]
  | look q =>
    cases way with
    | look holds =>
      unfold matchFrom
      rw [next_place, if_pos holds]
      exact goes_on

theorem all_group (way : Reads l r m.1 m.2) (inside : r.Within q) :
    ∀ ch ∈ group l m, q ch = true := by
  intro ch member
  obtain ⟨k, found⟩ := List.mem_iff_getElem?.mp member
  rw [group, List.getElem?_take] at found
  split_ifs at found with short
  rw [List.getElem?_drop] at found
  obtain ⟨ch', there, holds⟩ := way.within inside (m.1 + k) (by omega) (by omega)
  rw [found] at there
  cases there
  exact holds

theorem reads_of_matchAt (found : matchAt r (place l i) = some j) : Reads l r i j := by
  obtain ⟨j', way, reached⟩ := reads_of_matchFrom found
  cases reached
  exact way

theorem isSome_matchAt (advancing : r.Advancing) (way : Reads l r i j) :
    (matchAt r (place l i)).isSome := isSome_matchFrom advancing way rfl

/-- What a scan from a place finds: matches that begin there or later, one after the other, that
cover every place from which the expression matches. -/
structure ScanLaw (r : Regex) (l : List Char) (pos next : Nat) (spans : List (Nat × Nat)) :
    Prop where
  matched : ∀ m ∈ spans, pos ≤ m.1 ∧ next ≤ m.1 ∧ matchAt r (place l m.1) = some m.2
  disjoint : spans.Pairwise fun m m' => m.2 ≤ m'.1
  covered : ∀ i, pos ≤ i → next ≤ i → i < l.length → (matchAt r (place l i)).isSome →
    ∃ m ∈ spans, m.1 ≤ i ∧ i < m.2

theorem scan_law (wide : 0 < r.width) (l : List Char) :
    ∀ (rest : List Char) (pos next : Nat), l.drop pos = rest →
      ScanLaw r l pos next (scan r rest pos (l.take pos).getLast? next) := by
  intro rest
  induction rest with
  | nil =>
    intro pos next dropped
    have beyond : l.length ≤ pos := List.drop_eq_nil_iff.mp dropped
    exact {
      matched := fun _ member => absurd member List.not_mem_nil
      disjoint := List.Pairwise.nil
      covered := fun i from_pos _ inside => by omega }
  | cons c rest ih =>
    intro pos next dropped
    have inside : pos < l.length := by
      by_contra beyond
      rw [List.drop_eq_nil_of_le (by omega)] at dropped
      cases dropped
    have dropped' : l.drop (pos + 1) = rest := by
      rw [← List.tail_drop, dropped]
      rfl
    have prev : (l.take (pos + 1)).getLast? = some c := prev_place_succ (forward_place dropped).1
    have law (next : Nat) := ih (pos + 1) next dropped'
    simp only [prev] at law
    have placed : (⟨pos, (l.take pos).getLast?, c :: rest⟩ : Cursor) = place l pos := by
      rw [place, dropped]
    unfold scan
    rw [placed]
    split_ifs with before
    · have later := law next
      exact {
        matched := fun m member => by
          obtain ⟨from_pos, others⟩ := later.matched m member
          exact ⟨by omega, others⟩
        disjoint := later.disjoint
        covered := fun i from_pos from_next => later.covered i (by omega) from_next }
    · cases found : matchAt r (place l pos) with
      | none =>
        have later := law next
        exact {
          matched := fun m member => by
            obtain ⟨from_pos, others⟩ := later.matched m member
            exact ⟨by omega, others⟩
          disjoint := later.disjoint
          covered := fun i from_pos from_next bounded matches_here => by
            rcases Nat.eq_or_lt_of_le from_pos with rfl | after
            · rw [found] at matches_here
              cases matches_here
            · exact later.covered i after from_next bounded matches_here }
      | some stop =>
        have later := law stop
        have advanced : pos < stop := by
          have further := (reads_of_matchAt found).bounds.1
          omega
        exact {
          matched := fun m member => by
            rcases List.mem_cons.mp member with rfl | there
            · exact ⟨Nat.le_refl _, by omega, found⟩
            · obtain ⟨from_pos, from_stop, others⟩ := later.matched m there
              exact ⟨by omega, by omega, others⟩
          disjoint := List.pairwise_cons.mpr
            ⟨fun m member => (later.matched m member).2.1, later.disjoint⟩
          covered := fun i from_pos from_next bounded matches_here => by
            by_cases covered_here : i < stop
            · exact ⟨(pos, stop), List.mem_cons_self, from_pos, covered_here⟩
            · obtain ⟨m, member, spans⟩ :=
                later.covered i (by omega) (by omega) bounded matches_here
              exact ⟨m, List.mem_cons_of_mem _ member, spans⟩ }

theorem finditer_law (wide : 0 < r.width) (l : List Char) :
    ScanLaw r l 0 0 (finditer r l) := scan_law wide l l 0 0 rfl

theorem reads_of_mem_finditer (wide : 0 < r.width) (member : m ∈ finditer r l) :
    Reads l r m.1 m.2 :=
  reads_of_matchAt ((finditer_law wide l).matched m member).2.2

theorem covered_of_reads (wide : 0 < r.width) (advancing : r.Advancing) (way : Reads l r i j) :
    ∃ m ∈ finditer r l, m.1 ≤ i ∧ i < m.2 :=
  (finditer_law wide l).covered i (Nat.zero_le i) (Nat.zero_le i) (way.length_lt wide)
    (isSome_matchAt advancing way)

/-- A span of a text, where `f` spells out every character. -/
def spelled (f : Char → List Char) (l : List Char) (m : Nat × Nat) : Nat × Nat :=
  (((l.take m.1).flatMap f).length, ((l.take m.2).flatMap f).length)

theorem group_spelled (f : Char → List Char) (l : List Char) (ordered : m.1 ≤ m.2) :
    group (l.flatMap f) (spelled f l m) = (group l m).flatMap f := by
  have upTo : l.take m.2 = l.take m.1 ++ group l m := by
    rw [group, ← List.take_add, Nat.add_sub_cancel' ordered]
  have whole : l = l.take m.1 ++ (group l m ++ l.drop m.2) := by
    rw [← List.append_assoc, ← upTo, List.take_append_drop]
  have size : (spelled f l m).2 - (spelled f l m).1 = ((group l m).flatMap f).length := by
    simp only [spelled, upTo, List.flatMap_append, List.length_append]
    omega
  have parts : l.flatMap f =
      (l.take m.1).flatMap f ++ ((group l m).flatMap f ++ (l.drop m.2).flatMap f) := by
    conv_lhs => rw [whole]
    rw [List.flatMap_append, List.flatMap_append]
  have dropped : (l.flatMap f).drop (spelled f l m).1 =
      (group l m).flatMap f ++ (l.drop m.2).flatMap f := by
    rw [parts]
    exact List.drop_left
  rw [group, dropped, size]
  exact List.take_left

end Regex

end ProofRay.Lib
