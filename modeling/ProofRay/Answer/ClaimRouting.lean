/- Claim routing: the sentence spans of a text, its paragraphs, and the generator that ranks them as
   candidates (`claim_routing.py`). -/

import ProofRay.Answer.SemanticRouter
import ProofRay.Lib.Regex
import ProofRay.Lib.SortedSet
import ProofRay.Recall.SyndromeIndex

namespace ProofRay.ClaimRouting

open Answer (QueryEnvelope RoutingIndex Span)
open Engine (PyError)
open Lib (Dict Regex)
open Lib.Guard
open Lib.Regex (Reads finditer plus reads_look reads_one)
open OpenText (RouteDocument checked)
open Sidecar (blank isBlank slice)

/-- `[.!?]`. -/
def isEndMark (ch : Char) : Bool := ch = '.' || ch = '!' || ch = '?'

/-- `[。！？…]`. -/
def isWideMark (ch : Char) : Bool :=
  ch = '\u3002' || ch = '\uff01' || ch = '\uff1f' || ch = '\u2026'

/-- `[^\n.!?。！？…]`. -/
def isPlain (ch : Char) : Bool := ch ≠ '\n' && !isEndMark ch && !isWideMark ch

/-- `(?=\s|\Z)`. -/
def spaceAhead : Regex := .look fun _ next => next.all isBlank

/-- `(?!\s|\Z)`. -/
def noSpaceAhead : Regex := .look fun _ next => next.any fun ch => !isBlank ch

/-- `(?=\n|\Z)`. -/
def lineEndAhead : Regex := .look fun _ next => next.all fun ch => ch = '\n'

/-- `(?:[^\n.!?。！？…]|[.!?](?!\s|\Z))`. -/
def inner : Regex := .alt (.one isPlain) (.seq (.one isEndMark) noSpaceAhead)

/-- `(?:[.!?]+(?=\s|\Z)|[。！？…]+|(?=\n|\Z))`. -/
def ending : Regex :=
  .alt (.seq (plus (.one isEndMark)) spaceAhead) (.alt (plus (.one isWideMark)) lineEndAhead)

/-- `_SENTENCE`. -/
def sentence : Regex := .seq (plus inner) ending

/-- `claim_spans`. -/
def claimSpans (text : String) : List Span :=
  (finditer sentence text.toList).filter fun span => !blank (slice text span.1 span.2)

theorem advancing_sentence : sentence.Advancing := by decide

section

variable {l : List Char}

def Inner (l : List Char) (i : Nat) : Prop :=
  ∃ ch, l[i]? = some ch ∧ (isPlain ch = true ∨
    isEndMark ch = true ∧ ∃ next, l[i + 1]? = some next ∧ isBlank next = false)

variable {i j : Nat}

theorem reads_inner : Reads l inner i j ↔ Inner l i ∧ j = i + 1 := by
  constructor
  · intro way
    cases way with
    | left first =>
      obtain ⟨ch, here, plain, rfl⟩ := reads_one first
      exact ⟨⟨ch, here, .inl plain⟩, rfl⟩
    | right second =>
      cases second with
      | seq mark ahead =>
        obtain ⟨ch, here, marked, rfl⟩ := reads_one mark
        obtain ⟨rfl, followed⟩ := reads_look ahead
        cases next : l[i + 1]? with
        | none =>
          rw [next] at followed
          cases followed
        | some ch' =>
          rw [next, Option.any_some, Bool.not_eq_true'] at followed
          exact ⟨⟨ch, here, .inr ⟨marked, ch', next, followed⟩⟩, rfl⟩
  · rintro ⟨⟨ch, here, plain | ⟨marked, next, after, filled⟩⟩, rfl⟩
    · exact .left (.one here plain)
    · refine .right (.seq (.one here marked) (.look ?_))
      rw [after, Option.any_some, filled]
      rfl

theorem reads_mark {p : Char → Bool} (way : Reads l (.one p) i j) :
    (∃ ch, l[i]? = some ch ∧ p ch = true) ∧ j = i + 1 := by
  obtain ⟨ch, here, holds, rfl⟩ := reads_one way
  exact ⟨⟨ch, here, holds⟩, rfl⟩

/-- How a sentence ends: with a mark before a space or the end of the text, with a wide mark, or
where a line or the text ends. -/
inductive Ends (l : List Char) (i j : Nat) : Prop
  | mark (later : i < j) (marks : ∀ k, i ≤ k → k < j → ∃ ch, l[k]? = some ch ∧ isEndMark ch = true)
      (space : l[j]?.all isBlank = true)
  | wide (later : i < j)
      (marks : ∀ k, i ≤ k → k < j → ∃ ch, l[k]? = some ch ∧ isWideMark ch = true)
  | line (same : i = j) (ahead : l[j]?.all (fun ch => ch = '\n') = true)

theorem ends_of_reads (way : Reads l ending i j) : Ends l i j := by
  cases way with
  | left marked =>
    cases marked with
    | seq marks ahead =>
      obtain ⟨later, each⟩ := Regex.reads_plus (fun _ _ => reads_mark) marks
      obtain ⟨rfl, space⟩ := reads_look ahead
      exact .mark later each space
  | right others =>
    cases others with
    | left marks =>
      obtain ⟨later, each⟩ := Regex.reads_plus (fun _ _ => reads_mark) marks
      exact .wide later each
    | right ahead =>
      obtain ⟨rfl, line⟩ := reads_look ahead
      exact .line rfl line

theorem sentence_of_reads (way : Reads l sentence i j) :
    ∃ m, i < m ∧ (∀ k, i ≤ k → k < m → Inner l k) ∧ Ends l m j := by
  cases way with
  | seq body ended =>
    obtain ⟨later, each⟩ := Regex.reads_plus (fun _ _ => reads_inner.mp) body
    exact ⟨_, later, each, ends_of_reads ended⟩

theorem exists_sentence : ∀ {n i : Nat}, l.length - i ≤ n → Inner l i →
    ∃ m j, Reads l (.many inner) (i + 1) m ∧ Reads l ending m j := by
  intro n
  induction n with
  | zero =>
    rintro i short ⟨ch, here, -⟩
    obtain ⟨inside, -⟩ := List.getElem?_eq_some_iff.mp here
    omega
  | succ n ih =>
    rintro i short ⟨ch, here, -⟩
    obtain ⟨inside, -⟩ := List.getElem?_eq_some_iff.mp here
    by_cases more : Inner l (i + 1)
    · obtain ⟨m, j, body, ended⟩ := ih (by omega) more
      exact ⟨m, j, .more (reads_inner.mpr ⟨more, rfl⟩) body, ended⟩
    · -- the next character is a mark or ends the line, or there is none
      refine ⟨i + 1, ?_⟩
      cases next : l[i + 1]? with
      | none => exact ⟨i + 1, .done _, .right (.right (.look (by rw [next]; rfl)))⟩
      | some ch' =>
        by_cases wide : isWideMark ch' = true
        · exact ⟨i + 2, .done _, .right (.left (.seq (.one next wide) (.done _)))⟩
        by_cases marked : isEndMark ch' = true
        · have space : l[i + 2]?.all isBlank = true := by
            cases after : l[i + 2]? with
            | none => rfl
            | some ch'' =>
              by_contra filled
              rw [Option.all_some, Bool.not_eq_true] at filled
              exact more ⟨ch', next, .inr ⟨marked, ch'', after, filled⟩⟩
          exact ⟨i + 2, .done _, .left (.seq (.seq (.one next marked) (.done _)) (.look space))⟩
        · have line : ch' = '\n' := by
            by_contra other
            refine more ⟨ch', next, .inl ?_⟩
            rw [Bool.not_eq_true] at wide marked
            simp [isPlain, other, wide, marked]
          refine ⟨i + 1, .done _, .right (.right (.look ?_))⟩
          rw [next, Option.all_some, line]
          rfl

theorem covered_of_inner {i : Nat} (here : Inner l i) :
    ∃ m ∈ finditer sentence l, m.1 ≤ i ∧ i < m.2 := by
  obtain ⟨m, j, body, ended⟩ := exists_sentence (Nat.le_refl _) here
  exact Regex.covered_of_reads (by decide) advancing_sentence
    (.seq (.seq (reads_inner.mpr ⟨here, rfl⟩) body) ended)

end

def isTerminator (ch : Char) : Bool := isEndMark ch || isWideMark ch

def Filled (l : List Char) (i : Nat) : Prop :=
  ∃ ch, l[i]? = some ch ∧ isBlank ch = false ∧ isTerminator ch = false

theorem isBlank_newline : isBlank '\n' = true := by decide

theorem not_wide_of_endMark {ch : Char} (marked : isEndMark ch = true) :
    ¬ isWideMark ch = true := by
  simp only [isEndMark, Bool.or_eq_true, decide_eq_true_eq] at marked
  rcases marked with (rfl | rfl) | rfl
  · decide
  · decide
  · decide

theorem inner_of_filled {l : List Char} {i : Nat} (filled : Filled l i) : Inner l i := by
  obtain ⟨ch, here, dark, unmarked⟩ := filled
  rw [isTerminator, Bool.or_eq_false_iff] at unmarked
  refine ⟨ch, here, .inl ?_⟩
  have other : ch ≠ '\n' := by
    rintro rfl
    cases dark
  simp [isPlain, other, unmarked.1, unmarked.2]

/-- What the spans of a text are: apart from one another and in order, in no two lines, over every
run of characters that are neither whitespace nor terminators, and none ends with a mark that
something else than whitespace follows. -/
structure SpanLaw (l : List Char) (spans : List Span) : Prop where
  inside : ∀ span ∈ spans, span.1 < span.2 ∧ span.2 ≤ l.length
  disjoint : spans.Pairwise fun span span' => span.2 ≤ span'.1
  covered : ∀ i, Filled l i → ∃! span, span ∈ spans ∧ span.1 ≤ i ∧ i < span.2
  words : ∀ i j, i < j → (∀ k, i ≤ k → k < j → Filled l k) → ∃ span ∈ spans, span.1 ≤ i ∧ j ≤ span.2
  oneLine : ∀ span ∈ spans, ∀ k, span.1 ≤ k → k < span.2 → l[k]? ≠ some '\n'
  unbroken : ∀ span ∈ spans, ∀ ch next, l[span.2 - 1]? = some ch → isEndMark ch = true →
    l[span.2]? = some next → isBlank next = true

section

variable {text : String} {span : Span}

theorem mem_claimSpans : span ∈ claimSpans text ↔
    span ∈ finditer sentence text.toList ∧ blank (slice text span.1 span.2) = false := by
  rw [claimSpans, List.mem_filter, Bool.not_eq_true']

theorem sentence_of_mem (member : span ∈ claimSpans text) :
    ∃ m, span.1 < m ∧ (∀ k, span.1 ≤ k → k < m → Inner text.toList k) ∧ Ends text.toList m span.2 :=
  sentence_of_reads (Regex.reads_of_mem_finditer (by decide) (mem_claimSpans.mp member).1)

variable {i : Nat}

theorem not_blank_of_filled (filled : Filled text.toList i) (after : span.1 ≤ i)
    (before : i < span.2) : blank (slice text span.1 span.2) = false := by
  obtain ⟨ch, here, dark, -⟩ := filled
  have member : ch ∈ (text.toList.drop span.1).take (span.2 - span.1) := by
    refine List.mem_of_getElem? (i := i - span.1) ?_
    rw [List.getElem?_take, if_pos (by omega), List.getElem?_drop,
      show span.1 + (i - span.1) = i by omega, here]
  rw [blank, slice, String.toList_ofList]
  by_contra all_blank
  rw [Bool.not_eq_false, List.all_eq_true] at all_blank
  rw [all_blank ch member] at dark
  cases dark

theorem exists_span (filled : Filled text.toList i) :
    ∃ span ∈ claimSpans text, span.1 ≤ i ∧ i < span.2 := by
  obtain ⟨span, member, after, before⟩ := covered_of_inner (inner_of_filled filled)
  exact ⟨span, mem_claimSpans.mpr ⟨member, not_blank_of_filled filled after before⟩, after, before⟩

theorem disjoint_claimSpans (text : String) :
    (claimSpans text).Pairwise fun span span' => span.2 ≤ span'.1 :=
  (Regex.finditer_law (by decide) text.toList).disjoint.sublist List.filter_sublist

theorem eq_of_shared {spans : List Span} (apart : spans.Pairwise fun a b => a.2 ≤ b.1) {a b : Span}
    (here : a ∈ spans) (there : b ∈ spans) (ina : a.1 ≤ i ∧ i < a.2) (inb : b.1 ≤ i ∧ i < b.2) :
    a = b := by
  by_contra differ
  have either : spans.Pairwise fun a b : Span => a.2 ≤ b.1 ∨ b.2 ≤ a.1 := apart.imp .inl
  have : Std.Symm fun a b : Span => a.2 ≤ b.1 ∨ b.2 ≤ a.1 := ⟨fun _ _ => Or.symm⟩
  rcases either.forall here there differ with before | after
  · omega
  · omega

theorem not_filled_of_stop (member : span ∈ claimSpans text)
    (last : Filled text.toList (span.2 - 1)) : ¬ Filled text.toList span.2 := by
  rintro ⟨next, after, dark, -⟩
  obtain ⟨ch, here, -, unmarked⟩ := last
  rw [isTerminator, Bool.or_eq_false_iff] at unmarked
  obtain ⟨m, -, -, ended⟩ := sentence_of_mem member
  cases ended with
  | mark later marks space =>
    obtain ⟨ch', here', marked⟩ := marks (span.2 - 1) (by omega) (by omega)
    rw [here] at here'
    cases here'
    rw [unmarked.1] at marked
    cases marked
  | wide later marks =>
    obtain ⟨ch', here', marked⟩ := marks (span.2 - 1) (by omega) (by omega)
    rw [here] at here'
    cases here'
    rw [unmarked.2] at marked
    cases marked
  | line same ahead =>
    rw [after, Option.all_some, decide_eq_true_eq] at ahead
    rw [ahead, isBlank_newline] at dark
    cases dark

end

theorem claimSpans_law (text : String) : SpanLaw text.toList (claimSpans text) where
  inside span member := by
    have way := Regex.reads_of_mem_finditer (by decide) (mem_claimSpans.mp member).1
    have bounds := way.bounds
    have started := way.length_lt (by decide)
    exact ⟨Nat.lt_of_lt_of_le (Nat.lt_succ_self _) bounds.1, bounds.2 (Nat.le_of_lt started)⟩
  disjoint := disjoint_claimSpans text
  covered i filled := by
    obtain ⟨span, member, here⟩ := exists_span filled
    exact ⟨span, ⟨member, here⟩, fun span' there =>
      eq_of_shared (disjoint_claimSpans text) there.1 member there.2 here⟩
  words i j some_char filled := by
    obtain ⟨span, member, after, before⟩ := exists_span (filled i (Nat.le_refl i) some_char)
    refine ⟨span, member, after, ?_⟩
    by_contra short
    exact not_filled_of_stop member (filled _ (by omega) (by omega))
      (filled _ (by omega) (by omega))
  oneLine span member k after before newline := by
    obtain ⟨m, -, body, ended⟩ := sentence_of_mem member
    by_cases inside : k < m
    · obtain ⟨ch, here, plain | ⟨marked, -⟩⟩ := body k after inside
      · rw [newline] at here
        cases here
        cases plain
      · rw [newline] at here
        cases here
        cases marked
    · cases ended with
      | mark later marks space =>
        obtain ⟨ch, here, marked⟩ := marks k (by omega) before
        rw [newline] at here
        cases here
        cases marked
      | wide later marks =>
        obtain ⟨ch, here, marked⟩ := marks k (by omega) before
        rw [newline] at here
        cases here
        cases marked
      | line same ahead => omega
  unbroken span member ch next here marked after := by
    obtain ⟨m, started, body, ended⟩ := sentence_of_mem member
    cases ended with
    | mark later marks space =>
      rw [after, Option.all_some] at space
      exact space
    | wide later marks =>
      obtain ⟨ch', here', wide⟩ := marks (span.2 - 1) (by omega) (by omega)
      rw [here] at here'
      cases here'
      exact absurd wide (not_wide_of_endMark marked)
    | line same ahead =>
      -- the mark is inside the sentence, so what follows it is not whitespace; but a newline is
      rw [after, Option.all_some, decide_eq_true_eq] at ahead
      rw [ahead]
      exact isBlank_newline

/-- `[ \t]`. -/
def isGap (ch : Char) : Bool := ch = ' ' || ch = '\t'

def isNewline (ch : Char) : Bool := ch = '\n'

/-- `_PARAGRAPH_BREAK`. -/
def paragraphBreak : Regex :=
  .seq (.one isNewline) (.seq (.many (.one isGap)) (plus (.one isNewline)))

/-- `start`, past the whitespace. -/
def trimLeft (l : List Char) (stop : Nat) : Nat → Nat → Nat
  | 0, start => start
  | n + 1, start =>
    if start < stop ∧ l[start]?.any isBlank then trimLeft l stop n (start + 1) else start

/-- `end`, before the whitespace. -/
def trimRight (l : List Char) (start : Nat) : Nat → Nat
  | 0 => 0
  | stop + 1 =>
    if start < stop + 1 ∧ l[stop]?.any isBlank then trimRight l start stop else stop + 1

/-- `paragraph_spans`, with its default bound. -/
def paragraphSpans (text : String) : List Span :=
  let l := text.toList
  let breaks := finditer paragraphBreak l
  ((0 :: breaks.map Prod.snd).zip (breaks.map Prod.fst ++ [l.length])).filterMap fun edges =>
    let start := trimLeft l edges.2 edges.2 edges.1
    let stop := trimRight l start edges.2
    if 12 ≤ stop - start ∧ stop - start ≤ 2048 then some (start, stop) else none

section

open Recall

variable {σ : Type} [Field σ] [LinearOrder σ] (log : σ → σ) (o : Observer) (d : Collection)

/-- `value.entities + value.numbers`. -/
def anchors (value : RawCausalChannels) : List String := value.entities ++ value.numbers

/-- `anchor_df`. -/
def anchorDf (anchor : String) : Nat :=
  (values o d).countP fun value => anchor ∈ anchors value

def specificity (factId : Int) : σ :=
  ((anchors (channel o d factId)).dedup.map fun anchor =>
    log (1 + ((d.documents.length : σ) - anchorDf o d anchor + 0.5) /
      (anchorDf o d anchor + 0.5))).sum

/-- `max_specificity`. -/
def maxSpecificity : σ :=
  let maximum := ((d.documents.map fun item => specificity log o d item.factId).max?).getD 0
  if maximum = 0 then 1 else maximum

def boosted (w : FieldWeights σ) (bonus : Option σ) (row : SignedChannelScore σ) :
    SignedChannelScore σ :=
  match bonus with
  | none => row.weighed w
  | some b =>
    { row.weighed w with
      amplitude := (row.weighed w).amplitude *
        (1 + b * (specificity log o d row.factId / maxSpecificity log o d)) }

/-- `sorted(rows, key=lambda item: (-item.amplitude, item.fact_id))`. -/
def byAmplitude (rows : List (SignedChannelScore σ)) : List (SignedChannelScore σ) :=
  rows.insertionSort fun a b =>
    toLex (OrderDual.toDual a.amplitude, a.factId) ≤ toLex (OrderDual.toDual b.amplitude, b.factId)

/-- `MaterializedRawCausalSyndromeIndex.rank`. -/
def rank (components : List (SignedChannelScore σ)) (w : FieldWeights σ) (bonus : Option σ) :
    Except PyError (List (SignedChannelScore σ)) := do
  require (0 ≤ w.lexical ∧ 0 ≤ w.sublexical ∧ 0 ≤ w.entity ∧ 0 ≤ w.relation ∧ 0 ≤ w.observable ∧
    0 ≤ w.contradiction) (.valueError "six non-negative signed-field weights are required")
  return byAmplitude (components.map (boosted log o d w bonus))

end

section

open Recall (Bm25Parameters Collection FieldWeights Observer RawCausalDocument
  SignedChannelScore MaterializedRawCausalSyndromeIndex.components)
open SemanticRouter (Candidate CandidateList)

variable {σ : Type} [Field σ] [LinearOrder σ] (log : σ → σ) (o : Observer)

/-- `ClaimGenerator`. -/
structure ClaimGenerator (σ : Type) [Field σ] [LinearOrder σ] where
  weights : FieldWeights σ
  parameters : Bm25Parameters σ
  specificityBonus : Option σ
  includeParagraphs : Bool
  nonnegative : 0 ≤ weights.lexical ∧ 0 ≤ weights.sublexical ∧ 0 ≤ weights.entity ∧
    0 ≤ weights.relation ∧ 0 ≤ weights.observable ∧ 0 ≤ weights.contradiction
  bounded : 0 < parameters.k1 ∧ 0 ≤ parameters.b ∧ parameters.b ≤ 1
  floors : 0 ≤ parameters.lexicalDelta ∧ 0 ≤ parameters.sublexicalDelta

/-- `ClaimGenerator(..)`. -/
def ClaimGenerator.make (weights : FieldWeights σ) (parameters : Bm25Parameters σ)
    (specificityBonus : Option σ) (includeParagraphs : Bool) : Except PyError (ClaimGenerator σ) :=
  if nonnegative : 0 ≤ weights.lexical ∧ 0 ≤ weights.sublexical ∧ 0 ≤ weights.entity ∧
      0 ≤ weights.relation ∧ 0 ≤ weights.observable ∧ 0 ≤ weights.contradiction then
    if bounded : 0 < parameters.k1 ∧ 0 ≤ parameters.b ∧ parameters.b ≤ 1 then
      checked (0 ≤ parameters.lexicalDelta ∧ 0 ≤ parameters.sublexicalDelta)
        (fun floors => ⟨weights, parameters, specificityBonus, includeParagraphs, nonnegative,
          bounded, floors⟩) "BM25+ deltas must be non-negative"
    else .error (.valueError "invalid BM25 parameters")
  else .error (.valueError "six non-negative channel weights are required")

/-- `(fact_id, span, surface)`. -/
structure Claim where
  factId : Nat
  span : Span
  surface : String
  deriving DecidableEq, Repr

/-- What a generator raises. -/
inductive ClaimError where
  | python (error : PyError)
  | indexError
  deriving DecidableEq, Repr

def raising {α : Type} : Except PyError α → Except ClaimError α := Except.mapError .python

/-- `l[:limit]`; a negative limit leaves that many off the end. -/
def leading {α : Type} (l : List α) : Int → List α
  | .ofNat n => l.take n
  | .negSucc n => l.take (l.length - (n + 1))

/-- `CandidateList(..)`. -/
def candidateList (candidates : List (Candidate σ)) : Except PyError (CandidateList σ) :=
  checked ((candidates.map Candidate.identity).Nodup)
    (fun deduplicated => ⟨candidates, deduplicated⟩)
    "CandidateList must be deduplicated by (FactId, claim_span)"

namespace ClaimGenerator

/-- `sorted(spans)`, of the spans of a document. -/
def spans (g : ClaimGenerator σ) (text : String) : List Span :=
  Lib.sortedSet toLex (claimSpans text ++ if g.includeParagraphs then paragraphSpans text else [])

/-- `claims`. -/
def claims (g : ClaimGenerator σ) (documents : List RouteDocument) : List Claim :=
  documents.flatMap fun document => (g.spans document.text).map fun span =>
    ⟨document.factId, span, slice document.text span.1 span.2⟩

/-- `raw_documents`: the claims under their positions. -/
def rawDocuments (claims : List Claim) : List RawCausalDocument :=
  claims.zipIdx.map fun e => ⟨(e.2 : Int), e.1.surface, 0, 0⟩

/-- `MaterializedRawCausalSyndromeIndex(raw_documents, ..)`. -/
def claimIndex (claims : List Claim) : Except PyError Collection :=
  checked (rawDocuments claims ≠ [] ∧ ((rawDocuments claims).map RawCausalDocument.factId).Nodup)
    (fun holds => ⟨rawDocuments claims, holds.1, holds.2⟩)
    "materialized raw documents require unique FactIds"

/-- `Candidate(..)`, of a claim at its rank. -/
def candidate (claims : List Claim) (sameSession : Bool) (item : SignedChannelScore σ × Nat) :
    Except ClaimError (Candidate σ) := do
  let claim ← orThrow claims[item.1.factId.toNat]? .indexError
  raising (checked (∀ s ∈ some claim.span, s.1 < s.2)
    (fun holds => ⟨claim.factId, item.1.amplitude, "claim", item.2,
      if sameSession then "scope_session" else "scope_fallback", some claim.span, holds⟩)
    "invalid claim_span")

/-- `generate`. -/
def generate (g : ClaimGenerator σ) (query : QueryEnvelope) (index : RoutingIndex) (limit : Int)
    (sameSession : Bool) : Except ClaimError (CandidateList σ) := do
  let eligible := index.eligible query sameSession
  if eligible = [] then raising (candidateList [])
  else
    let claims := g.claims eligible
    if claims = [] then raising (candidateList [])
    else
      let index ← raising (claimIndex claims)
      let ranked ← raising (rank log o index (MaterializedRawCausalSyndromeIndex.components log
        g.parameters o index query.text) g.weights g.specificityBonus)
      let candidates ← ((leading ranked limit).zipIdx 1).mapM (candidate claims sameSession)
      raising (candidateList candidates)

end ClaimGenerator

variable {claims : List Claim} {documents : List RouteDocument}

variable {item : SignedChannelScore σ × Nat} {index : RoutingIndex} {g : ClaimGenerator σ}

theorem nodup_eligible (made : RoutingIndex.make documents = .ok index) (query : QueryEnvelope)
    (sameSession : Bool) :
    ((index.eligible query sameSession).map fun document => (document.factId : Int)).Nodup := by
  rw [RoutingIndex.make_eq] at made
  split_ifs at made with unique
  cases made
  have sorted : ((RoutingIndex.inOrder documents).map fun document => document.factId).Nodup :=
    ((List.perm_insertionSort _ documents).map _).nodup_iff.mpr unique
  have kept : (RoutingIndex.eligible ⟨RoutingIndex.inOrder documents, Dict.empty.update
      (documents.map fun d => (d.factId, d))⟩ query sameSession).Sublist
      (RoutingIndex.inOrder documents) := List.filter_sublist
  have named := ((kept.map fun document : RouteDocument => document.factId).nodup sorted).map
    (Nat.cast_injective (R := Int))
  rw [List.map_map] at named
  exact named

omit [Field σ] [LinearOrder σ] in
theorem lt_of_mem_paragraphSpans {text : String} {span : Span}
    (member : span ∈ paragraphSpans text) : span.1 < span.2 := by
  obtain ⟨edges, -, made⟩ := List.mem_filterMap.mp member
  simp only [] at made
  split_ifs at made with wide
  cases made
  omega

theorem lt_of_mem_spans {text : String} {span : Span} (member : span ∈ g.spans text) :
    span.1 < span.2 := by
  rcases List.mem_append.mp (Lib.mem_sortedSet.mp member) with claimed | extra
  · exact ((claimSpans_law text).inside span claimed).1
  · split_ifs at extra
    · exact lt_of_mem_paragraphSpans extra
    · cases extra

theorem mem_spans {text : String} {span : Span} (member : span ∈ claimSpans text) :
    span ∈ g.spans text :=
  Lib.mem_sortedSet.mpr (List.mem_append_left _ member)

theorem nodup_claims (g : ClaimGenerator σ)
    (unique : (documents.map fun document => (document.factId : Int)).Nodup) :
    ((g.claims documents).map fun claim => ((claim.factId : Int), some claim.span)).Nodup := by
  unfold ClaimGenerator.claims
  rw [List.map_flatMap, List.nodup_flatMap]
  constructor
  · intro document _
    rw [List.map_map]
    refine Lib.nodup_sortedSet.map fun span span' same => ?_
    exact Option.some.inj (Prod.mk.inj same).2
  · refine (List.pairwise_map.mp unique).imp fun differ => ?_
    intro identity here there
    simp only [List.map_map] at here there
    obtain ⟨span, -, rfl⟩ := List.mem_map.mp here
    obtain ⟨span', -, same⟩ := List.mem_map.mp there
    exact differ (Prod.mk.inj same).1.symm

theorem claimIndex_eq (some_claim : claims ≠ []) :
    ∃ d, ClaimGenerator.claimIndex claims = .ok d ∧
      d.documents.map RawCausalDocument.factId =
        (List.range claims.length).map fun n : Nat => (n : Int) := by
  have ids : (ClaimGenerator.rawDocuments claims).map RawCausalDocument.factId =
      (List.range claims.length).map fun n : Nat => (n : Int) := by
    rw [ClaimGenerator.rawDocuments, List.map_map, List.range_eq_range',
      ← List.zipIdx_map_snd 0 claims, List.map_map]
    rfl
  have nonempty : ClaimGenerator.rawDocuments claims ≠ [] := by
    intro empty
    have length := congrArg List.length empty
    rw [ClaimGenerator.rawDocuments, List.length_map, List.length_zipIdx] at length
    exact some_claim (List.length_eq_zero_iff.mp length)
  have unique : ((ClaimGenerator.rawDocuments claims).map RawCausalDocument.factId).Nodup := by
    rw [ids]
    exact List.nodup_range.map fun _ _ same => Int.ofNat_inj.mp same
  exact ⟨_, OpenText.checked_eq_ok.mpr ⟨⟨nonempty, unique⟩, rfl⟩, ids⟩

theorem rank_spec (g : ClaimGenerator σ) {claims : List Claim} {d : Collection}
    (ids : d.documents.map RawCausalDocument.factId =
      (List.range claims.length).map fun n : Nat => (n : Int)) (queryText : String) :
    ∃ rows, rank log o d (MaterializedRawCausalSyndromeIndex.components log g.parameters o d
        queryText) g.weights g.specificityBonus = .ok rows ∧
      (rows.map SignedChannelScore.factId).Perm
        ((List.range claims.length).map fun n : Nat => (n : Int)) := by
  refine ⟨byAmplitude ((MaterializedRawCausalSyndromeIndex.components log g.parameters o d
    queryText).map (boosted log o d g.weights g.specificityBonus)), ?_, ?_⟩
  · unfold rank
    rw [require_of g.nonnegative]
    rfl
  · have named : ((MaterializedRawCausalSyndromeIndex.components log g.parameters o d
        queryText).map (boosted log o d g.weights g.specificityBonus)).map
          SignedChannelScore.factId = d.documents.map RawCausalDocument.factId := by
      have kept (row : SignedChannelScore σ) :
          (boosted log o d g.weights g.specificityBonus row).factId = row.factId := by
        unfold boosted
        split
        · rfl
        · rfl
      rw [List.map_map]
      simp only [MaterializedRawCausalSyndromeIndex.components, Recall.normalize, List.map_map]
      refine List.map_congr_left fun item _ => ?_
      exact kept _
    rw [← ids, ← named]
    exact (List.perm_insertionSort _ _).map _

theorem map_of_mapM_ok {ε α β γ : Type} {f : α → Except ε β} {g : β → γ} {h : α → γ} {l : List α}
    {l' : List β} (made : l.mapM f = .ok l') (each : ∀ a b, f a = .ok b → g b = h a) :
    l'.map g = l.map h := by
  induction l generalizing l' with
  | nil =>
    cases made
    rfl
  | cons a l ih =>
    simp only [List.mapM_cons, bind_eq_ok, pure_eq_ok] at made
    obtain ⟨b, first, rest, others, rfl⟩ := made
    rw [List.map_cons, List.map_cons, each a b first, ih others]

theorem leading_sublist {α : Type} (l : List α) (limit : Int) : (leading l limit).Sublist l := by
  cases limit with
  | ofNat n => exact List.take_sublist n l
  | negSucc n => exact List.take_sublist _ l

theorem leading_eq_self {α : Type} {l : List α} {limit : Int} (room : (l.length : Int) ≤ limit) :
    leading l limit = l := by
  obtain ⟨n, rfl⟩ := Int.eq_ofNat_of_zero_le (show 0 ≤ limit by omega)
  exact List.take_of_length_le (by exact_mod_cast room)

omit [Field σ] [LinearOrder σ] in
theorem candidate_eq {sameSession : Bool} {c : Candidate σ}
    (made : ClaimGenerator.candidate claims sameSession item = .ok c) :
    ∃ claim, claims[item.1.factId.toNat]? = some claim ∧
      c.identity = ((claim.factId : Int), some claim.span) := by
  simp only [ClaimGenerator.candidate, bind_eq_ok, orThrow_eq_ok] at made
  obtain ⟨claim, found, checked_candidate⟩ := made
  refine ⟨claim, found, ?_⟩
  unfold raising at checked_candidate
  cases result : (checked (∀ s ∈ some claim.span, s.1 < s.2)
    (fun holds => (⟨claim.factId, item.1.amplitude, "claim", item.2,
      if sameSession then "scope_session" else "scope_fallback", some claim.span, holds⟩ :
        Candidate σ)) "invalid claim_span") with
  | error e =>
    rw [result] at checked_candidate
    cases checked_candidate
  | ok c' =>
    rw [result] at checked_candidate
    cases checked_candidate
    obtain ⟨_, rfl⟩ := OpenText.checked_eq_ok.mp result
    rfl

omit [Field σ] [LinearOrder σ] in
theorem exists_candidate (ordered : ∀ claim ∈ claims, claim.span.1 < claim.span.2)
    (sameSession : Bool) (inside : item.1.factId.toNat < claims.length) :
    ∃ c, ClaimGenerator.candidate claims sameSession item = .ok c := by
  have found := List.getElem?_eq_getElem inside
  have holds : ∀ s ∈ some claims[item.1.factId.toNat].span, s.1 < s.2 := by
    intro s same
    cases same
    exact ordered _ (List.getElem_mem inside)
  refine ⟨⟨claims[item.1.factId.toNat].factId, item.1.amplitude, "claim", item.2,
    if sameSession then "scope_session" else "scope_fallback",
    some claims[item.1.factId.toNat].span, holds⟩, ?_⟩
  simp only [ClaimGenerator.candidate, found, bind_eq_ok, orThrow_eq_ok, raising]
  refine ⟨_, rfl, ?_⟩
  rw [OpenText.checked_eq_ok.mpr ⟨holds, rfl⟩]
  rfl

theorem generate_reaches (made : RoutingIndex.make documents = .ok index) (g : ClaimGenerator σ)
    (query : QueryEnvelope) (sameSession : Bool) (limit : Int) :
    ∃ result, g.generate log o query index limit sameSession = .ok result ∧
      (((g.claims (index.eligible query sameSession)).length : Int) ≤ limit →
        ∀ document ∈ index.eligible query sameSession, ∀ i j, i < j →
          (∀ k, i ≤ k → k < j → Filled document.text.toList k) →
          ∃ candidate ∈ result.candidates, candidate.factId = document.factId ∧
            ∃ span ∈ candidate.claimSpan, span.1 ≤ i ∧ j ≤ span.2) := by
  have unique := nodup_eligible made query sameSession
  unfold ClaimGenerator.generate
  generalize index.eligible query sameSession = eligible at unique ⊢
  -- a word stands in the span of a claim
  have claim_of {document : RouteDocument} (member : document ∈ eligible) {i j : Nat}
      (some_char : i < j) (filled : ∀ k, i ≤ k → k < j → Filled document.text.toList k) :
      ∃ claim ∈ g.claims eligible, claim.factId = document.factId ∧ claim.span.1 ≤ i ∧
        j ≤ claim.span.2 := by
    obtain ⟨span, there, after, before⟩ :=
      (claimSpans_law document.text).words i j some_char filled
    exact ⟨_, List.mem_flatMap.mpr ⟨document, member,
      List.mem_map_of_mem (mem_spans there)⟩, rfl, after, before⟩
  have no_candidates : ∃ result : CandidateList σ, raising (candidateList []) = .ok result :=
    ⟨⟨[], List.nodup_nil⟩, rfl⟩
  by_cases none_eligible : eligible = []
  · obtain ⟨result, empty⟩ := no_candidates
    refine ⟨result, ?_, fun _ document member => ?_⟩
    · simp only [if_pos none_eligible]
      exact empty
    · rw [none_eligible] at member
      cases member
  by_cases none_claimed : g.claims eligible = []
  · obtain ⟨result, empty⟩ := no_candidates
    refine ⟨result, ?_, fun _ document member i j some_char filled => ?_⟩
    · simp only [if_neg none_eligible, if_pos none_claimed]
      exact empty
    · obtain ⟨claim, there, -⟩ := claim_of member some_char filled
      rw [none_claimed] at there
      cases there
  obtain ⟨d, indexed, ids⟩ := claimIndex_eq none_claimed
  obtain ⟨rows, ranked, named⟩ := rank_spec log o g ids query.text
  have ordered : ∀ claim ∈ g.claims eligible, claim.span.1 < claim.span.2 := by
    intro claim member
    obtain ⟨document, -, there⟩ := List.mem_flatMap.mp member
    obtain ⟨span, listed, rfl⟩ := List.mem_map.mp there
    exact lt_of_mem_spans listed
  have position {row : SignedChannelScore σ} (member : row ∈ rows) :
      ∃ p : Nat, row.factId = p ∧ p < (g.claims eligible).length := by
    have there := named.subset (List.mem_map_of_mem (f := SignedChannelScore.factId) member)
    obtain ⟨p, inside, same⟩ := List.mem_map.mp there
    exact ⟨p, same.symm, List.mem_range.mp inside⟩
  have rows_sublist := leading_sublist rows limit
  obtain ⟨candidates, all_made⟩ := exists_mapM_ok
    (f := ClaimGenerator.candidate (g.claims eligible) sameSession)
    (l := (leading rows limit).zipIdx 1) fun item member => by
      have there := List.mem_map_of_mem (f := Prod.fst) member
      rw [List.zipIdx_map_fst] at there
      obtain ⟨p, same, inside⟩ := position (rows_sublist.subset there)
      refine exists_candidate ordered sameSession ?_
      rw [same, Int.toNat_natCast]
      exact inside
  -- candidates at different positions are of different claims
  have identities : (candidates.map Candidate.identity).Nodup := by
    have unique_claims := nodup_claims g unique
    have by_position := map_of_mapM_ok all_made
      (g := fun c => some c.identity)
      (h := fun item => ((g.claims eligible).map fun claim =>
        ((claim.factId : Int), some claim.span))[item.1.factId.toNat]?) fun item c made_here => by
        obtain ⟨claim, found, same⟩ := candidate_eq made_here
        rw [List.getElem?_map, found, same]
        rfl
    have positions : ((leading rows limit).map fun row => row.factId.toNat).Nodup := by
      have named_positions := named.map Int.toNat
      rw [List.map_map, List.map_map] at named_positions
      have whole : (rows.map fun row => row.factId.toNat).Nodup := by
        refine (List.Perm.nodup_iff named_positions).mpr ?_
        have same : (Int.toNat ∘ fun n : Nat => (n : Int)) = id := rfl
        rw [same, List.map_id]
        exact List.nodup_range
      exact (rows_sublist.map _).nodup whole
    have distinct : (candidates.map fun c => some c.identity).Nodup := by
      rw [by_position]
      have first := congrArg (List.map fun row : SignedChannelScore σ =>
        ((g.claims eligible).map fun claim =>
          ((claim.factId : Int), some claim.span))[row.factId.toNat]?)
        (List.zipIdx_map_fst 1 (leading rows limit))
      rw [List.map_map] at first
      refine (congrArg List.Nodup first).mpr ?_
      have mapped := positions.map_on (f := fun p => ((g.claims eligible).map fun claim =>
          ((claim.factId : Int), some claim.span))[p]?) fun p inside p' _ same => by
        obtain ⟨row, member, rfl⟩ := List.mem_map.mp inside
        obtain ⟨q, equal, bounded⟩ := position (rows_sublist.subset member)
        refine (List.getElem?_inj ?_ unique_claims).mp same
        rw [List.length_map, equal, Int.toNat_natCast]
        exact bounded
      rw [List.map_map] at mapped
      exact mapped
    refine List.Nodup.of_map some ?_
    rw [List.map_map]
    exact distinct
  refine ⟨⟨candidates, identities⟩, ?_, ?_⟩
  · simp only [if_neg none_eligible, if_neg none_claimed, indexed]
    show (raising (rank log o d _ g.weights g.specificityBonus) >>= _) = _
    rw [ranked]
    show (((leading rows limit).zipIdx 1).mapM
      (ClaimGenerator.candidate (g.claims eligible) sameSession) >>= _) = _
    rw [all_made]
    show raising (candidateList candidates) = _
    rw [candidateList, OpenText.checked_eq_ok.mpr ⟨identities, rfl⟩]
    rfl
  · intro room document member i j some_char filled
    obtain ⟨claim, there, same_document, after, before⟩ := claim_of member some_char filled
    obtain ⟨p, inside, found⟩ := List.mem_iff_getElem.mp there
    have row_there : ((p : Nat) : Int) ∈ rows.map SignedChannelScore.factId :=
      named.symm.subset (List.mem_map_of_mem (List.mem_range.mpr inside))
    obtain ⟨row, in_rows, at_p⟩ := List.mem_map.mp row_there
    have length_rows : rows.length = (g.claims eligible).length := by
      have lengths := named.length_eq
      rw [List.length_map, List.length_map, List.length_range] at lengths
      exact lengths
    have kept : row ∈ leading rows limit := by
      rw [leading_eq_self (by rw [length_rows]; exact room)]
      exact in_rows
    rw [← List.zipIdx_map_fst 1 (leading rows limit)] at kept
    obtain ⟨item, listed, rfl⟩ := List.mem_map.mp kept
    obtain ⟨c, in_candidates, made_here⟩ := exists_of_mapM_ok all_made item listed
    obtain ⟨claim', found', identity⟩ := candidate_eq made_here
    rw [at_p, Int.toNat_natCast, List.getElem?_eq_getElem inside, found] at found'
    cases found'
    obtain ⟨same_id, same_span⟩ := Prod.mk.inj identity
    refine ⟨c, in_candidates, ?_, claim.span, same_span, after, before⟩
    rw [same_id, same_document]

/-- The spans of any text lose none of it, and a generator with room for all its claims proposes
every word of every eligible document. -/
theorem spans_lose_no_text (text : String) {documents : List RouteDocument} {index : RoutingIndex}
    (made : RoutingIndex.make documents = .ok index) (g : ClaimGenerator σ)
    (query : QueryEnvelope) (sameSession : Bool) (limit : Int) :
    SpanLaw text.toList (claimSpans text) ∧
    ∃ result, g.generate log o query index limit sameSession = .ok result ∧
      (((g.claims (index.eligible query sameSession)).length : Int) ≤ limit →
        ∀ document ∈ index.eligible query sameSession, ∀ i j, i < j →
          (∀ k, i ≤ k → k < j → Filled document.text.toList k) →
          ∃ candidate ∈ result.candidates, candidate.factId = document.factId ∧
            ∃ span ∈ candidate.claimSpan, span.1 ≤ i ∧ j ≤ span.2) :=
  ⟨claimSpans_law text, generate_reaches log o made g query sameSession limit⟩

end

/-- A decimal point ends no sentence, and the end of a line does. -/
example : claimSpans "It is 3.8x. Really\nso!" = [(0, 11), (11, 18), (19, 22)] := by decide +kernel

section

open Recall (Observer RawCausalChannels.silent)
open SemanticRouter (noteDocument noteIndex noteQuery)

def wholeTextObserver : Observer where
  observe text _ := { RawCausalChannels.silent with lexical := [text] }
  confirmedFinding _ := false

theorem unit_weights_nonneg : (0 : ℚ) ≤ 1 ∧ (0 : ℚ) ≤ 0 ∧ (0 : ℚ) ≤ 0 ∧ (0 : ℚ) ≤ 0 ∧ (0 : ℚ) ≤ 0 ∧
    (0 : ℚ) ≤ 0 := by norm_num

theorem parameters_bounded : (0 : ℚ) < 6 / 5 ∧ (0 : ℚ) ≤ 3 / 4 ∧ (3 / 4 : ℚ) ≤ 1 := by norm_num

theorem no_floors : (0 : ℚ) ≤ 0 ∧ (0 : ℚ) ≤ 0 := by norm_num

def lexicalClaims : ClaimGenerator ℚ :=
  ⟨⟨1, 0, 0, 0, 0, 0⟩, ⟨6 / 5, 3 / 4, 0, 0⟩, none, false, unit_weights_nonneg, parameters_bounded,
    no_floors⟩

theorem filled_rain {k : Nat} (bound : k < 4) : Filled "rain".toList k := by
  match k, bound with
  | 0, _ => exact ⟨'r', by decide, by decide, by decide⟩
  | 1, _ => exact ⟨'a', by decide, by decide, by decide⟩
  | 2, _ => exact ⟨'i', by decide, by decide, by decide⟩
  | 3, _ => exact ⟨'n', by decide, by decide, by decide⟩

theorem spans_lose_no_text_note : SpanLaw "rain".toList (claimSpans "rain") ∧ ∃ result,
    lexicalClaims.generate (fun _ => 1) wholeTextObserver noteQuery noteIndex 1 true = .ok result ∧
      ∃ candidate ∈ result.candidates, candidate.factId = 1 ∧
        ∃ span ∈ candidate.claimSpan, span.1 ≤ 0 ∧ 4 ≤ span.2 := by
  have made : RoutingIndex.make [noteDocument] = .ok noteIndex := rfl
  obtain ⟨law, result, generated, reached⟩ := spans_lose_no_text (fun _ => 1) wholeTextObserver
    "rain" made lexicalClaims noteQuery true 1
  refine ⟨law, result, generated, ?_⟩
  exact reached (by decide +kernel) noteDocument (by decide +kernel) 0 4 (by decide)
    fun k _ bound => filled_rain bound

end

end ProofRay.ClaimRouting
