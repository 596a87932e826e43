/- Packs of microcitations: from every document the sentence that answers a query best, cut to a
   budget of bytes, and the binary proof of them all. -/

import Mathlib.Data.List.Lex
import Mathlib.Data.List.MinMax
import ProofRay.Engine.Primitives
import ProofRay.Evidence.Frontload
import ProofRay.Evidence.JsonlCorpus
import ProofRay.Lib.BigEndian
import ProofRay.Lib.SpelledJson

namespace ProofRay.JsonlEvidence

open Connectors (fromHex fromHex_hex hex)
open Engine (Crypto ascii stdCrypto)
open Frontload (size size_append size_join_append)
open Lib (Json Point Regex Spelled Text)
open Lib.Guard
open Lib.Lines (join)
open Lib.Regex (finditer group plus reads_of_mem_finditer)
open Lib.Struct (Bytes beBytes beNat beNat_beBytes beBytes_beNat beNat_lt length_beBytes)
open Sidecar (isBlank)

def u32Max : Nat := 0xffffffff

def sidecarRow (citation : Microcitation) : Except Raised Bytes := do
  let start := citation.sourceSpan.1
  let stop := citation.sourceSpan.2
  require (citation.factId ≤ u32Max ∧ start < stop ∧ stop ≤ u32Max)
    (.valueError "compact proof identity/span exceeds u32")
  let digest ← orThrow (fromHex citation.sourceSha256)
    (.valueError "non-hexadecimal number found in fromhex() arg")
  return beBytes 4 citation.factId ++ (beBytes 4 start ++ (beBytes 4 stop ++ digest))

/-- `compact_proof_sidecar`. -/
def compactProofSidecar (citations : List Microcitation) : Except Raised Bytes := do
  require (citations.length ≤ 65535)
    (.valueError "compact proof sidecar exceeds u16 citation count")
  let rows ← citations.mapM sidecarRow
  return ascii "HDP1" ++ (beBytes 2 citations.length ++ rows.flatten)

def Microcitation.Heads (citation : Microcitation) (raw : Bytes) : Prop :=
  beNat (raw.take 4) = citation.factId ∧
    (beNat ((raw.drop 4).take 4), beNat ((raw.drop 8).take 4)) = citation.sourceSpan ∧
    hex ((raw.drop 12).take 32) = citation.sourceSha256

instance (citation : Microcitation) (raw : Bytes) : Decidable (citation.Heads raw) :=
  inferInstanceAs (Decidable (_ ∧ _))

namespace JsonlCorpus

/-- The loop of `verify_compact_proof_sidecar`. -/
def verifyRows (c : Crypto) (other : Spelled → Text) (corpus : JsonlCorpus) :
    Bytes → List Microcitation → Bool
  | _, [] => true
  | raw, citation :: citations =>
    if ¬citation.Heads raw then false
    else if ¬corpus.verify c other citation then false
    else corpus.verifyRows c other (raw.drop 44) citations

/-- `verify_compact_proof_sidecar`. -/
def verifyCompactProofSidecar (c : Crypto) (other : Spelled → Text) (corpus : JsonlCorpus)
    (sidecar : Bytes) (citations : List Microcitation) : Bool :=
  if sidecar.length < 6 ∨ sidecar.take 4 ≠ ascii "HDP1" then false
  else
    let count := beNat ((sidecar.drop 4).take 2)
    if count ≠ citations.length ∨ sidecar.length ≠ 6 + 44 * count then false
    else corpus.verifyRows c other (sidecar.drop 6) citations

end JsonlCorpus

/-- What a score reads of `observe_raw_text`. -/
structure Channels where
  lexical : List String
  numbers : List String
  relations : List String

/-- What the choice of a snippet takes from elsewhere. -/
structure Reader where
  observe : List Char → Bool → Channels      -- `observe_raw_text(text, question=..)`
  casefold : List Char → List Char
  isWord : Char → Bool                       -- `[^\W_]`

def isTerminator (ch : Char) : Bool := ch = '.' || ch = '!' || ch = '?'

/-- `_SENTENCE`. A document is stripped, so `$` stands for its end alone. -/
def sentence : Regex :=
  .seq (plus (.one fun ch => !(isTerminator ch || ch = '\n')))
    (.alt (plus (.one isTerminator)) (.look fun _ next => next.isNone))

/-- `len(set(wanted).intersection(found))`. -/
def shared (wanted found : List String) : Nat := (wanted.dedup.filter (· ∈ found)).length

/-- The tuple of a candidate, which `max` compares. -/
def candidate (r : Reader) (query : Channels) (document : List Char) (m : Nat × Nat) : List Int :=
  let channels := r.observe (group document m) false
  [shared query.lexical channels.lexical, shared query.numbers channels.numbers,
    shared query.relations channels.relations, -(m.2 - m.1 : Int), -m.1, m.1, m.2]

/-- `_sentence`. -/
def sentenceOf (r : Reader) (document query : List Char) : Nat × Nat :=
  ((finditer sentence document).argmax (candidate r (r.observe query true) document)).getD
    (0, document.length)

def shrink (document : List Char) (left maxBytes : Nat) : Nat → Nat
  | 0 => 0
  | right + 1 =>
    if left < right + 1 ∧ maxBytes < size (group document (left, right + 1)) then
      shrink document left maxBytes right
    else right + 1

/-- `_bounded`. -/
def bounded (r : Reader) (document : List Char) (span : Nat × Nat) (query : List Char)
    (maxBytes : Nat) : Nat × Nat :=
  let passage := group document span
  if size passage ≤ maxBytes then span
  else
    let word := plus (.one r.isWord)
    let words := (finditer word query).map fun m => r.casefold (group query m)
    let anchor :=
      ((finditer word passage).find? fun m => words.contains (r.casefold (group passage m))).elim
        span.1 fun m => span.1 + m.1
    let left := max span.1 (anchor - maxBytes / 3)
    let right := shrink document left maxBytes (min span.2 (left + maxBytes))
    (left + ((group document (left, right)).takeWhile isBlank).length, right)

structure Budgets where
  maxBytes : Nat := 2048
  perDocumentBytes : Nat := 64
  maxItems : Nat := 32

/-- What the loop over the FactIds has so far. -/
structure Gathered where
  citations : List Microcitation := []
  examined : List Nat := []
  evidenceBytes : Nat := 0

inductive PackState where
  | ready
  | incomplete
  deriving DecidableEq, Repr

/-- `VerifiedSnippetPack`. -/
structure SnippetPack where
  state : PackState
  citations : List Microcitation
  evidenceBytes : Nat
  proofSidecarBytes : Nat
  examinedFactIds : List Nat
  reason : String

namespace JsonlCorpus

/-- The loop of `pack`. -/
def gather (r : Reader) (corpus : JsonlCorpus) (query : List Char) (b : Budgets) :
    List Nat → Gathered → Gathered
  | [], g => g
  | factId :: factIds, g =>
    if b.maxItems ≤ g.citations.length then g
    else
      let g := { g with examined := g.examined ++ [factId] }
      match corpus.byId factId with
      | none => g                   -- `pack` has refused FactIds that are not known
      | some d =>
        let separator := if g.citations = [] then 0 else 1
        let remaining := b.maxBytes - g.evidenceBytes - separator
        if remaining < 1 then g
        else
          let span := bounded r d.documentText (sentenceOf r d.documentText query) query
            (min b.perDocumentBytes remaining)
          if span.2 ≤ span.1 then corpus.gather r query b factIds g
          else
            let snippet := group d.documentText span
            let cost := size snippet
            if b.maxBytes < g.evidenceBytes + separator + cost then
              corpus.gather r query b factIds g
            else
              let g := { g with
                citations := g.citations ++ [⟨factId, d.externalId, d.sourceId, d.documentSha256,
                  span, snippet⟩]
                evidenceBytes := g.evidenceBytes + (separator + cost) }
              if b.maxBytes ≤ g.evidenceBytes then g else corpus.gather r query b factIds g

def pack (r : Reader) (corpus : JsonlCorpus) (query : List Char) (factIds : List Nat)
    (b : Budgets) : Except Raised SnippetPack := do
  require (query.all isBlank = false ∧ 1 ≤ b.maxBytes ∧ 1 ≤ b.perDocumentBytes ∧ 1 ≤ b.maxItems)
    (.valueError "snippet pack needs query and positive budgets")
  require (factIds.Nodup ∧ ∀ k ∈ factIds, (corpus.byId k).isSome)
    (.valueError "snippet FactIds must be unique and known")
  let g := corpus.gather r query b factIds {}
  let sidecar ← compactProofSidecar g.citations
  return {
    state := if g.citations = [] then .incomplete else .ready
    citations := g.citations
    evidenceBytes := g.evidenceBytes
    proofSidecarBytes := sidecar.length
    examinedFactIds := g.examined
    reason :=
      if g.citations = [] then "no ranked microcitation fit the evidence budget"
      else "ranked microcitations fit the evidence budget" }

end JsonlCorpus

section

variable {c : Crypto} {other : Spelled → Text} {corpus : JsonlCorpus}

variable {citations : List Microcitation} {raw : Bytes} {citation : Microcitation}

theorem JsonlCorpus.Sound.of_verify (sound : corpus.Sound c other)
    (verified : corpus.verify c other citation = true) :
    (∃ d ∈ corpus.documents, d.factId = citation.factId ∧
        citation.sourceSpan.2 ≤ d.documentText.length) ∧
      citation.sourceSpan.1 < citation.sourceSpan.2 ∧
      ∃ digest : Bytes, digest.length = 32 ∧ citation.sourceSha256 = hex digest := by
  unfold verify at verified
  split at verified
  · cases verified
  · rename_i d found
    have member := List.mem_of_find?_eq_some found
    have same : d.factId = citation.factId := by simpa using List.find?_some found
    rw [sound.reopened d member] at verified
    dsimp only at verified
    split_ifs at verified with differs digest
    obtain ⟨wide, inside, -⟩ := of_decide_eq_true verified
    push Not at differs
    refine ⟨⟨d, member, same, inside⟩, wide,
      c.sha256 (Sidecar.encode (String.ofList d.documentText)), c.sha256_length _, ?_⟩
    rw [differs.2.2, sound.hashed d member]
    rfl

theorem sidecarRow_iff {digest : Bytes} (len : digest.length = 32)
    (hashed : citation.sourceSha256 = hex digest)
    (wide : citation.sourceSpan.1 < citation.sourceSpan.2) :
    sidecarRow citation = .ok raw ↔ raw.length = 44 ∧ citation.Heads raw := by
  simp only [sidecarRow, bind_eq_ok, require_eq_ok, orThrow_eq_ok, pure_eq_ok, hashed,
    fromHex_hex, Option.some.injEq]
  constructor
  · rintro ⟨-, ⟨small, -, small'⟩, _, rfl, rfl⟩
    unfold u32Max at small small'
    refine ⟨by simp [len], ?_, ?_, ?_⟩
    · rw [List.take_left' (length_beBytes 4 _), beNat_beBytes (by omega)]
    · rw [List.drop_left' (length_beBytes 4 _), List.take_left' (length_beBytes 4 _),
        beNat_beBytes (by omega), ← List.drop_drop (i := 4) (j := 4),
        List.drop_left' (length_beBytes 4 _), List.drop_left' (length_beBytes 4 _),
        List.take_left' (length_beBytes 4 _), beNat_beBytes (by omega)]
    · rw [show 12 = 4 + (4 + 4) from rfl, ← List.drop_drop, ← List.drop_drop,
        List.drop_left' (length_beBytes 4 _), List.drop_left' (length_beBytes 4 _),
        List.drop_left' (length_beBytes 4 _), List.take_of_length_le (Nat.le_of_eq len), hashed]
  · rintro ⟨all, id, span, sha⟩
    have lenAt (n : Nat) (inside : n + 4 ≤ 44) : ((raw.drop n).take 4).length = 4 := by
      rw [List.length_take, List.length_drop, all]
      omega
    have lenId : (raw.take 4).length = 4 := lenAt 0 (by omega)
    have lenStart := lenAt 4 (by omega)
    have lenStop := lenAt 8 (by omega)
    have small := beNat_lt lenId
    have small' := beNat_lt lenStop
    obtain ⟨start, stop⟩ := Prod.ext_iff.mp span
    have same : (raw.drop 12).take 32 = digest := by
      have back := congrArg fromHex (sha.trans hashed)
      simpa [fromHex_hex] using back
    refine ⟨(), ⟨?_, wide, ?_⟩, digest, rfl, ?_⟩
    · unfold u32Max
      omega
    · unfold u32Max
      simp only at stop
      omega
    · simp only at start stop
      rw [← id, ← start, ← stop, ← same, beBytes_beNat lenId, beBytes_beNat lenStart,
        beBytes_beNat lenStop]
      calc raw.take 4 ++ ((raw.drop 4).take 4 ++ ((raw.drop 8).take 4 ++ (raw.drop 12).take 32))
          = raw.take (4 + 4 + 4 + 32) := by
            rw [List.take_add, List.take_add, List.take_add, List.append_assoc, List.append_assoc]
        _ = raw := List.take_of_length_le (Nat.le_of_eq all)

@[simp] theorem Microcitation.heads_take : citation.Heads (raw.take 44) ↔ citation.Heads raw := by
  simp [Heads, List.take_take, List.drop_take]

theorem JsonlCorpus.Sound.verifyRows_iff (sound : corpus.Sound c other)
    (verified : ∀ citation ∈ citations, corpus.verify c other citation = true)
    (len : raw.length = 44 * citations.length) :
    corpus.verifyRows c other raw citations = true ↔
      ∃ rows, citations.mapM sidecarRow = .ok rows ∧ rows.flatten = raw := by
  induction citations generalizing raw with
  | nil =>
    obtain rfl := List.length_eq_zero_iff.mp len
    exact ⟨fun _ => ⟨[], rfl, rfl⟩, fun _ => rfl⟩
  | cons citation citations ih =>
    obtain ⟨here, later⟩ := List.forall_mem_cons.mp verified
    obtain ⟨-, wide, digest, width, hashed⟩ := sound.of_verify here
    have lenRest : (raw.drop 44).length = 44 * citations.length := by
      rw [List.length_drop, len, List.length_cons]
      omega
    have lenRow : (raw.take 44).length = 44 := by
      rw [List.length_take, len, List.length_cons]
      omega
    simp only [verifyRows, here, not_true_eq_false, if_false, Bool.if_false_left,
      Bool.and_eq_true, List.mapM_cons, bind_eq_ok, pure_eq_ok, ih later lenRest]
    constructor
    · rintro ⟨heads, rows, packed, flat⟩
      have heads : citation.Heads (raw.take 44) := by simpa using heads
      refine ⟨_, ⟨_, (sidecarRow_iff width hashed wide).mpr ⟨lenRow, heads⟩, rows, packed, rfl⟩, ?_⟩
      rw [List.flatten_cons, flat, List.take_append_drop]
    · rintro ⟨_, ⟨front, first, rows, packed, rfl⟩, flat⟩
      obtain ⟨lenFront, heads⟩ := (sidecarRow_iff width hashed wide).mp first
      rw [List.flatten_cons] at flat
      have front_eq : raw.take 44 = front := by rw [← flat, List.take_left' lenFront]
      refine ⟨?_, rows, packed, ?_⟩
      · simpa [← front_eq] using heads
      · rw [← flat, List.drop_left' lenFront]

theorem JsonlCorpus.Sound.length_rows (sound : corpus.Sound c other)
    (verified : ∀ citation ∈ citations, corpus.verify c other citation = true) {rows : List Bytes}
    (packed : citations.mapM sidecarRow = .ok rows) :
    rows.flatten.length = 44 * citations.length := by
  induction citations generalizing rows with
  | nil =>
    cases packed
    rfl
  | cons citation citations ih =>
    obtain ⟨here, later⟩ := List.forall_mem_cons.mp verified
    obtain ⟨-, wide, digest, width, hashed⟩ := sound.of_verify here
    simp only [List.mapM_cons, bind_eq_ok, pure_eq_ok] at packed
    obtain ⟨row, first, rows, others, rfl⟩ := packed
    have len := ((sidecarRow_iff width hashed wide).mp first).1
    rw [List.flatten_cons, List.length_append, len, ih later others, List.length_cons]
    omega

theorem JsonlCorpus.Sound.sidecar_unique (sound : corpus.Sound c other)
    (verified : ∀ citation ∈ citations, corpus.verify c other citation = true) :
    corpus.verifyCompactProofSidecar c other raw citations = true ↔
      compactProofSidecar citations = .ok raw := by
  have magic : (ascii "HDP1").length = 4 := rfl
  simp only [verifyCompactProofSidecar, compactProofSidecar, bind_eq_ok, require_eq_ok,
    pure_eq_ok]
  constructor
  · intro accepted
    split_ifs at accepted with short differs
    push Not at short differs
    obtain ⟨count, len⟩ := differs
    have lenCount : ((raw.drop 4).take 2).length = 2 := by
      rw [List.length_take, List.length_drop]
      omega
    have small := beNat_lt lenCount
    have lenRows : (raw.drop 6).length = 44 * citations.length := by
      rw [List.length_drop, len, count]
      omega
    obtain ⟨rows, packed, flat⟩ := (sound.verifyRows_iff verified lenRows).mp accepted
    refine ⟨(), by omega, rows, packed, ?_⟩
    calc ascii "HDP1" ++ (beBytes 2 citations.length ++ rows.flatten)
        = raw.take 4 ++ ((raw.drop 4).take 2 ++ raw.drop (4 + 2)) := by
          rw [short.2, ← count, beBytes_beNat lenCount, flat]
      _ = raw := by rw [← List.drop_drop, List.take_append_drop, List.take_append_drop]
  · rintro ⟨-, few, rows, packed, rfl⟩
    have lenRows := sound.length_rows verified packed
    have tail : (ascii "HDP1" ++ (beBytes 2 citations.length ++ rows.flatten)).drop 4 =
        beBytes 2 citations.length ++ rows.flatten := List.drop_left' magic
    have rest : (ascii "HDP1" ++ (beBytes 2 citations.length ++ rows.flatten)).drop 6 =
        rows.flatten := by
      rw [show 6 = 4 + 2 from rfl, ← List.drop_drop, tail, List.drop_left' (length_beBytes 2 _)]
    have len : (ascii "HDP1" ++ (beBytes 2 citations.length ++ rows.flatten)).length =
        6 + 44 * citations.length := by
      simp only [List.length_append, magic, length_beBytes, lenRows]
      omega
    have counted : beNat (beBytes 2 citations.length) = citations.length :=
      beNat_beBytes (by omega)
    have accepted := (sound.verifyRows_iff verified lenRows).mpr ⟨rows, packed, rfl⟩
    rw [tail, rest, len, List.take_left' magic, List.take_left' (length_beBytes 2 _), counted]
    simp [accepted]

/-- The citations of a proof can be packed: there are few enough, and the numbers are small. -/
def Packable (citations : List Microcitation) : Prop :=
  citations.length ≤ 65535 ∧
    ∀ citation ∈ citations, citation.factId ≤ u32Max ∧ citation.sourceSpan.2 ≤ u32Max

theorem JsonlCorpus.Sound.packable_iff (sound : corpus.Sound c other)
    (verified : ∀ citation ∈ citations, corpus.verify c other citation = true) :
    (∃ raw, compactProofSidecar citations = .ok raw) ↔ Packable citations := by
  simp only [compactProofSidecar, bind_eq_ok, require_eq_ok, pure_eq_ok]
  constructor
  · rintro ⟨_, -, few, rows, packed, rfl⟩
    refine ⟨few, fun citation member => ?_⟩
    obtain ⟨row, -, packed⟩ := exists_of_mapM_ok packed citation member
    simp only [sidecarRow, bind_eq_ok, require_eq_ok] at packed
    obtain ⟨-, ⟨small, -, small'⟩, -⟩ := packed
    exact ⟨small, small'⟩
  · rintro ⟨few, small⟩
    have each : ∀ citation ∈ citations, ∃ row, sidecarRow citation = .ok row := by
      intro citation member
      obtain ⟨-, wide, digest, -, hashed⟩ := sound.of_verify (verified citation member)
      obtain ⟨small, small'⟩ := small citation member
      simp only [sidecarRow, hashed, fromHex_hex, orThrow_some, ok_bind,
        require_of (And.intro small (And.intro wide small'))]
      exact ⟨_, rfl⟩
    obtain ⟨rows, packed⟩ := exists_mapM_ok each
    exact ⟨_, (), few, rows, packed, rfl⟩

end

section

variable {r : Reader} {document query : List Char}

theorem sentenceOf_le : (sentenceOf r document query).2 ≤ document.length := by
  unfold sentenceOf
  cases best : (finditer sentence document).argmax
      (candidate r (r.observe query true) document) with
  | none => exact Nat.le_refl _
  | some m =>
    have wide : 0 < sentence.width := by decide
    have way := reads_of_mem_finditer wide (List.argmax_mem best)
    exact way.bounds.2 (Nat.le_of_lt (way.length_lt wide))

theorem size_group_empty {left right : Nat} (empty : right ≤ left) :
    size (group document (left, right)) = 0 := by
  rw [group, Nat.sub_eq_zero_of_le empty]
  rfl

theorem shrink_spec (left maxBytes : Nat) : ∀ right,
    shrink document left maxBytes right ≤ right ∧
      size (group document (left, shrink document left maxBytes right)) ≤ maxBytes
  | 0 => ⟨Nat.le_refl 0, by rw [shrink, size_group_empty (Nat.zero_le left)]; exact Nat.zero_le _⟩
  | right + 1 => by
    obtain ⟨below, fits⟩ := shrink_spec left maxBytes right
    unfold shrink
    split_ifs with large
    · exact ⟨Nat.le_succ_of_le below, fits⟩
    · refine ⟨Nat.le_refl _, ?_⟩
      by_cases inside : left < right + 1
      · exact Nat.le_of_not_lt fun more => large ⟨inside, more⟩
      · rw [size_group_empty (Nat.le_of_not_lt inside)]
        exact Nat.zero_le _

theorem size_drop_le (l : List Char) (k : Nat) : size (l.drop k) ≤ size l := by
  have parts := size_append (l.take k) (l.drop k)
  rw [List.take_append_drop] at parts
  omega

theorem bounded_spec {span : Nat × Nat} (inside : span.2 ≤ document.length) (maxBytes : Nat) :
    (bounded r document span query maxBytes).2 ≤ document.length ∧
      size (group document (bounded r document span query maxBytes)) ≤ maxBytes := by
  dsimp only [bounded]
  split_ifs with small
  · exact ⟨inside, small⟩
  · generalize max span.1 _ = left
    obtain ⟨below, fits⟩ := shrink_spec left maxBytes (min span.2 (left + maxBytes))
    generalize shrink document left maxBytes (min span.2 (left + maxBytes)) = right at below fits ⊢
    generalize ((group document (left, right)).takeWhile isBlank).length = k
    refine ⟨below.trans ((Nat.min_le_left _ _).trans inside), ?_⟩
    have shorter : group document (left + k, right) = (group document (left, right)).drop k := by
      simp only [group, List.drop_take, List.drop_drop, Nat.sub_sub]
    rw [shorter]
    exact (size_drop_le _ k).trans fits

end

section

variable {c : Crypto} {other : Spelled → Text} {corpus : JsonlCorpus} {r : Reader}
  {query : List Char} {b : Budgets}

/-- The citations verify, every one is within its own budget, and the bytes that are counted are
those of the texts with newlines between them. -/
structure Gathered.Fits (c : Crypto) (other : Spelled → Text) (corpus : JsonlCorpus) (b : Budgets)
    (g : Gathered) : Prop where
  verified : ∀ citation ∈ g.citations, corpus.verify c other citation = true
  joined : size (join (g.citations.map Microcitation.text)) = g.evidenceBytes
  within : g.evidenceBytes ≤ b.maxBytes
  each : ∀ citation ∈ g.citations, size citation.text ≤ b.perDocumentBytes

theorem Gathered.Fits.cite {g : Gathered} (fits : g.Fits c other corpus b)
    {citation : Microcitation} {remaining : Nat}
    (room : g.evidenceBytes + ((if g.citations = [] then 0 else 1) + remaining) ≤ b.maxBytes)
    (verified : corpus.verify c other citation = true)
    (small : size citation.text ≤ min b.perDocumentBytes remaining) (examined : List Nat) :
    Gathered.Fits c other corpus b ⟨g.citations ++ [citation], examined,
      g.evidenceBytes + ((if g.citations = [] then 0 else 1) + size citation.text)⟩ := by
  obtain ⟨own, left⟩ := Nat.le_min.mp small
  refine ⟨?_, ?_, ?_, ?_⟩
  · exact List.forall_mem_append.mpr ⟨fits.verified, List.forall_mem_singleton.mpr verified⟩
  · rw [List.map_append, List.map_singleton, size_join_append, fits.joined]
    simp only [List.map_eq_nil_iff]
    omega
  · dsimp only
    omega
  · exact List.forall_mem_append.mpr ⟨fits.each, List.forall_mem_singleton.mpr own⟩

theorem JsonlCorpus.Sound.gather_fits (sound : corpus.Sound c other) :
    ∀ (factIds : List Nat) (g : Gathered), g.Fits c other corpus b →
      (corpus.gather r query b factIds g).Fits c other corpus b
  | [], g, fits => fits
  | factId :: factIds, g, fits => by
    have seen : Gathered.Fits c other corpus b { g with examined := g.examined ++ [factId] } :=
      ⟨fits.verified, fits.joined, fits.within, fits.each⟩
    unfold gather
    split_ifs with full
    · exact fits
    cases found : corpus.byId factId with
    | none => exact seen
    | some d =>
      dsimp only
      have inside : (sentenceOf r d.documentText query).2 ≤ d.documentText.length := sentenceOf_le
      generalize separated : (if g.citations = [] then 0 else 1) = separator
      generalize left : b.maxBytes - g.evidenceBytes - separator = remaining
      obtain ⟨bound, small⟩ : (bounded r d.documentText (sentenceOf r d.documentText query) query
          (min b.perDocumentBytes remaining)).2 ≤ _ ∧ _ := bounded_spec inside _
      generalize bounded r d.documentText (sentenceOf r d.documentText query) query
        (min b.perDocumentBytes remaining) = span at bound small ⊢
      split_ifs with exhausted empty large done
      · exact seen
      · exact sound.gather_fits factIds _ seen
      · exact sound.gather_fits factIds _ seen
      all_goals
        have verified := sound.verify_citation (List.mem_of_find?_eq_some found) found
          (Nat.lt_of_not_le empty) bound
        have cited := fits.cite (by rw [separated]; omega) verified small (g.examined ++ [factId])
        rw [separated] at cited
      · exact cited
      · exact sound.gather_fits factIds _ cited

theorem JsonlCorpus.length_gather_le : ∀ (factIds : List Nat) (g : Gathered),
    (corpus.gather r query b factIds g).citations.length ≤ g.citations.length + factIds.length
  | [], g => Nat.le_refl _
  | factId :: factIds, g => by
    unfold gather
    split_ifs with full
    · exact Nat.le_add_right _ _
    cases corpus.byId factId with
    | none => exact Nat.le_add_right _ _
    | some d =>
      have onward := length_gather_le factIds
      dsimp only
      generalize bounded r _ _ _ _ = span
      generalize (if g.citations = [] then 0 else 1) = separator
      split_ifs
      · exact Nat.le_add_right _ _
      · exact (onward _).trans (by simp only [List.length_cons]; omega)
      · exact (onward _).trans (by simp only [List.length_cons]; omega)
      · simp only [List.length_append, List.length_cons, List.length_nil]
        omega
      · refine (onward _).trans ?_
        simp only [List.length_append, List.length_cons, List.length_nil]
        omega

variable {factIds : List Nat}

theorem JsonlCorpus.Sound.packable_of_small (sound : corpus.Sound c other)
    (few : factIds.length ≤ 65535)
    (small : ∀ d ∈ corpus.documents, d.factId ≤ u32Max ∧ d.documentText.length ≤ u32Max) :
    Packable (corpus.gather r query b factIds {}).citations := by
  have fits : (corpus.gather r query b factIds {}).Fits c other corpus b :=
    sound.gather_fits factIds {}
      ⟨List.forall_mem_nil _, rfl, Nat.zero_le _, List.forall_mem_nil _⟩
  have length : (corpus.gather r query b factIds {}).citations.length ≤ _ :=
    corpus.length_gather_le factIds {}
  refine ⟨length.trans (by simpa using few), fun citation member => ?_⟩
  obtain ⟨⟨d, inside, same, within⟩, -⟩ := sound.of_verify (fits.verified citation member)
  obtain ⟨low, short⟩ := small d inside
  exact ⟨same ▸ low, within.trans short⟩

/-- What a pack promises of its citations, and that their binary proof is the only one. -/
structure JsonlCorpus.Packs (c : Crypto) (other : Spelled → Text) (corpus : JsonlCorpus)
    (b : Budgets) (p : SnippetPack) : Prop where
  verified : ∀ citation ∈ p.citations, corpus.verify c other citation = true
  joined : size (join (p.citations.map Microcitation.text)) = p.evidenceBytes
  within : p.evidenceBytes ≤ b.maxBytes
  each : ∀ citation ∈ p.citations, size citation.text ≤ b.perDocumentBytes
  sidecar : ∀ raw, corpus.verifyCompactProofSidecar c other raw p.citations = true ↔
    compactProofSidecar p.citations = .ok raw

theorem JsonlCorpus.Sound.pack_spec (sound : corpus.Sound c other)
    (asked : query.all isBlank = false)
    (positive : 1 ≤ b.maxBytes ∧ 1 ≤ b.perDocumentBytes ∧ 1 ≤ b.maxItems) (distinct : factIds.Nodup)
    (known : ∀ k ∈ factIds, 1 ≤ k ∧ k ≤ corpus.documents.length) :
    (Packable (corpus.gather r query b factIds {}).citations ↔
        ∃ p, corpus.pack r query factIds b = .ok p) ∧
      ∀ p, corpus.pack r query factIds b = .ok p → corpus.Packs c other b p := by
  have fits : (corpus.gather r query b factIds {}).Fits c other corpus b :=
    sound.gather_fits factIds {}
      ⟨List.forall_mem_nil _, rfl, Nat.zero_le _, List.forall_mem_nil _⟩
  have found : ∀ k ∈ factIds, (corpus.byId k).isSome := by
    intro k member
    obtain ⟨d, -, -, found⟩ := sound.byId_eq (known k member)
    rw [found]
    rfl
  simp only [pack, require_of (And.intro asked positive), require_of (And.intro distinct found),
    ok_bind, bind_eq_ok, pure_eq_ok, ← sound.packable_iff fits.verified]
  refine ⟨⟨?_, ?_⟩, ?_⟩
  · rintro ⟨raw, packed⟩
    exact ⟨_, raw, packed, rfl⟩
  · rintro ⟨_, raw, packed, -⟩
    exact ⟨raw, packed⟩
  rintro _ ⟨raw, packed, rfl⟩
  exact ⟨fits.verified, fits.joined, fits.within, fits.each,
    fun _ => sound.sidecar_unique fits.verified⟩

end

/-- Lines that each spell a record with an identity of its own and a text make a collection with
one document for each. A pack of known documents fails only where its citations are too many for
the binary proof or their numbers too large, and otherwise keeps every promise. -/
theorem jsonl_evidence_reopens (c : Crypto) (other : Spelled → Text) (f : Fields) (r : Reader)
    {sourceId : String} (named : sourceId ≠ "") {rows : List Row} (some_row : rows ≠ [])
    (legible : ∀ row ∈ rows, row.Legible other f) (distinct : (rows.map Row.id).Nodup) :
    ∃ corpus, JsonlCorpus.make c other f sourceId (written rows) = .ok corpus ∧
      (corpus.documents.map fun d => Row.mk d.rawRecord d.externalId d.documentText).Perm rows ∧
      corpus.documents.map JsonlDocument.factId = List.range' 1 rows.length ∧
      ∀ (query : List Char) (factIds : List Nat) (b : Budgets), query.all isBlank = false →
        1 ≤ b.maxBytes ∧ 1 ≤ b.perDocumentBytes ∧ 1 ≤ b.maxItems → factIds.Nodup →
        (∀ k ∈ factIds, 1 ≤ k ∧ k ≤ rows.length) →
        (Packable (corpus.gather r query b factIds {}).citations ↔
            ∃ p, corpus.pack r query factIds b = .ok p) ∧
          ∀ p, corpus.pack r query factIds b = .ok p → corpus.Packs c other b p := by
  obtain ⟨corpus, made, same⟩ := JsonlCorpus.make_written (c := c) named some_row legible distinct
  have sound := JsonlCorpus.sound_of_make made
  have len : corpus.documents.length = rows.length := by simpa using same.length_eq
  refine ⟨corpus, made, same, len ▸ sound.numbered, ?_⟩
  intro query factIds b asked positive once known
  exact sound.pack_spec asked positive once (len ▸ known)

def noteRecord : Json := .obj [("_id", .str "n"), ("text", .str "Tea.\nNow hot.")]

def noteRow : Row where
  raw := noteRecord.compact
  id := Text.ofString "n"
  text := "Tea.\nNow hot.".toList

def noteReader : Reader where
  observe text _ := ⟨if 'o' ∈ text then ["hot"] else ["tea"], [], []⟩
  casefold text := text.map Char.toLower
  isWord := Char.isAlphanum

theorem noteRow_legible : noteRow.Legible (fun _ => []) {} where
  reads := ⟨_, _, Spelled.read_compact (v := noteRecord)
    ⟨by simp only [Json.KeysOrdered, List.map]; decide, trivial, trivial, trivial⟩, rfl, rfl,
    by decide⟩
  named := by decide
  worded := by decide
  unbroken ch inside := by
    have all : (noteRecord.compact.all fun ch => !Lib.Lines.isBreak ch) = true := by decide
    simpa using List.all_eq_true.mp all ch inside

theorem jsonl_evidence_reopens_note : ∃ corpus p,
    JsonlCorpus.make stdCrypto (fun _ => []) {} "notes" (written [noteRow]) = .ok corpus ∧
      corpus.pack noteReader "hot".toList [1] {} = .ok p ∧
      corpus.Packs stdCrypto (fun _ => []) {} p := by
  obtain ⟨corpus, made, same, numbered, packs⟩ := jsonl_evidence_reopens stdCrypto (fun _ => []) {}
    noteReader (by decide : "notes" ≠ "") (List.cons_ne_nil noteRow [])
    (List.forall_mem_singleton.mpr noteRow_legible) (List.nodup_singleton _)
  obtain ⟨able, promises⟩ := packs "hot".toList [1] {} (by decide) (by decide)
    (List.nodup_singleton 1) (by decide)
  have small : ∀ d ∈ corpus.documents, d.factId ≤ u32Max ∧ d.documentText.length ≤ u32Max := by
    intro d member
    have first : d.factId ∈ List.range' 1 [noteRow].length :=
      numbered ▸ List.mem_map_of_mem member
    have text := List.mem_singleton.mp (same.subset (List.mem_map_of_mem member))
    have low : d.factId = 1 := by simpa using first
    rw [low, show d.documentText = noteRow.text from congrArg Row.text text]
    decide
  obtain ⟨p, packed⟩ := able.mp
    ((JsonlCorpus.sound_of_make made).packable_of_small (by decide) small)
  exact ⟨corpus, p, made, packed, promises p packed⟩

/-- A blank query is refused. -/
theorem not_pack_blank : ∃ corpus,
    JsonlCorpus.make stdCrypto (fun _ => []) {} "notes" (written [noteRow]) = .ok corpus ∧
      ∀ p, corpus.pack noteReader [' '] [1] {} ≠ .ok p := by
  obtain ⟨corpus, made, -⟩ := JsonlCorpus.make_written (by decide : "notes" ≠ "")
    (List.cons_ne_nil noteRow []) (List.forall_mem_singleton.mpr noteRow_legible)
    (List.nodup_singleton _)
  refine ⟨corpus, made, fun p packed => ?_⟩
  simp only [JsonlCorpus.pack, bind_eq_ok, require_eq_ok] at packed
  obtain ⟨-, ⟨asked, -⟩, -⟩ := packed
  exact absurd asked (by decide)

end ProofRay.JsonlEvidence
