/- A collection of JSONL records: every record gives one document, and reading its line again gives
   that document's text. -/

import Mathlib.Data.List.DropRight
import Mathlib.Data.List.Sort
import ProofRay.Connectors.Values
import ProofRay.Lib.Lines
import ProofRay.Lib.Regex
import ProofRay.Lib.Spelled
import ProofRay.Sidecar.Authority

namespace ProofRay.JsonlEvidence

open Connectors (fromHex fromHex_hex hex)
open Engine (Crypto)
open Lib (Json Point Spelled Text)
open Lib.Guard
open Lib.Lines (isBreak splitFrom splitLines)
open Lib.Regex (group)
open Lib.Struct (Bytes)
open Sidecar (encode isBlank)

/-- The exceptions of the module. -/
inductive Raised where
  | decodeError                     -- `json.JSONDecodeError`
  | keyError
  | typeError
  | encodeError                     -- `UnicodeEncodeError`
  | valueError (message : String)
  deriving DecidableEq, Repr

structure Fields where
  idField : Text := Text.ofString "_id"
  titleField : Text := Text.ofString "title"
  textField : Text := Text.ofString "text"

/-- `str(value)`, where `other` spells the values that are no text. -/
def strOf (other : Spelled → Text) : Spelled → Text
  | .str s => s
  | v => other v

def blankPoint : Point → Bool
  | .char ch => isBlank ch
  | .lone _ => false

/-- `text.strip()`. -/
def strip (text : Text) : Text := (text.dropWhile blankPoint).rdropWhile blankPoint

def chars (text : Text) : Option (List Char) :=
  text.mapM fun
    | .char ch => some ch
    | .lone _ => none

/-- `f"{title} {text}".strip()`, of a record. -/
def decoded (other : Spelled → Text) (f : Fields) (record : List (Text × Spelled)) : Text :=
  let text key := ((record.lookup key).map (strOf other)).getD []
  strip (text f.titleField ++ .char ' ' :: text f.textField)

structure Parsed where
  externalId : Text
  lineNumber : Nat
  rawLine : List Char
  documentText : Text

def parseLine (other : Spelled → Text) (f : Fields) (lineNumber : Nat) (rawLine : List Char) :
    Except Raised Parsed :=
  match Spelled.read rawLine with
  | none => .error .decodeError
  | some (.obj record) => do
    let value ← orThrow (record.lookup f.idField) .keyError
    let externalId := strOf other value
    let documentText := decoded other f record
    require (externalId ≠ [] ∧ documentText ≠ [])
      (.valueError "JSONL document identity and decoded text are required")
    return { externalId, lineNumber, rawLine, documentText }
  | some _ => .error .typeError

def parseLines (other : Spelled → Text) (f : Fields) :
    Nat → List (List Char) → Except Raised (List Parsed)
  | _, [] => .ok []
  | n, rawLine :: rest =>
    if rawLine.all isBlank then parseLines other f (n + 1) rest
    else do
      let row ← parseLine other f n rawLine
      let rows ← parseLines other f (n + 1) rest
      return row :: rows

/-- `VerifiedJsonlDocument`. -/
structure JsonlDocument where
  factId : Nat
  externalId : Text
  sourceId : String
  rawRecord : List Char
  documentText : List Char
  documentSha256 : Lib.CodePoints.Text

/-- `hashlib.sha256(text.encode()).hexdigest()`. -/
def sha256Hex (c : Crypto) (text : List Char) : Lib.CodePoints.Text :=
  hex (c.sha256 (encode (String.ofList text)))

/-- The order of `sorted(parsed)`; identities are all different, so they decide it. -/
abbrev Parsed.Before (a b : Parsed) : Prop :=
  a.externalId.map Point.code ≤ b.externalId.map Point.code

def documentOf (c : Crypto) (sourceId : String) (row : Parsed × Nat) :
    Except Raised JsonlDocument := do
  let documentText ← orThrow (chars row.1.documentText) .encodeError
  return {
    factId := row.2
    externalId := row.1.externalId
    sourceId := sourceId ++ "#L" ++ toString row.1.lineNumber
    rawRecord := row.1.rawLine
    documentText
    documentSha256 := sha256Hex c documentText }

/-- `VerifiedJsonlDocumentCorpus`. -/
structure JsonlCorpus where
  fields : Fields
  documents : List JsonlDocument

/-- `VerifiedJsonlDocumentCorpus(source_id, content, ..)`. -/
def JsonlCorpus.make (c : Crypto) (other : Spelled → Text) (f : Fields) (sourceId : String)
    (content : List Char) : Except Raised JsonlCorpus := do
  require (sourceId ≠ "" ∧ content ≠ [])
    (.valueError "verified JSONL corpus needs source identity and content")
  let parsed ← parseLines other f 1 (splitLines content)
  require (parsed ≠ [] ∧ (parsed.map Parsed.externalId).Nodup)
    (.valueError "verified JSONL corpus requires unique external identities")
  let documents ← ((parsed.insertionSort Parsed.Before).zipIdx 1).mapM (documentOf c sourceId)
  return ⟨f, documents⟩

/-- `DocumentMicrocitation`. -/
structure Microcitation where
  factId : Nat
  externalId : Text
  sourceId : String
  sourceSha256 : Lib.CodePoints.Text
  sourceSpan : Nat × Nat
  text : List Char

namespace JsonlCorpus

/-- `by_id.get(fact_id)`. -/
def byId (corpus : JsonlCorpus) (factId : Nat) : Option JsonlDocument :=
  corpus.documents.find? fun d => d.factId = factId

/-- `_reopen`. A line that is no object was refused when the collection was built. -/
def reopen (other : Spelled → Text) (corpus : JsonlCorpus) (d : JsonlDocument) : Option Text :=
  match Spelled.read d.rawRecord with
  | some (.obj record) =>
    let externalId := ((record.lookup corpus.fields.idField).map (strOf other)).getD []
    if externalId = d.externalId then some (decoded other corpus.fields record) else none
  | _ => none

def verify (c : Crypto) (other : Spelled → Text) (corpus : JsonlCorpus)
    (citation : Microcitation) : Bool :=
  match corpus.byId citation.factId with
  | none => false
  | some d =>
    if citation.externalId ≠ d.externalId ∨ citation.sourceId ≠ d.sourceId ∨
        citation.sourceSha256 ≠ d.documentSha256 then false
    else
      match (corpus.reopen other d).bind chars with
      | none => false
      | some reopened =>
        if sha256Hex c reopened ≠ d.documentSha256 then false
        else
          decide (citation.sourceSpan.1 < citation.sourceSpan.2 ∧
            citation.sourceSpan.2 ≤ reopened.length ∧
            group reopened citation.sourceSpan = citation.text)

end JsonlCorpus

section

variable {c : Crypto} {other : Spelled → Text} {f : Fields}

def Parsed.Reopens (other : Spelled → Text) (f : Fields) (row : Parsed) : Prop :=
  ∃ record, Spelled.read row.rawLine = some (.obj record) ∧
    ((record.lookup f.idField).map (strOf other)).getD [] = row.externalId ∧
    decoded other f record = row.documentText

variable {corpus : JsonlCorpus} {sourceId : String} {line : List Char}

variable {n : Nat} {k : Nat}

theorem reopens_of_parseLine {row : Parsed} (parsed : parseLine other f n line = .ok row) :
    row.Reopens other f := by
  unfold parseLine at parsed
  split at parsed
  · cases parsed
  · rename_i record read
    simp only [bind_eq_ok, orThrow_eq_ok, pure_eq_ok] at parsed
    obtain ⟨value, found, -, -, rfl⟩ := parsed
    exact ⟨record, read, by rw [found]; rfl, rfl⟩
  · cases parsed

theorem reopens_of_parseLines {lines : List (List Char)} {rows : List Parsed}
    (parsed : parseLines other f n lines = .ok rows) : ∀ row ∈ rows, row.Reopens other f := by
  induction lines generalizing n rows with
  | nil =>
    cases parsed
    exact nofun
  | cons line lines ih =>
    simp only [parseLines] at parsed
    split at parsed
    · exact ih parsed
    · simp only [bind_eq_ok, pure_eq_ok] at parsed
      obtain ⟨row, first, others, later, rfl⟩ := parsed
      exact List.forall_mem_cons.mpr ⟨reopens_of_parseLine first, ih later⟩

/-- The documents are numbered from one, and each is what its own line gives. -/
structure JsonlCorpus.Sound (c : Crypto) (other : Spelled → Text) (corpus : JsonlCorpus) :
    Prop where
  numbered : corpus.documents.map JsonlDocument.factId = List.range' 1 corpus.documents.length
  reopened : ∀ d ∈ corpus.documents, (corpus.reopen other d).bind chars = some d.documentText
  hashed : ∀ d ∈ corpus.documents, d.documentSha256 = sha256Hex c d.documentText

theorem map_of_mapM_documentOf {rows : List (Parsed × Nat)} {documents : List JsonlDocument}
    (made : rows.mapM (documentOf c sourceId) = .ok documents) :
    documents.map JsonlDocument.factId = rows.map Prod.snd ∧
      (documents.map fun d => (d.externalId, d.rawRecord, some d.documentText)) =
        rows.map fun row => (row.1.externalId, row.1.rawLine, chars row.1.documentText) := by
  induction rows generalizing documents with
  | nil =>
    cases made
    exact ⟨rfl, rfl⟩
  | cons row rows ih =>
    simp only [List.mapM_cons, bind_eq_ok, pure_eq_ok] at made
    obtain ⟨d, first, others, later, rfl⟩ := made
    simp only [documentOf, bind_eq_ok, orThrow_eq_ok, pure_eq_ok] at first
    obtain ⟨text, encoded, rfl⟩ := first
    obtain ⟨ids, values⟩ := ih later
    simp only [List.map_cons, ids, values, encoded, and_self]

theorem JsonlCorpus.sound_of_make {content : List Char}
    (made : make c other f sourceId content = .ok corpus) : corpus.Sound c other := by
  simp only [make, bind_eq_ok, require_eq_ok, pure_eq_ok] at made
  obtain ⟨-, -, parsed, rows, -, -, documents, each, rfl⟩ := made
  obtain ⟨ids, -⟩ := map_of_mapM_documentOf each
  have len : documents.length = parsed.length := by
    have := congrArg List.length ids
    simpa using this
  have source : ∀ d ∈ documents, ∃ row ∈ parsed, ∃ id,
      documentOf c sourceId (row, id) = .ok d := by
    intro d member
    obtain ⟨⟨row, id⟩, inside, made⟩ := mem_of_mapM_ok each d member
    exact ⟨row, (List.mem_insertionSort _).mp (List.fst_mem_of_mem_zipIdx inside), id, made⟩
  refine ⟨?_, ?_, ?_⟩
  · rw [ids, len]
    simp [List.zipIdx_map_snd]
  · intro d member
    obtain ⟨row, inside, id, made⟩ := source d member
    simp only [documentOf, bind_eq_ok, orThrow_eq_ok, pure_eq_ok] at made
    obtain ⟨text, encoded, rfl⟩ := made
    obtain ⟨record, read, named, same⟩ := reopens_of_parseLines rows row inside
    simp only [reopen, read, named, if_true, same, Option.bind_some, encoded]
  · intro d member
    obtain ⟨row, -, id, made⟩ := source d member
    simp only [documentOf, bind_eq_ok, orThrow_eq_ok, pure_eq_ok] at made
    obtain ⟨text, -, rfl⟩ := made
    rfl

theorem JsonlCorpus.Sound.byId_eq (sound : corpus.Sound c other)
    (known : 1 ≤ k ∧ k ≤ corpus.documents.length) :
    ∃ d ∈ corpus.documents, d.factId = k ∧ corpus.byId k = some d := by
  have member : k ∈ corpus.documents.map JsonlDocument.factId := by
    rw [sound.numbered, List.mem_range'_1]
    omega
  obtain ⟨d, inside, rfl⟩ := List.mem_map.mp member
  obtain ⟨d', found⟩ : ∃ d', corpus.byId d.factId = some d' :=
    Option.isSome_iff_exists.mp (List.find?_isSome.mpr ⟨d, inside, by simp⟩)
  have same : d'.factId = d.factId := by simpa using List.find?_some found
  exact ⟨d', List.mem_of_find?_eq_some found, same, found⟩

theorem JsonlCorpus.Sound.verify_citation (sound : corpus.Sound c other) {d : JsonlDocument}
    (member : d ∈ corpus.documents) (found : corpus.byId k = some d) {span : Nat × Nat}
    (wide : span.1 < span.2) (inside : span.2 ≤ d.documentText.length) :
    corpus.verify c other ⟨k, d.externalId, d.sourceId, d.documentSha256, span,
      group d.documentText span⟩ = true := by
  have hashed := sound.hashed d member
  simp only [verify, found, ne_eq, not_true_eq_false, or_self, if_false,
    sound.reopened d member, hashed]
  simpa using ⟨wide, inside⟩

/-- A line, and the identity and the text of its record. -/
structure Row where
  raw : List Char
  id : Text
  text : List Char

/-- The line spells, on one line, a record with an identity and a text. -/
structure Row.Legible (other : Spelled → Text) (f : Fields) (r : Row) : Prop where
  reads : ∃ record value, Spelled.read r.raw = some (.obj record) ∧
    record.lookup f.idField = some value ∧ strOf other value = r.id ∧
    chars (decoded other f record) = some r.text
  named : r.id ≠ []
  worded : r.text ≠ []
  unbroken : ∀ ch ∈ r.raw, isBreak ch = false

def written (rows : List Row) : List Char := rows.flatMap fun r => r.raw ++ ['\n']

theorem splitLines_append_newline (unbroken : ∀ ch ∈ line, isBreak ch = false) (rest : List Char) :
    splitLines (line ++ '\n' :: rest) = line :: splitLines rest := by
  induction line with
  | nil => simp [splitLines, splitFrom, isBreak]
  | cons ch line ih =>
    obtain ⟨here, later⟩ := List.forall_mem_cons.mp unbroken
    have onward := ih later
    unfold splitLines at onward
    simp only [splitLines, List.cons_append, splitFrom, Bool.false_eq_true, false_and, if_false,
      here, onward]
    rfl

variable {rows : List Row}

theorem splitLines_written (unbroken : ∀ r ∈ rows, ∀ ch ∈ r.raw, isBreak ch = false) :
    splitLines (written rows) = rows.map Row.raw := by
  induction rows with
  | nil => rfl
  | cons r rows ih =>
    obtain ⟨here, later⟩ := List.forall_mem_cons.mp unbroken
    have onward := ih later
    unfold written at onward ⊢
    rw [List.flatMap_cons, List.append_assoc, List.singleton_append,
      splitLines_append_newline here, onward, List.map_cons]

theorem not_blank_of_read {record : List (Text × Spelled)}
    (read : Spelled.read line = some (.obj record)) : line.all isBlank = false := by
  unfold Spelled.read at read
  cases value : Spelled.readValue (line.length + 1) line with
  | none =>
    rw [value] at read
    cases read
  | some found =>
    obtain ⟨v, rest⟩ := found
    simp only [value, Option.ite_none_right_eq_some, Option.some.injEq] at read
    obtain ⟨-, rfl⟩ := read
    unfold Spelled.readValue at value
    -- Only a brace begins an object.
    have opened : ∃ behind, Json.skipSpace line = '\x7b' :: behind := by
      split at value
      all_goals first
        | exact ⟨_, ‹_›⟩
        | simp [Option.bind_eq_some_iff] at value
      split at value <;> simp [Option.bind_eq_some_iff] at value
    obtain ⟨behind, front⟩ := opened
    have member : '\x7b' ∈ line := (List.dropWhile_sublist _).subset (front ▸ List.mem_cons_self)
    by_contra blank
    exact absurd (List.all_eq_true.mp (Bool.not_eq_false _ ▸ blank) _ member) (by decide)

theorem Row.Legible.parseLine_eq {r : Row} (legible : r.Legible other f) (n : Nat) :
    ∃ row, parseLine other f n r.raw = .ok row ∧
      (row.externalId, row.rawLine, chars row.documentText) = (r.id, r.raw, some r.text) := by
  obtain ⟨record, value, read, found, shown, encoded⟩ := legible.reads
  have words : decoded other f record ≠ [] := by
    intro none
    rw [none] at encoded
    exact legible.worded (Option.some.inj encoded).symm
  have named : strOf other value ≠ [] := shown ▸ legible.named
  refine ⟨⟨strOf other value, n, r.raw, decoded other f record⟩, ?_, ?_⟩
  · simp [parseLine, read, found, require_of (And.intro named words)]
  · rw [shown, encoded]

theorem parseLines_written (legible : ∀ r ∈ rows, r.Legible other f) (n : Nat) :
    ∃ parsed, parseLines other f n (rows.map Row.raw) = .ok parsed ∧
      (parsed.map fun row => (row.externalId, row.rawLine, chars row.documentText)) =
        rows.map fun r => (r.id, r.raw, some r.text) := by
  induction rows generalizing n with
  | nil => exact ⟨[], rfl, rfl⟩
  | cons r rows ih =>
    obtain ⟨here, later⟩ := List.forall_mem_cons.mp legible
    obtain ⟨row, parsed, same⟩ := here.parseLine_eq n
    obtain ⟨others, onward, alike⟩ := ih later (n + 1)
    obtain ⟨record, value, read, -⟩ := here.reads
    refine ⟨row :: others, ?_, by rw [List.map_cons, same, alike, List.map_cons]⟩
    simp [parseLines, not_blank_of_read read, parsed, onward]

theorem JsonlCorpus.make_written (named : sourceId ≠ "") (some_row : rows ≠ [])
    (legible : ∀ r ∈ rows, r.Legible other f) (distinct : (rows.map Row.id).Nodup) :
    ∃ corpus, make c other f sourceId (written rows) = .ok corpus ∧
      (corpus.documents.map fun d => Row.mk d.rawRecord d.externalId d.documentText).Perm
        rows := by
  obtain ⟨parsed, lines, same⟩ := parseLines_written legible 1
  have ids : parsed.map Parsed.externalId = rows.map Row.id := by
    have firsts := congrArg (List.map Prod.fst) same
    simpa [List.map_map, Function.comp_def] using firsts
  have some_parsed : parsed ≠ [] := by
    rintro rfl
    exact some_row (List.map_eq_nil_iff.mp same.symm)
  have content : written rows ≠ [] := by
    obtain ⟨r, others, rfl⟩ := List.exists_cons_of_ne_nil some_row
    simp [written]
  have sorted : ((parsed.insertionSort Parsed.Before).zipIdx 1).map (fun row => row.1) =
      parsed.insertionSort Parsed.Before := List.zipIdx_map_fst 1 _
  have encodes : ∀ row ∈ (parsed.insertionSort Parsed.Before).zipIdx 1,
      ∃ d, documentOf c sourceId row = .ok d := by
    intro row member
    have inside : row.1 ∈ parsed :=
      (List.mem_insertionSort _).mp (List.fst_mem_of_mem_zipIdx member)
    have kept := List.mem_map_of_mem (f := fun row : Parsed =>
      (row.externalId, row.rawLine, chars row.documentText)) inside
    rw [same] at kept
    obtain ⟨r, -, alike⟩ := List.mem_map.mp kept
    have encoded : chars row.1.documentText = some r.text := by
      simpa using (congrArg (fun x => x.2.2) alike).symm
    exact ⟨_, by simp only [documentOf, encoded, orThrow_some, ok_bind]; rfl⟩
  obtain ⟨documents, each⟩ := exists_mapM_ok encodes
  refine ⟨⟨f, documents⟩, ?_, ?_⟩
  · simp only [make, require_of (And.intro named content), ok_bind,
      splitLines_written fun r member => (legible r member).unbroken, lines,
      require_of (And.intro some_parsed (ids ▸ distinct)), each]
    rfl
  · have values := (map_of_mapM_documentOf each).2
    have perm : (documents.map fun d =>
        (d.externalId, d.rawRecord, some d.documentText)).Perm
        (rows.map fun r => (r.id, r.raw, some r.text)) := by
      rw [values, ← same]
      have unnumbered : ((parsed.insertionSort Parsed.Before).zipIdx 1).map (fun row =>
          (row.1.externalId, row.1.rawLine, chars row.1.documentText)) =
          (parsed.insertionSort Parsed.Before).map fun row =>
            (row.externalId, row.rawLine, chars row.documentText) := by
        conv_rhs => rw [← sorted, List.map_map]
        rfl
      rw [unnumbered]
      exact (List.perm_insertionSort _ _).map _
    have back := perm.map fun x => Row.mk x.2.1 x.1 (x.2.2.getD [])
    simpa [List.map_map, Function.comp_def] using back

end

end ProofRay.JsonlEvidence
