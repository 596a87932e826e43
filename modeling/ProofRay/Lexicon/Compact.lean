/- The compact part-of-speech lexicon: the builder of the file from the rows of the table, and the
   reader that looks a surface up in it. -/

import ProofRay.Lib.CodePoints
import ProofRay.Lib.FrontCoded
import ProofRay.Sidecar.Facts
import Mathlib.Data.List.DropRight
import Mathlib.Data.List.Infix

namespace ProofRay.Lexicon

open Engine (Bytes Crypto PyError ascii structPack)
open Lib.Guard
open Lib.Struct (Field unpackFrom size)
open Lib.CodePoints
open Lib.FrontCoded
open Sidecar (hexText)

/-- `text.encode("utf-8")`. -/
def encodeText (text : Text) : Except PyError Bytes :=
  orThrow (utf8 text) (.valueError "surrogates not allowed")

/-- `raw.decode("utf-8")`. -/
def decodeText (raw : Bytes) : Except PyError Text :=
  orThrow (ofUtf8 raw) (.valueError "invalid utf-8")

theorem decodeText_of_encodeText {text : Text} {raw : Bytes} (h : encodeText text = .ok raw) :
    decodeText raw = .ok text := by
  rw [encodeText, orThrow_eq_ok] at h
  rw [decodeText, orThrow_eq_ok, ofUtf8_of_utf8 h]

/-- The lines of a text stream opened with `newline=""`: each keeps the `"\n"`, `"\r"` or `"\r\n"`
that ends it. -/
def lines (line : Text) : Text → List Text
  | [] => if line = [] then [] else [line]
  | 13 :: 10 :: rest => (line ++ [13, 10]) :: lines [] rest
  | c :: rest =>
    if c = 10 ∨ c = 13 then (line ++ [c]) :: lines [] rest
    else lines (line ++ [c]) rest

/-- `line.rstrip("\n")`. -/
def rstripNewline (line : Text) : Text := line.rdropWhile (· == 10)

inductive MorphClass where
  | unknown
  | content
  | nominal
  | predicate
  | aux
  | adv
  | det
  | clitic
  | rel
  | adposition
  | coordinator
  | punct
  | modifier
  | numeric
  | subordinator
  deriving DecidableEq, Repr

def MorphClass.all : List MorphClass :=
  [.unknown, .content, .nominal, .predicate, .aux, .adv, .det, .clitic, .rel, .adposition,
    .coordinator, .punct, .modifier, .numeric, .subordinator]

/-- `_CLASS_BITS`. -/
def classBit (item : MorphClass) : Nat := 1 <<< MorphClass.all.idxOf item

/-- `_POS_CLASSES`. -/
def posClasses : List (String × List MorphClass) :=
  [("ADJ", [.modifier]), ("ADP", [.adposition]), ("ADV", [.adv]), ("AUX", [.aux]),
    ("CCONJ", [.coordinator]), ("DET", [.det]), ("NOUN", [.nominal]), ("NUM", [.numeric]),
    ("PROPN", [.nominal]), ("PRON", []), ("PUNCT", [.punct]), ("SCONJ", [.subordinator]),
    ("SYM", [.content]), ("VERB", [.predicate])]

/-- The set of classes `_mask` adds up. -/
def classesOf (pos features : Text) : List MorphClass :=
  let listed := match posClasses.find? fun item => literal item.1 = pos with
    | some item => item.2
    | none => [.content]
  if pos = literal "PRON" then
    let classes := listed ++ [.nominal]
    let classes :=
      if literal "PronType=Rel" <:+: features then classes ++ [.rel] else classes
    if literal "Case=Acc" <:+: features ∨ literal "Case=Dat" <:+: features then
      classes ++ [.clitic]
    else classes
  else listed

/-- `_mask`. -/
def mask (pos features : Text) : Nat := ((classesOf pos features).dedup.map classBit).sum

/-- The fields of a row the builder reads. -/
structure Row where
  surface : Text
  pos : Text
  features : Text
  deriving DecidableEq, Repr

def Row.mask (r : Row) : Nat := Lexicon.mask r.pos r.features

def row (lineNumber : Nat) (line : Text) : Except PyError Row :=
  match (rstripNewline line).splitOn 9 with
  | [surface, _, pos, features] => .ok ⟨surface, pos, features⟩
  | _ => .error (.valueError s!"invalid PortiLexicon row {lineNumber}")

/-- The rows of the lines, numbered from `lineNumber`. -/
def rows : Nat → List Text → Except PyError (List Row)
  | _, [] => .ok []
  | lineNumber, line :: rest => do
    let r ← row lineNumber line
    let others ← rows (lineNumber + 1) rest
    pure (r :: others)

/-- The locals of `_group_rows` between two lines. -/
structure Group where
  current : Option Text
  union : Nat
  deriving DecidableEq, Repr

/-- The pair a later `yield` gives. -/
def Group.pair (g : Group) : Option (Text × Nat) := g.current.map fun surface => (surface, g.union)

/-- One turn of the loop of `_group_rows`: the locals after it and what it yields. -/
def Group.feed (casefold : Text → Text) (g : Group) (lineNumber : Nat) (line : Text) :
    Except PyError (Group × Option (Text × Nat)) := do
  let r ← row lineNumber line
  let normalized := casefold r.surface
  require (∀ current ∈ g.current, ¬ normalized < current)
    (.valueError "PortiLexicon input is not canonically sorted")
  if g.current = some normalized then
    pure (⟨g.current, g.union ||| r.mask⟩, none)
  else
    pure (⟨some normalized, 0 ||| r.mask⟩, g.pair)

def magic : Bytes := ascii "HPTLEX1" ++ [0]

def version : Nat := 1

def blockSize : Nat := 64

/-- `struct.Struct("<8sHHIQ32sQ")`. -/
def headerFields : List Field :=
  [.bytes 8, Field.u16, Field.u16, Field.u32, Field.u64, .bytes 32, Field.u64]

/-- `struct.Struct("<QH")`. -/
def blockFields : List Field := [Field.u64, Field.u16]

/-- `struct.Struct("<HHH")`. -/
def entryFields : List Field := [Field.u16, Field.u16, Field.u16]

def entryBytes (previous surface : Text) (mask : Nat) : Except PyError Bytes := do
  let beginning := shared 0xFFFF previous surface
  let suffix ← encodeText (surface.drop beginning)
  require (¬ (suffix.length > 0xFFFF ∨ mask > 0xFFFF))
    (.valueError "compact lexicon field exceeds format")
  let fields ← structPack entryFields (beginning, suffix.length, mask, ())
  pure (fields ++ suffix)

/-- The locals of the builder between two groups. -/
structure Builder where
  blocks : List (Text × Nat)
  entryCount : Nat
  data : Bytes
  previous : Text
  deriving DecidableEq, Repr

def Builder.empty : Builder := ⟨[], 0, [], []⟩

def Builder.put (b : Builder) (item : Text × Nat) : Except PyError Builder := do
  let blocks :=
    if b.entryCount % blockSize = 0 then b.blocks ++ [(item.1, b.data.length)] else b.blocks
  let previous := if b.entryCount % blockSize = 0 then [] else b.previous
  let entry ← entryBytes previous item.1 item.2
  pure ⟨blocks, b.entryCount + 1, b.data ++ entry, item.1⟩

def Builder.putYielded (b : Builder) : Option (Text × Nat) → Except PyError Builder
  | none => pure b
  | some item => b.put item

/-- The loop over what `_group_rows` yields; a line is read when the group before it is written. -/
def consume (casefold : Text → Text) (g : Group) (b : Builder) :
    Nat → List Text → Except PyError Builder
  | _, [] => b.putYielded g.pair
  | lineNumber, line :: rest => do
    let fed ← g.feed casefold lineNumber line
    let b ← b.putYielded fed.2
    consume casefold fed.1 b (lineNumber + 1) rest

def writeAll : List (Except PyError Bytes) → Bytes × Except PyError Unit
  | [] => ([], .ok ())
  | .error e :: _ => ([], .error e)
  | .ok chunk :: rest => (chunk ++ (writeAll rest).1, (writeAll rest).2)

def tableBytes (blocks : List (Text × Nat)) : Except PyError Nat := do
  let keys ← blocks.mapM fun block => encodeText block.1
  pure (keys.map fun raw => size blockFields + raw.length).sum

def blockWrites (block : Text × Nat) : List (Except PyError Bytes) :=
  [do let raw ← encodeText block.1
      structPack blockFields ((block.2 : Int), (raw.length : Int), ()),
    encodeText block.1]

def writes (b : Builder) (sourceSha : Bytes) (table : Nat) : List (Except PyError Bytes) :=
  structPack headerFields
    (magic, (version : Int), (blockSize : Int), (b.blocks.length : Int), (b.entryCount : Int),
      sourceSha, (table : Int), ()) ::
  b.blocks.flatMap blockWrites ++ [.ok b.data]

/-- What the builder returns. -/
structure Report where
  entries : Nat
  blocks : Nat
  dataBytes : Nat
  fileBytes : Nat
  sourceSha256 : String
  artifactSha256 : String
  deriving DecidableEq, Repr

/-- A call of the builder: what it wrote to the output, which it opens last, and what it returns. -/
structure Build where
  written : Option Bytes
  result : Except PyError Report

/-- What the builder computes before it opens the output.  The table is decoded as a whole here and
in pieces by the stream, so a line before undecodable bytes can be refused first there. -/
def prepare (casefold : Text → Text) (tsv : Bytes) : Except PyError (Builder × Nat) := do
  let text ← decodeText tsv
  let b ← consume casefold ⟨none, 0⟩ .empty 1 (lines [] text)
  let table ← tableBytes b.blocks
  pure (b, table)

/-- `build_compact_portilexicon`. -/
def buildCompactPortilexicon (c : Crypto) (casefold : Text → Text) (tsv : Bytes) : Build :=
  let sourceSha := c.sha256 tsv
  match prepare casefold tsv with
  | .error e => ⟨none, .error e⟩
  | .ok (b, table) =>
    let output := writeAll (writes b sourceSha table)
    ⟨some output.1, do
      output.2
      pure ⟨b.entryCount, b.blocks.length, b.data.length, output.1.length, hexText sourceSha,
        hexText (c.sha256 output.1)⟩⟩

/-- A reader over an open file. -/
structure CompactPortiLexicon where
  file : Bytes
  entryCount : Nat
  artifactSha256 : String
  sourceSha256 : String
  keys : List Text
  offsets : List Nat
  deriving DecidableEq, Repr

def slice (file : Bytes) (start stop : Nat) : Bytes := (file.take stop).drop start

/-- The fields of a header. -/
structure Header where
  magic : Bytes
  version : Nat
  blockSize : Nat
  blocks : Nat
  entryCount : Nat
  sourceSha : Bytes
  tableBytes : Nat
  deriving DecidableEq, Repr

/-- `_HEADER.unpack_from`. -/
def readHeader (file : Bytes) : Except PyError Header := do
  let fields ← orThrow (unpackFrom headerFields file 0) .structError
  let (magic, version, blockSize, blocks, entryCount, sourceSha, tableBytes, _) := fields
  pure ⟨magic, version.toNat, blockSize.toNat, blocks.toNat, entryCount.toNat, sourceSha,
    tableBytes.toNat⟩

/-- `_BLOCK.unpack_from`: the offset of a block and the length of its key. -/
def readBlock (file : Bytes) (cursor : Nat) : Except PyError (Nat × Nat) := do
  let fields ← orThrow (unpackFrom blockFields file cursor) .structError
  pure (fields.1.toNat, fields.2.1.toNat)

/-- `_ENTRY.unpack_from`: how much is shared, the length of the rest, and the mask. -/
def readEntry (file : Bytes) (cursor : Nat) : Except PyError (Nat × Nat × Nat) := do
  let fields ← orThrow (unpackFrom entryFields file cursor) .structError
  pure (fields.1.toNat, fields.2.1.toNat, fields.2.2.1.toNat)

def readTable (file : Bytes) (dataStart : Nat) :
    Nat → Nat → Except PyError (List Text × List Nat × Nat)
  | 0, cursor => pure ([], [], cursor)
  | count + 1, cursor => do
    let (offset, keyLength) ← readBlock file cursor
    let start := cursor + size blockFields
    let stop := start + keyLength
    let key ← decodeText (slice file start stop)
    let others ← readTable file dataStart count stop
    pure (key :: others.1, (dataStart + offset) :: others.2.1, others.2.2)

/-- `CompactPortiLexicon.__init__`; an empty file cannot be mapped. -/
def CompactPortiLexicon.make (c : Crypto) (file : Bytes) (expectedSourceSha256 : Option String) :
    Except PyError CompactPortiLexicon := do
  require (file ≠ []) (.valueError "cannot mmap an empty file")
  require (¬ file.length < size headerFields) (.valueError "truncated compact lexicon")
  let header ← readHeader file
  require (¬ (header.magic ≠ magic ∨ header.version ≠ version ∨ header.blockSize ≠ blockSize))
    (.valueError "incompatible compact lexicon")
  require (∀ expected ∈ expectedSourceSha256,
      ¬ (expected ≠ "" ∧ hexText header.sourceSha ≠ expected))
    (.valueError "PortiLexicon source authority mismatch")
  let dataStart := size headerFields + header.tableBytes
  let (keys, offsets, cursor) ← readTable file dataStart header.blocks (size headerFields)
  require (¬ (cursor ≠ dataStart ∨ offsets ≠ offsets.insertionSort (· ≤ ·)))
    (.valueError "invalid compact lexicon table")
  pure ⟨file, header.entryCount, hexText (c.sha256 file), hexText header.sourceSha, keys, offsets⟩

/-- The loop of `lookup_mask`; every turn moves the cursor, so the bytes before `stop` are turns
enough. -/
def walk (file : Bytes) (target : Text) (stop : Nat) : Nat → Nat → Text → Except PyError Nat
  | 0, _, _ => pure 0
  | fuel + 1, cursor, previous =>
    if cursor < stop then do
      let (beginning, suffixLength, mask) ← readEntry file cursor
      let start := cursor + size entryFields
      let next := start + suffixLength
      let suffix ← decodeText (slice file start next)
      let word := previous.take beginning ++ suffix
      if word = target then pure mask
      else if target < word then pure 0
      else walk file target stop fuel next word
    else pure 0

/-- `CompactPortiLexicon.lookup_mask`. -/
def CompactPortiLexicon.lookupMask (lexicon : CompactPortiLexicon) (casefold : Text → Text)
    (surface : Text) : Except PyError Nat :=
  let target := casefold surface
  match Lib.bisectRight lexicon.keys target with
  | 0 => pure 0
  | block + 1 =>
    let cursor := lexicon.offsets.getD block 0
    let stop := lexicon.offsets.getD (block + 1) lexicon.file.length
    walk lexicon.file target stop (stop - cursor) cursor []

end ProofRay.Lexicon
