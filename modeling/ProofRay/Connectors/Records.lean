/- A connector row mapped to a document: the identity of the row, the checks of each column, and the
   document they give. -/

import ProofRay.Connectors.Values
import ProofRay.Engine.Basis

namespace ProofRay.Connectors

open Engine (Crypto)
open Lib (Dict)
open Lib.CodePoints
open Lib.Guard
open Lib.IsoFormat
open Lib.Struct (Bytes)

def Named (field : Option Text) : Prop := ∀ name ∈ field, name ≠ []

/-- Which columns of a namespace are read as what. -/
structure DocumentMapping where
  namespace_ : Text
  idField : Text
  textField : Text
  sourceField : Option Text
  sessionField : Option Text
  sequenceField : Option Text
  eventTimeField : Option Text
  roleField : Option Text
  speakerField : Option Text
  versionField : Option Text
  scopeId : Nat
  required : namespace_ ≠ [] ∧ idField ≠ [] ∧ textField ≠ []
  named : Named sourceField ∧ Named sessionField ∧ Named sequenceField ∧ Named eventTimeField ∧
    Named roleField ∧ Named speakerField ∧ Named versionField
  inScope : scopeId < 2 ^ 32

/-- `MappedDocument`. -/
structure MappedDocument where
  factId : Nat
  text : Text
  scopeId : Nat
  sessionId : Text
  version : Int
  source : Text
  sequence : Option Int
  eventTime : Option Nat
  role : Option Text
  speaker : Option Text
  sourcePrimaryKey : Text
  contentSha256 : Text
  deriving DecidableEq, Repr

abbrev Row (F : Type) := Dict Text (Value F)

/-- `text.encode("utf-8")`, and `text.encode("ascii")` of ASCII text. -/
def encodeText (text : Text) : Except Raised Bytes :=
  orThrow (utf8 text) (.invalid "surrogates not allowed")

variable {F : Type} (py : Interpreter F) (c : Crypto)

/-- `_canonical_primary_key`. -/
def canonicalPrimaryKey : Value F → Except Raised Bytes
  | .bool b => encodeText (literal "bool:" ++ if b then literal "1" else literal "0")
  | .int n => do
    let digits ← py.intText n
    encodeText (literal "int:" ++ digits)
  | .decimal d => do
    require (d.isFinite = true) (.invalid "primary-key decimal must be finite")
    encodeText (literal "decimal:" ++ ofChars d.number.text)
  | .float x => do
    require (py.floatIsFinite x = true) (.invalid "primary-key float must be finite")
    encodeText (literal "float:" ++ py.floatHex x)
  | .text s => encodeText (literal "text:" ++ s)
  | .bytes raw => do
    let tag ← encodeText (literal "bytes:")
    pure (tag ++ raw)
  | .datetime t => encodeText (literal "datetime:" ++ ofChars (momentText 'T' t.moment))
  | .date d => encodeText (literal "date:" ++ ofChars (dateText d))
  | _ => .error (.invalid "primary key must be a deterministic database scalar")

/-- `int.from_bytes(raw, "big")`. -/
def bigEndian (raw : Bytes) : Nat := raw.foldl (fun n x => 256 * n + x.toNat) 0

/-- `stable_connector_fact_id`. -/
def stableConnectorFactId (connectorId namespace_ : Text) (primaryKey : Value F) :
    Except Raised Nat := do
  require (connectorId ≠ [] ∧ namespace_ ≠ [])
    (.invalid "connector and namespace identities are required")
  let connector ← encodeText connectorId
  let space ← encodeText namespace_
  let key ← canonicalPrimaryKey py primaryKey
  pure (bigEndian ((c.sha256 (connector ++ [0] ++ space ++ [0] ++ key)).take 8) % 2 ^ 62)

/-- `_required`. -/
def required (row : Row F) (field : Text) : Except Raised (Value F) :=
  match row.get field with
  | none => .error (.absent field)
  | some .none => .error (.absent field)
  | some value => transportScalar py value

/-- `_optional`, with the value `None` for a column that is not mapped or not there. -/
def optional (row : Row F) : Option Text → Except Raised (Value F)
  | none => pure .none
  | some field => transportScalar py ((row.get field).getD .none)

/-- `len(text.encode("utf-8")) > limit` raises. -/
def within (limit : Nat) (text : Text) (message : String) : Except Raised Unit := do
  let raw ← encodeText text
  require (¬ limit < raw.length) (.invalid message)

/-- `str` of the primary key. -/
def primaryKeyText (value : Value F) : Except Raised Text := do
  let text ← strValue py value
  require (text ≠ []) (.invalid "mapped primary key is empty or too large")
  within 512 text "mapped primary key is empty or too large"
  pure text

/-- `MAX_MAPPED_TEXT_BYTES`. -/
def maxMappedTextBytes : Nat := 128 * 1024

def documentText : Value F → Except Raised Text
  | .text s => do
    require (py.strip s ≠ []) (.invalid "mapped document text is empty or too large")
    within maxMappedTextBytes s "mapped document text is empty or too large"
    pure s
  | _ => .error (.invalid "mapped document text must already be exact source text")

def sourceComponent : Value F → Except Raised (Option Text)
  | .none => pure none
  | value => do
    let text ← strValue py value
    require (text ≠ []) (.invalid "mapped source identity is empty or too large")
    within 512 text "mapped source identity is empty or too large"
    pure (some text)

def sessionText (namespace_ : Text) (value : Value F) : Except Raised Text := do
  let text ← match value with
    | .none => pure namespace_
    | value => strValue py value
  require (text ≠ []) (.invalid "mapped session identity is empty or too large")
  within 256 text "mapped session identity is empty or too large"
  pure text

def roles : List Text := [literal "user", literal "assistant", literal "system", literal "tool"]

def roleText : Value F → Except Raised (Option Text)
  | .none => pure none
  | value => do
    let text ← strValue py value
    require (py.casefold text ∈ roles) (.invalid "mapped role is outside the closed transport enum")
    pure (some (py.casefold text))

def speakerText : Value F → Except Raised (Option Text)
  | .none => pure none
  | value => do
    let text ← strValue py value
    if py.strip text = [] then pure none
    else do
      within 256 (py.strip text) "mapped speaker is too large"
      pure (some (py.strip text))

/-- `int(value)`, with the exceptions `_integer` turns into its own. -/
def toInteger : Value F → Except Raised Int
  | .int n => pure n
  | .float x => py.floatToInt x
  | .decimal d => d.toInt
  | .text s => orThrow (py.intOfText s) (.invalid "invalid integer coordinate")
  | .bytes raw => orThrow (py.intOfBytes raw) (.invalid "invalid integer coordinate")
  | _ => .error (.invalid "invalid integer coordinate")

/-- `_integer`. -/
def integer (default : Option Int) (minimum : Int) : Value F → Except Raised (Option Int)
  | .none => pure default
  | .bool _ => .error (.invalid "boolean is not an integer coordinate")
  | value => do
    let result ← toInteger py value
    require (¬ result < minimum) (.invalid "integer coordinate is outside its domain")
    pure (some result)

/-- `_event_day`. -/
def eventDay : Value F → Except Raised (Option Nat)
  | .none => pure none
  | .datetime t => pure (some t.moment.date.ordinal)
  | .date d => pure (some d.ordinal)
  | .int n => do
    let day ← py.timestampDay (.inl n)
    pure (some day)
  | .float x => do
    let day ← py.timestampDay (.inr (.inl x))
    pure (some day)
  | .decimal d => do
    let day ← py.timestampDay (.inr (.inr d))
    pure (some day)
  | .text s =>
    match py.dateTimeOfText (replaceZulu s), py.dateOfText s with
    | some t, _ => pure (some t.moment.date.ordinal)
    | none, some d => pure (some d.ordinal)
    | none, none =>
      .error (.invalid "event time must be an ISO date/datetime or Unix timestamp")
  | _ => .error (.invalid "event time must be an ISO date/datetime or Unix timestamp")

def sourceIdentity (connectorId namespace_ primaryKey : Text) : Option Text → Text
  | some component => literal "connector:" ++ connectorId ++ literal ":" ++ component
  | none =>
    literal "connector:" ++ connectorId ++ literal ":" ++ namespace_ ++ literal ":" ++ primaryKey

/-- `map_record`, of which a configuration gives the identity of the connector. -/
def mapRecord (connectorId : Text) (mapping : DocumentMapping) (row : Row F) :
    Except Raised MappedDocument := do
  let primaryValue ← required py row mapping.idField
  let factId ← stableConnectorFactId py c connectorId mapping.namespace_ primaryValue
  let primaryKey ← primaryKeyText py primaryValue
  let textValue ← required py row mapping.textField
  let text ← documentText py textValue
  let sourceValue ← optional py row mapping.sourceField
  let component ← sourceComponent py sourceValue
  let source := sourceIdentity connectorId mapping.namespace_ primaryKey component
  let sessionValue ← optional py row mapping.sessionField
  let session ← sessionText py mapping.namespace_ sessionValue
  let roleValue ← optional py row mapping.roleField
  let role ← roleText py roleValue
  let speakerValue ← optional py row mapping.speakerField
  let speaker ← speakerText py speakerValue
  let versionValue ← optional py row mapping.versionField
  let version ← integer py (some 1) 1 versionValue
  let sequenceValue ← optional py row mapping.sequenceField
  let sequence ← integer py none 0 sequenceValue
  let raw ← encodeText text
  let eventValue ← optional py row mapping.eventTimeField
  let eventTime ← eventDay py eventValue
  pure ⟨factId, text, mapping.scopeId, session, version.getD 1, source, sequence, eventTime, role,
    speaker, primaryKey, hex (c.sha256 raw)⟩

/-- `_json_value(row)`. -/
def jsonRow (row : Row F) : Except Raised (Row F) := do
  let pairs ← row.items.mapM fun item => do
    let safe ← jsonValue py item.2
    pure (item.1, safe)
  pure (Dict.empty.update pairs)

/-- The document `preview` shows for a row. -/
def preview (connectorId : Text) (mapping : DocumentMapping) (row : Row F) :
    Except Raised MappedDocument := do
  let safe ← jsonRow py row
  mapRecord py c connectorId mapping safe

end ProofRay.Connectors
