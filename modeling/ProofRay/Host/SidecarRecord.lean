/- One record of the sidecar table under the two checks it meets, that of the store and that of the
   ledger that loads it. -/

import ProofRay.Host.Canonical
import ProofRay.Sidecar.Facts

namespace ProofRay.Host

open Engine (Bytes Crypto)
open Lib (Dict Spelled Text)
open Lib.Guard
open Sidecar (decode encode hexSha256)

/-- Why a record is refused: the message of a check, or an exception of the decoder or of the
encoder. -/
inductive Refusal where
  | message (text : String)
  | unreadable
  | unwritable
  deriving DecidableEq, Repr

abbrev Fields := List (Text × Spelled)

def asObject : Spelled → Option Fields
  | .obj fields => some fields
  | _ => none

def asText : Spelled → Option Text
  | .str t => some t
  | _ => none

def field (fields : Fields) (key : String) : Option Spelled :=
  Dict.lookupEntry (Text.ofString key) fields

def textField (fields : Fields) (key : String) : Option Text := (field fields key).bind asText

def without (key : String) (fields : Fields) : Fields :=
  fields.filter fun p => p.1 ≠ Text.ofString key

def textSha256 (c : Crypto) (text : List Char) : String := hexSha256 c (encode (String.ofList text))

def recordSchema : Text := .ofString "horizon.authorized-sidecar-batch.v1"

/-- `utf8.decode`: a byte order mark at the start is dropped. -/
def utf8Decode (payload : Bytes) : Option (List Char) :=
  (decode payload).map fun text =>
    match text.toList with
    | '\ufeff' :: rest => rest
    | text => text

/-- A value is this whole number: an `int`, or a `double` of the same value. -/
def dartIs (n : Nat) : Spelled → Bool
  | .number literal =>
    if isWhole literal ∧ InInt64 (wholeValue literal) then wholeValue literal = n
    else (double literal).any fun x => x.isNat n
  | _ => false

/-- `_ValidatedSidecarRecord`. -/
structure ValidatedSidecarRecord where
  sequence : Nat
  previousSha256 : String
  recordSha256 : String
  payload : Bytes
  messageId : Option Text
  memorySourceId : Option Text
  deriving DecidableEq

def messageParts (sourceId : Text) : Option (Text × Text) :=
  match sourceId.splitOn (.char ':') with
  | [kind, conversation, message] =>
    if kind = Text.ofString "message" ∧ conversation ≠ [] ∧ message ≠ [] then
      some (conversation, message)
    else none
  | _ => none

/-- `_validateSidecarRecord`. -/
def validateSidecarRecord (c : Crypto) (payload : Bytes) (expectedSequence : Nat)
    (expectedPrevious : String) : Except Refusal ValidatedSidecarRecord := do
  let text ← orThrow (utf8Decode payload) .unreadable
  let decoded ← orThrow (Spelled.read text) .unreadable
  let fields ← orThrow (asObject decoded) (.message "sidecar record must be an object")
  let record := without "record_sha256" fields
  let broken := Refusal.message "sidecar record chain or digest is invalid"
  let claimed ← orThrow (field fields "record_sha256") broken
  require (textField record "schema" = some recordSchema) broken
  require ((field record "sequence").any (dartIs expectedSequence)) broken
  require (textField record "previous_sha256" = some (.ofString expectedPrevious)) broken
  let claimed ← orThrow (asText claimed) broken
  let unsigned ← orThrow (dart.write (.obj record)) .unwritable
  require (claimed = .ofString (textSha256 c unsigned)) broken
  let written ← orThrow
    (dart.write (.obj (record ++ [(.ofString "record_sha256", .str claimed)]))) .unwritable
  require (written = text) (.message "sidecar record bytes are not canonical")
  let message := (textField record "source_id").bind messageParts
  return {
    sequence := expectedSequence
    previousSha256 := expectedPrevious
    recordSha256 := textSha256 c unsigned
    payload
    messageId := message.map fun parts => parts.2
    memorySourceId := message.map fun parts =>
      .ofString "conversation:" ++ parts.1 ++ .ofString ":" ++ parts.2 }

/-- A value is this whole number: an `int`, a `float` of the same value, or a `bool`, which counts
as zero or one. -/
def pythonIs (n : Nat) : Spelled → Bool
  | .number literal =>
    if isWhole literal then wholeValue literal = n else (double literal).any fun x => x.isNat n
  | .bool b => b.toNat = n
  | _ => false

/-- One turn of the loop of `_read_records`: the digest of the record and its fields. -/
def readRecord (c : Crypto) (sequence : Nat) (previous : String) (raw : Bytes) :
    Except Refusal (String × Fields) := do
  require (raw ≠ []) (.message "durable sidecar ledger contains a truncated record")
  let invalid := Refusal.message "durable sidecar ledger contains invalid JSON"
  let line ← orThrow (decode raw) invalid
  let value ← orThrow (Spelled.read line.toList) invalid
  let fields ← orThrow (asObject value) (.message "durable sidecar record must be an object")
  let record := without "record_sha256" fields
  let broken := Refusal.message "durable sidecar ledger chain or digest is invalid"
  require (textField record "schema" = some recordSchema) broken
  require ((field record "sequence").any (pythonIs sequence)) broken
  require (textField record "previous_sha256" = some (.ofString previous)) broken
  let unsigned ← orThrow (python.write (.obj record)) .unwritable
  let claimed := textSha256 c unsigned
  require (textField fields "record_sha256" = some (.ofString claimed)) broken
  return (claimed, record ++ [(.ofString "record_sha256", .str (.ofString claimed))])

end ProofRay.Host
