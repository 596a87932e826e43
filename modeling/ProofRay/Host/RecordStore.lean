/- The record store of the ledger over the database of the host: its requests and their answers as
   frames of one bridge. -/

import ProofRay.Host.Store

namespace ProofRay.Host

open Engine (Bytes Crypto)
open Lib (Json)
open Lib.Guard
open Sidecar (encode hexSha256)

inductive HostRequest where
  | load (afterSequence limit : Nat)
  | replaceSuffix (commonPrefix : Nat) (commonPrefixSha256 : String) (records : List (List Char))
  | replaceBegin (plan : ReplacementPlan)
  | replaceChunk (chunk : ReplacementChunk)
  | replaceCommit (transactionId : String)
  deriving DecidableEq

inductive HostResponse where
  | page (page : SidecarPage)
  | committed
  | staged
  deriving DecidableEq

/-- `store_key`. -/
def storeKey : String := "personal-memory-v1"

namespace HostRequest

def method : HostRequest → String
  | .load _ _ => "sidecar.load"
  | .replaceSuffix _ _ _ => "sidecar.replace_suffix"
  | .replaceBegin _ => "sidecar.replace_begin"
  | .replaceChunk _ => "sidecar.replace_chunk"
  | .replaceCommit _ => "sidecar.replace_commit"

def texts (records : List (List Char)) : Json := .arr (records.map fun r => .str (String.ofList r))

def payload : HostRequest → Json
  | .load afterSequence limit => .obj [
    ("store_key", .str storeKey),
    ("after_sequence", .int afterSequence),
    ("limit", .int limit)]
  | .replaceSuffix commonPrefix commonPrefixSha256 records => .obj [
    ("store_key", .str storeKey),
    ("common_prefix", .int commonPrefix),
    ("common_prefix_sha256", .str commonPrefixSha256),
    ("records", texts records)]
  | .replaceBegin plan => .obj [
    ("store_key", .str storeKey),
    ("transaction_id", .str plan.transactionId),
    ("common_prefix", .int plan.commonPrefix),
    ("common_prefix_sha256", .str plan.commonPrefixSha256),
    ("total_records", .int plan.totalRecords)]
  | .replaceChunk chunk => .obj [
    ("store_key", .str storeKey),
    ("transaction_id", .str chunk.transactionId),
    ("chunk_index", .int chunk.chunkIndex),
    ("records", texts chunk.encodedRecords)]
  | .replaceCommit transactionId => .obj [
    ("store_key", .str storeKey),
    ("transaction_id", .str transactionId)]

end HostRequest

def HostResponse.payload : HostResponse → Json
  | .page answer => .obj [
    ("records", HostRequest.texts answer.records),
    ("complete", .bool answer.complete)]
  | .committed => .obj [("committed", .bool true)]
  | .staged => .obj [("staged", .bool true)]

/-- `MAX_FRAME_BYTES`, and `proofRayBridgeMaxFrameBytes`. -/
def maxFrameBytes : Nat := 1024 * 1024

/-- `BRIDGE_SCHEMA`. -/
def bridgeSchema : String := "proofray.app.bridge.v1"

/-- The sixteen random bytes of a request id. -/
structure Token where
  digits : List Char
  length : digits.length = 32
  hex : ∀ c ∈ digits, c ∈ "0123456789abcdef".toList

def Token.requestId (token : Token) : String := String.ofList ("host_".toList ++ token.digits)

def frame (text : List Char) : Bytes := encode (String.ofList (text ++ ['\n']))

/-- `BridgeEvent.encode` of a request, before its size is checked. -/
def requestFrame (token : Token) (request : HostRequest) : Bytes :=
  frame (Json.dumps (.obj [
    ("schema", .str bridgeSchema),
    ("request_id", .str token.requestId),
    ("event", .str "host.request"),
    ("payload", .obj [
      ("method", .str request.method),
      ("payload", request.payload)])]))

/-- `BridgeRequest.encode` of an answer, before its size is checked. -/
def responseFrame (token : Token) (response : HostResponse) : Bytes :=
  frame (Json.compact (.obj [
    ("schema", .str bridgeSchema),
    ("request_id", .str token.requestId),
    ("method", .str "host.response"),
    ("payload", .obj [
      ("ok", .bool true),
      ("payload", response.payload)])]))

/-- Why a call of the host fails. -/
inductive CallFailure where
  /-- The request does not fit a frame. -/
  | eventSize
  /-- `host rejected persistence request`. -/
  | rejected
  /-- No answer came: the answer did not fit a frame. -/
  | timedOut
  /-- What the record store raises about an answer. -/
  | store (message : String)
  deriving DecidableEq

/-- `handleHostRequest`. -/
def handleHostRequest (c : Crypto) (db : Database) : HostRequest →
    Except Refusal (HostResponse × Database)
  | .load afterSequence limit => do
    let page ← loadSidecarPage db afterSequence limit
    return (.page page, db)
  | .replaceSuffix commonPrefix commonPrefixSha256 records => do
    let db ← replaceSidecarSuffix c db commonPrefix commonPrefixSha256 records
    return (.committed, db)
  | .replaceBegin plan => do
    let db ← beginSidecarReplacement db plan
    return (.staged, db)
  | .replaceChunk chunk => do
    let db ← stageSidecarReplacementChunk db chunk
    return (.staged, db)
  | .replaceCommit transactionId => do
    let db ← commitSidecarReplacement c db transactionId
    return (.committed, db)

/-- `HostCallBroker.call`: the answer of the host, and the database after it. -/
def callHost (c : Crypto) (token : Token) (db : Database) (request : HostRequest) :
    Except CallFailure HostResponse × Database :=
  if (requestFrame token request).length ≤ maxFrameBytes then
    match handleHostRequest c db request with
    | .error _ => (.error .rejected, db)
    | .ok (response, db) =>
      if (responseFrame token response).length ≤ maxFrameBytes then (.ok response, db)
      else (.error .timedOut, db)
  else (.error .eventSize, db)

/-- `page_size`. -/
def pageSize : Nat := 128

/-- The rounds of `load`, from a cursor on. -/
def loadPages (c : Crypto) (token : Token) (db : Database) :
    Nat → Nat → Except CallFailure (List Bytes)
  | 0, _ => .error (.store "")
  | fuel + 1, cursor =>
    match (callHost c token db (.load cursor pageSize)).1 with
    | .error failure => .error failure
    | .ok (.page page) => do
      let rows ← page.records.mapM fun item => orThrow (Lib.Base64.decode item)
        (.store "host returned invalid sidecar bytes")
      require (∀ row ∈ rows, row ≠ []) (.store "host returned an empty sidecar record")
      if page.complete then return rows
      else do
        require (rows ≠ []) (.store "host sidecar pagination made no progress")
        let later ← loadPages c token db fuel (cursor + rows.length)
        return rows ++ later
    | .ok _ => .error (.store "host returned an invalid sidecar page")

/-- `load`.  Each round but the last takes a row, so there are at most as many as rows and one
more. -/
def load (c : Crypto) (token : Token) (db : Database) (view : Option (List Bytes)) :
    Except CallFailure (List Bytes) :=
  match view with
  | some records => .ok records
  | none => loadPages c token db (db.sidecar.rows.length + 1) 0

/-- `_DIRECT_SUFFIX_BASE64_BYTES`. -/
def directSuffixBase64Bytes : Nat := 600 * 1024

/-- `_MAX_SINGLE_RECORD_BASE64_BYTES`. -/
def maxSingleRecordBase64Bytes : Nat := 850 * 1024

def commonPrefix : List Bytes → List Bytes → Nat
  | a :: l, b :: l' => if a = b then commonPrefix l l' + 1 else 0
  | _, _ => 0

def prefixDigest (c : Crypto) (current : List Bytes) (shared : Nat) : String :=
  match shared with
  | 0 => ""
  | p + 1 => hexSha256 c ((current[p]?).getD [])

def transactionId (c : Crypto) (shared : Nat) (digest : String) (suffix : List Bytes) : String :=
  hexSha256 c (encode storeKey ++ [0] ++ encode (toString shared) ++ [0] ++ encode digest ++
    suffix.flatMap fun item => 0 :: c.sha256 item)

def chunks (active : List (List Char)) (activeBytes : Nat) :
    List (List Char) → Option (List (List (List Char)))
  | [] => some (if active = [] then [] else [active])
  | item :: items =>
    if maxSingleRecordBase64Bytes < item.length then none
    else if active ≠ [] ∧ directSuffixBase64Bytes < activeBytes + item.length then
      (chunks [item] item.length items).map fun later => active :: later
    else chunks (active ++ [item]) (activeBytes + item.length) items

/-- The requests of a replacement in their order, and whether the store raises behind them. -/
structure Exchange where
  requests : List HostRequest
  raises : Option String

/-- The requests of `replace` out of its view, with those of `_replace_chunked`. -/
def exchange (c : Crypto) (current records : List Bytes) : Exchange :=
  let shared := commonPrefix current records
  let suffix := records.drop shared
  let digest := prefixDigest c current shared
  let encoded := suffix.map Lib.Base64.encode
  if (encoded.map List.length).sum ≤ directSuffixBase64Bytes then
    ⟨[.replaceSuffix shared digest encoded], none⟩
  else
    let id := transactionId c shared digest suffix
    let begun := HostRequest.replaceBegin ⟨id, shared, digest, encoded.length⟩
    match chunks [] 0 encoded with
    | none => ⟨[begun], some "one sidecar record exceeds the host frame budget"⟩
    | some parts =>
      ⟨begun :: parts.zipIdx.map (fun part => .replaceChunk ⟨id, part.2, part.1⟩) ++
        [.replaceCommit id], none⟩

def callAll (c : Crypto) (token : Token) (db : Database) :
    List HostRequest → Except CallFailure Unit × Database
  | [] => (.ok (), db)
  | request :: requests =>
    match callHost c token db request with
    | (.error failure, db) => (.error failure, db)
    | (.ok _, db) => callAll c token db requests

/-- `replace`: whether it is acknowledged, the database after it, and the view. -/
def replace (c : Crypto) (token : Token) (db : Database) (view : Option (List Bytes))
    (records : List Bytes) : Except CallFailure Unit × Database × Option (List Bytes) :=
  match load c token db view with
  | .error failure => (.error failure, db, view)
  | .ok current =>
    match callAll c token db (exchange c current records).requests with
    | (.error failure, db) => (.error failure, db, some current)
    | (.ok _, db) =>
      match (exchange c current records).raises with
      | some message => (.error (.store message), db, some current)
      | none => (.ok (), db, some records)

end ProofRay.Host
