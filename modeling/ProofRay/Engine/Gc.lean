/- The garbage collector: reachability from the roots of a scope, the plan, the journal, the
   move into quarantine and the recovery from it (`horizon_gc.py`). -/

import Mathlib.Data.Prod.Lex
import ProofRay.Engine.Publication

namespace ProofRay.Engine

open Lib (Dict)
open Lib.Guard
open Lib.Struct (Field unpack unpackMany)

/-- `OBJECT` and `ACTIVE`. -/
inductive GcKind where
  | object
  | active
  deriving DecidableEq, Repr

def GcKind.text : GcKind → Bytes
  | .object => ascii "object"
  | .active => ascii "active"

/-- A tuple `(kind, key)`; the key is its text. -/
structure GcItem where
  kind : GcKind
  key : Bytes
  deriving DecidableEq, Repr

def hexDigit (n : Nat) : UInt8 := if n < 10 then UInt8.ofNat (48 + n) else UInt8.ofNat (87 + n)

/-- `digest.hex()`. -/
def hexText (b : Bytes) : Bytes :=
  b.flatMap fun x => [hexDigit (x.toNat / 16), hexDigit (x.toNat % 16)]

def hexValue (x : UInt8) : Nat := if x.toNat < 58 then x.toNat - 48 else x.toNat - 87

def unhexText : Bytes → Bytes
  | hi :: lo :: rest => UInt8.ofNat (hexValue hi * 16 + hexValue lo) :: unhexText rest
  | _ => []

/-- `f"{n:08x}"`. -/
def hex08 (n : Int) : Bytes :=
  let sign : Bytes := if n < 0 then ascii "-" else []
  let digits : Bytes := (Nat.toDigits 16 n.natAbs).map fun ch => UInt8.ofNat ch.toNat
  sign ++ List.replicate (8 - (sign.length + digits.length)) 48 ++ digits

def shortHex (b : Bytes) : String :=
  String.ofList (((hexText b).take 12).map fun x => Char.ofNat x.toNat)

def objItem (digest : Bytes) : GcItem := ⟨.object, hexText digest⟩

def activeItem (identity : WalIdentity) : GcItem :=
  ⟨.active, hex08 identity.scopeId ++ ascii ":" ++ hex08 identity.segmentId⟩

def GcItem.rank (item : GcItem) : Lex (List Nat × List Nat) :=
  toLex (bytesKey item.kind.text, bytesKey item.key)

/-- `sorted(set(items))`. -/
def sortItems (items : List GcItem) : List GcItem :=
  items.dedup.insertionSort fun a b => a.rank ≤ b.rank

/-- What belongs to one scope: its `CURRENT`, its pins and its registered preparations.  An
ephemeral pin is a digest and whether its process still holds the lock. -/
structure ScopeDir where
  current : Option Bytes
  namedPins : Dict String Bytes
  ephemeralPins : List (Bytes × Bool)
  prepared : Dict String Bytes

/-- One root: the objects and the quarantine belong to every scope that shares it.  The
journals are named by the digest of their plan. -/
structure GcDisk where
  objects : ObjectStore
  active : Dict WalIdentity Bytes
  quarantine : Dict Bytes Bytes
  journals : Dict Bytes Bytes
  legacyJournal : Option Bytes
  scopes : Int → ScopeDir

namespace GcDisk

def walStore (disk : GcDisk) : WalStore := ⟨disk.active, disk.objects⟩

def publication (disk : GcDisk) (scope : Int) : PublicationDisk :=
  ⟨disk.objects, (disk.scopes scope).current⟩

end GcDisk

def enumerateObjects (store : ObjectStore) : List GcItem := store.objects.keys.map objItem

def enumerateActive (walStore : WalStore) : List GcItem := walStore.active.keys.map activeItem

structure GcRoots where
  currentPublicationSha256 : Option Bytes
  pinnedPublicationSha256s : List Bytes
  retainedPublicationSha256s : List Bytes
  preparedObjectSha256s : List Bytes
  preparedActiveSegments : List WalIdentity
  deriving DecidableEq

def keepFirst : List Bytes → List Bytes → List Bytes
  | _, [] => []
  | seen, d :: ds => if d = [] ∨ d ∈ seen then keepFirst seen ds else d :: keepFirst (d :: seen) ds

def GcRoots.allPublicationDigests (roots : GcRoots) : List Bytes :=
  keepFirst [] (roots.currentPublicationSha256.toList ++ roots.pinnedPublicationSha256s ++
    roots.retainedPublicationSha256s)

inductive GcState where
  | planned
  | noCurrent
  | abortedCorrupt
  | abortedMissing
  | abortedLimit
  deriving DecidableEq, Repr

structure GcPlan where
  state : GcState
  reachable : List GcItem
  unreachable : List GcItem
  deferred : List GcItem
  planDigest : Bytes
  reason : String
  deriving DecidableEq

structure GcLimits where
  maxObjectBytes : Int
  maxTraversalNodes : Int
  deriving DecidableEq, Repr

def defaultGcLimits : GcLimits := ⟨1 <<< 30, 100000⟩

/-- How a traversal ends early: `_Abort`, or an exception of the code below it. -/
inductive GcStop where
  | abort (state : GcState) (reason : String)
  | raised (e : PyError)
  deriving DecidableEq, Repr

def planSection (label : String) (items : List GcItem) : Except PyError Bytes := do
  let count ← structPack [.u32] ((items.length : Int), ())
  return ascii label ++ count ++
    (sortItems items).flatMap fun item => item.kind.text ++ [0] ++ item.key ++ [0]

def canonicalPlanDigest (c : Crypto) (reachable unreachable deferred : List GcItem) :
    Except PyError Bytes := do
  let r ← planSection "R" reachable
  let u ← planSection "U" unreachable
  let d ← planSection "D" deferred
  return c.sha256 (ascii "HORIZON-GC-PLAN-v1" ++ r ++ u ++ d)

def reachSegments (scopeId : Int) : List WalSegmentDescriptor → Except GcStop (List GcItem)
  | [] => .ok []
  | s :: ss =>
    if s.status = stateSealed then
      if s.sealedObjectSha256 = zeros 32 then
        .error (.abort .abortedCorrupt "SEALED sem sealed_object_sha256")
      else do
        let rest ← reachSegments scopeId ss
        return objItem s.sealedObjectSha256 :: rest
    else if s.status = stateActive then do
      let rest ← reachSegments scopeId ss
      return activeItem ⟨scopeId, s.segmentId⟩ :: rest
    else .error (.abort .abortedCorrupt s!"status de segmento desconhecido: {s.status}")

/-- `open_generation` with its default arguments. -/
def openDefault (c : Crypto) (keyring : Keyring) (manifestBlob : Bytes) (store : ObjectStore)
    (walStore : WalStore) : Except OpenFailure GenerationHandle :=
  openGeneration c (some manifestBlob) store walStore keyring defaultArtifactLimits none none
    defaultGenerationLimits

/-- `_reach_from_publication`: the closure of a publication, opened and validated. -/
def reachFromPublication (c : Crypto) (keyring : Keyring) (store : ObjectStore)
    (walStore : WalStore) (limits : GcLimits) (pubDigest : Bytes) :
    Except GcStop (List GcItem) := do
  let recordBlob ← (store.getLimited pubDigest limits.maxObjectBytes).mapError fun _ =>
    .abort .abortedMissing s!"PublicationRecord {shortHex pubDigest} ausente/ilegível"
  let record ← (parsePublicationRecord c keyring (some recordBlob)).mapError fun fault =>
    .abort .abortedCorrupt s!"PublicationRecord {shortHex pubDigest}: {fault.2}"
  let manDigest := record.manifestSha256
  let manBlob ← (store.getLimited manDigest limits.maxObjectBytes).mapError fun _ =>
    .abort .abortedMissing s!"manifesto {shortHex manDigest} ausente"
  require (c.sha256 manBlob = manDigest)
    (.abort .abortedCorrupt "manifesto não casa manifest_sha256")
  let man ← (parseManifest c keyring (some manBlob)).mapError fun fault =>
    .abort .abortedCorrupt s!"manifesto {shortHex manDigest}: {fault.2}"
  let h ← (openDefault c keyring manBlob store walStore).mapError fun failure =>
    match failure with
    | .raised e => .raised e
    | .state _ reason => .abort .abortedCorrupt s!"geração {shortHex manDigest}: {reason}"
  require (h.scopeId = man.scopeId ∧ h.generationId = man.generationId ∧
    h.factCount = man.factCount)
    (.abort .abortedCorrupt "handle ↔ manifesto incoerentes (scope/gen/fact_count)")
  let segments ← reachSegments man.scopeId man.segments
  return objItem pubDigest :: objItem manDigest ::
    (baseKinds.map fun kind => objItem (man.baseDescriptors kind).sha256) ++ segments

def reachAll (c : Crypto) (keyring : Keyring) (store : ObjectStore) (walStore : WalStore)
    (limits : GcLimits) : List Bytes → Int → Except GcStop (List GcItem)
  | [], _ => .ok []
  | pub :: pubs, budget => do
    require (0 ≤ budget - 1) (.abort .abortedLimit "orçamento de travessia excedido")
    let closure ← reachFromPublication c keyring store walStore limits pub
    let rest ← reachAll c keyring store walStore limits pubs (budget - 1)
    return closure ++ rest

def GcPlan.aborted (state : GcState) (reason : String) : GcPlan := ⟨state, [], [], [], [], reason⟩

def presentItems (store : ObjectStore) (walStore : WalStore) : List GcItem :=
  enumerateObjects store ++ enumerateActive walStore

def GcRoots.reachable (roots : GcRoots) (closures : List GcItem) : List GcItem :=
  closures ++ roots.preparedObjectSha256s.map objItem ++ roots.preparedActiveSegments.map activeItem

/-- `plan_reachability`: what is there and what no root reaches.  An abort lists nothing. -/
def planReachability (c : Crypto) (keyring : Keyring) (store : ObjectStore) (walStore : WalStore)
    (roots : GcRoots) (limits : GcLimits) : Except PyError GcPlan :=
  match reachAll c keyring store walStore limits roots.allPublicationDigests
      limits.maxTraversalNodes with
  | .error (.raised e) => .error e
  | .error (.abort state reason) => .ok (.aborted state reason)
  | .ok closures => do
    let reachable := roots.reachable closures
    let present := presentItems store walStore
    let reachablePresent := present.filter fun item => item ∈ reachable
    let unreachable := present.filter fun item => item ∉ reachable
    let planDigest ← canonicalPlanDigest c reachablePresent unreachable []
    return ⟨.planned, reachablePresent, unreachable, [], planDigest, "ok"⟩

def maxRecordBytes : Nat := 65536

inductive RecordFault where
  | corrupt
  | ioError
  | resourceLimit
  deriving DecidableEq, Repr

def RecordFault.name : RecordFault → String
  | .corrupt => "CORRUPT"
  | .ioError => "IO_ERROR"
  | .resourceLimit => "RESOURCE_LIMIT"

/-- `_read_record_limited`. -/
def readRecordLimited (blob : Bytes) : Except RecordFault Bytes :=
  if maxRecordBytes < blob.length then .error .resourceLimit else .ok blob

/-- `valid_name`, the letters and digits being those of ASCII. -/
def validName (name : String) : Bool :=
  1 ≤ name.length ∧ name.length ≤ 128 ∧ name ≠ "." ∧ ¬ ['.', '.'] <:+: name.toList ∧
    name.toList.all fun ch => ch.isAlphanum || ch = '.' || ch = '_' || ch = '-'

/-- `<4sH32sI`: magic, version, publication, key. -/
abbrev pinFormat : List Field := [.bytes 4, .u16, .bytes 32, .u32]

def pinSize : Nat := 42

/-- `<4sHBIII`: magic, version, kind, key, objects, active segments. -/
abbrev prepFormat : List Field := [.bytes 4, .u16, .u8, .u32, .u32, .u32]

def prepSize : Nat := 19

example : pinSize = Lib.Struct.size pinFormat ∧
    prepSize = Lib.Struct.size prepFormat := by decide

/-- `_parse_named_pin`: the digest it pins; the name inside it is not used. -/
def parseNamedPin (c : Crypto) (keyring : Keyring) (blob : Bytes) : Option Bytes := do
  guard (pinSize + 2 + tagBytes ≤ blob.length)
  let (magic, ver, psha, keyId, _) := unpack pinFormat blob
  guard (magic = ascii "HPIN" ∧ ver = 1)
  let nlen := (unpack [.u16] (blob.drop pinSize)).1
  guard ((blob.length : Int) = pinSize + 2 + nlen + tagBytes)
  let key ← keyring.get keyId
  let body := blob.take (blob.length - tagBytes)
  guard (c.tag key (ascii "HORIZONGCPIN" ++ body) = blob.drop (blob.length - tagBytes))
  return psha

structure PreparedRoots where
  objectSha256s : List Bytes
  activeSegments : List WalIdentity
  deriving DecidableEq

/-- `_parse_prepared_record`. -/
def parsePreparedRecord (c : Crypto) (keyring : Keyring) (blob : Bytes) : Option PreparedRoots := do
  guard (prepSize + tagBytes ≤ blob.length)
  let (magic, ver, kind, keyId, nObj, nActive, _) := unpack prepFormat blob
  guard (magic = ascii "HGCP" ∧ ver = 1 ∧ (kind = 1 ∨ kind = 2))
  guard (nObj ≤ 4096 ∧ nActive ≤ 4096)
  guard ((blob.length : Int) = prepSize + nObj * 32 + nActive * 8 + tagBytes)
  let key ← keyring.get keyId
  let body := blob.take (blob.length - tagBytes)
  guard (c.tag key (ascii "HORIZONGCPREP" ++ body) = blob.drop (blob.length - tagBytes))
  let objs := (unpackMany [.bytes 32] nObj.toNat (blob.drop prepSize)).map fun r => r.1
  let actives := (unpackMany [.u32, .u32] nActive.toNat
    (blob.drop (prepSize + nObj.toNat * 32))).map fun r => (⟨r.1, r.2.1⟩ : WalIdentity)
  return ⟨objs, actives⟩

/-- The files of a registry in the order of their names, each read and parsed; the first that
cannot be ends the scan. -/
def scanRecords {α : Type} (parse : Bytes → Option α) :
    List (String × Bytes) → Except RecordFault (List α)
  | [] => .ok []
  | (name, blob) :: files => do
    require (validName name = true) .corrupt
    let data ← readRecordLimited blob
    let parsed ← orThrow (parse data) .corrupt
    let rest ← scanRecords parse files
    return parsed :: rest

namespace ScopeDir

/-- `PinRegistry.scan`: the digests of the named pins and of the ephemeral ones still held. -/
def scanPins (c : Crypto) (keyring : Keyring) (dir : ScopeDir) : Except RecordFault (List Bytes) := do
  let named ← scanRecords (parseNamedPin c keyring)
    (dir.namedPins.sortedBy fun name => (name ++ ".pin").toList.map Char.toNat)
  return named ++ (dir.ephemeralPins.filter fun pin => pin.2).map Prod.fst

/-- `PreparedRegistry.scan`. -/
def scanPrepared (c : Crypto) (keyring : Keyring) (dir : ScopeDir) :
    Except RecordFault PreparedRoots := do
  let records ← scanRecords (parsePreparedRecord c keyring)
    (dir.prepared.sortedBy fun name => (name ++ ".prep").toList.map Char.toNat)
  return ⟨records.flatMap PreparedRoots.objectSha256s, records.flatMap PreparedRoots.activeSegments⟩

/-- `reap_dead_ephemeral`. -/
def reapDeadEphemeral (dir : ScopeDir) : ScopeDir :=
  { dir with ephemeralPins := dir.ephemeralPins.filter fun pin => pin.2 }

end ScopeDir

/-- The ancestors of a publication, at most `n` of them; a declared one has to open. -/
def retainedChain (c : Crypto) (keyring : Keyring) (store : ObjectStore) (maxObjectBytes : Int) :
    Nat → Bytes → Except (GcState × String) (List Bytes)
  | 0, _ => .ok []
  | n + 1, d => do
    let blob ← (store.getLimited d maxObjectBytes).mapError fun _ =>
      (.abortedMissing, s!"publicação retida {shortHex d} ausente")
    let record ← (parsePublicationRecord c keyring (some blob)).mapError fun fault =>
      (.abortedCorrupt, s!"publicação retida {shortHex d}: {fault.2}")
    let prev := record.previousPublicationSha256
    if prev = zeros 32 then return []
    else
      let ancestor ← (store.getLimited prev maxObjectBytes).mapError fun _ =>
        (.abortedMissing, s!"ancestral retido {shortHex prev} ausente")
      let _ ← (parsePublicationRecord c keyring (some ancestor)).mapError fun fault =>
        (.abortedCorrupt, s!"ancestral retido {shortHex prev}: {fault.2}")
      let rest ← retainedChain c keyring store maxObjectBytes n prev
      return prev :: rest

/-- `compute_roots`. -/
def computeRoots (c : Crypto) (keyring : Keyring) (disk : PublicationDisk) (pinned : List Bytes)
    (retention : Int) (prepared : PreparedRoots) (limits : GcLimits) :
    Except (GcState × String) GcRoots := do
  let cur ← (readCurrent c keyring disk 4096).mapError fun fault =>
    match fault with
    | (.missing, _) => (.noCurrent, "CURRENT ausente")
    | (_, why) => (.abortedCorrupt, s!"CURRENT: {why}")
  let retained ← retainedChain c keyring disk.objects limits.maxObjectBytes
    (max 1 retention - 1).toNat cur.publicationSha256
  return ⟨some cur.publicationSha256, pinned, retained, prepared.objectSha256s,
    prepared.activeSegments⟩

/-- `_gather_roots` of a scope. -/
def gatherRoots (c : Crypto) (keyring : Keyring) (disk : GcDisk) (scope retention : Int)
    (limits : GcLimits) : Except (GcState × String) GcRoots := do
  let dir := disk.scopes scope
  let pins ← (dir.scanPins c keyring).mapError fun fault =>
    (.abortedCorrupt, s!"pins: {fault.name}")
  let prepared ← (dir.scanPrepared c keyring).mapError fun fault =>
    (.abortedCorrupt, s!"prepared: {fault.name}")
  computeRoots c keyring (disk.publication scope) pins retention prepared limits

/-- What `_root_signature` compares between the plan and its execution. -/
structure RootSignature where
  current : Option Bytes
  pins : Finset Bytes
  preparedObjects : Finset Bytes
  preparedActive : Finset WalIdentity
  deriving DecidableEq

/-- `_root_signature`: nothing when a registry does not scan. -/
def rootSignature (c : Crypto) (keyring : Keyring) (disk : GcDisk) (scope : Int) :
    Option RootSignature := do
  let dir := disk.scopes scope
  let pins ← (dir.scanPins c keyring).toOption
  let prepared ← (dir.scanPrepared c keyring).toOption
  let current := (readCurrent c keyring (disk.publication scope) 4096).toOption
  return ⟨current.map CurrentPointer.publicationSha256, pins.toFinset,
    prepared.objectSha256s.toFinset, prepared.activeSegments.toFinset⟩

/-- `<4sH32sI`: magic, version, plan digest, items. -/
abbrev jrnFormat : List Field := [.bytes 4, .u16, .bytes 32, .u32]

def jrnSize : Nat := 42

def journalMac (c : Crypto) (key body : Bytes) : Bytes := c.tag key (ascii "HORIZONGCJRN" ++ body)

def GcKind.code : GcKind → Int
  | .object => 0
  | .active => 1

def journalItem (item : GcItem) : Except PyError Bytes := do
  let head ← structPack [.u8, .u16] (item.kind.code, (item.key.length : Int), ())
  return head ++ item.key

def journalItems : List GcItem → Except PyError Bytes
  | [] => .ok []
  | item :: items => do
    let first ← journalItem item
    let rest ← journalItems items
    return first ++ rest

/-- `_authenticated_journal`. -/
def authenticatedJournal (c : Crypto) (planDigest : Bytes) (items : List GcItem) (key : Bytes) :
    Except PyError Bytes := do
  let items := sortItems items
  let header ← structPack jrnFormat (ascii "HGCJ", 1, planDigest, (items.length : Int), ())
  let body ← journalItems items
  return header ++ body ++ journalMac c key (header ++ body)

/-- The strict decoder of UTF-8: no overlong form, no surrogate, nothing above U+10FFFF. -/
def utf8Valid : Bytes → Bool
  | [] => true
  | a :: rest =>
    if a < 0x80 then utf8Valid rest
    else
      match rest with
      | b :: rest₁ =>
        if 0xC2 ≤ a ∧ a ≤ 0xDF ∧ 0x80 ≤ b ∧ b ≤ 0xBF then utf8Valid rest₁
        else
          match rest₁ with
          | d :: rest₂ =>
            if 0xE0 ≤ a ∧ a ≤ 0xEF ∧ (if a = 0xE0 then 0xA0 else 0x80) ≤ b ∧
                b ≤ (if a = 0xED then 0x9F else 0xBF) ∧ 0x80 ≤ d ∧ d ≤ 0xBF then utf8Valid rest₂
            else
              match rest₂ with
              | e :: rest₃ =>
                0xF0 ≤ a ∧ a ≤ 0xF4 ∧ (if a = 0xF0 then 0x90 else 0x80) ≤ b ∧
                  b ≤ (if a = 0xF4 then 0x8F else 0xBF) ∧ 0x80 ≤ d ∧ d ≤ 0xBF ∧
                  0x80 ≤ e ∧ e ≤ 0xBF ∧ utf8Valid rest₃
              | [] => false
          | [] => false
      | [] => false

def parseJournalItems : Nat → Bytes → Option (List GcItem)
  | 0, rest => if rest = [] then some [] else none
  | n + 1, rest => do
    guard (3 ≤ rest.length)
    let (k, ln, _) := unpack [.u8, .u16] rest
    guard ((k = 0 ∨ k = 1) ∧ ln ≤ ((rest.drop 3).length : Int))
    let key := (rest.drop 3).take ln.toNat
    guard (utf8Valid key = true)
    let items ← parseJournalItems n ((rest.drop 3).drop ln.toNat)
    return ⟨if k = 0 then .object else .active, key⟩ :: items

def isHexDigit (x : UInt8) : Bool := (48 ≤ x.toNat ∧ x.toNat ≤ 57) ∨ (97 ≤ x.toNat ∧ x.toNat ≤ 102)

/-- `_parse_journal`: nothing for any anomaly. -/
def parseJournal (c : Crypto) (blob key : Bytes) : Option (Bytes × List GcItem) := do
  guard (jrnSize + tagBytes ≤ blob.length)
  let (magic, ver, planDigest, n, _) := unpack jrnFormat blob
  guard (magic = ascii "HGCJ" ∧ ver = 1 ∧ n ≤ 1000000)
  let body := blob.take (blob.length - tagBytes)
  guard (journalMac c key body = blob.drop (blob.length - tagBytes))
  let items ← parseJournalItems n.toNat (body.drop jrnSize)
  guard (items = sortItems items)
  guard (∀ item ∈ items, item.kind = .object → item.key.length = 64 ∧ item.key.all isHexDigit)
  return (planDigest, items)

/-- `_publish_journal_immutable`: a journal already there has to be readable and the same. -/
def publishJournalImmutable (journals : Dict Bytes Bytes) (planDigest blob : Bytes) :
    Except String (Dict Bytes Bytes) :=
  match journals.get planDigest with
  | none => .ok (journals.set planDigest blob)
  | some old =>
    match readRecordLimited old with
    | .ok data => if data = blob then .ok journals else .error "journal existente divergente"
    | .error _ => .error "journal existente divergente"

/-- `_move_file` between two directories: the file, unless it was moved before. -/
def moveFile (src dst : Dict Bytes Bytes) (name : Bytes) :
    Except String (Dict Bytes Bytes × Dict Bytes Bytes) :=
  match src.get name with
  | some blob => .ok (src.erase name, dst.set name blob)
  | none => if (dst.get name).isSome then .ok (src, dst) else .error "origem ausente"

inductive GcRunState where
  | done
  | noCurrent
  | nothingToCollect
  | stalePlan
  | aborted
  | moveFailed
  deriving DecidableEq, Repr

structure GcRunResult where
  state : GcRunState
  plan : Option GcPlan
  quarantined : List GcItem
  reason : String
  deriving DecidableEq

/-- A call of `run_gc` that holds `.gc.lock`.  `meanwhile` is what other processes did to the
directory of the scope before the run read the roots again under `pin.lock`; `renameFault` is
the rename the file system refuses, if it refuses one, and the reason it gives. -/
structure GcCall where
  scope : Int
  retention : Int
  journalKeyId : Int
  limits : GcLimits
  meanwhile : ScopeDir → ScopeDir
  renameFault : Option (Nat × String)

/-- How a run ends before its renames: with an answer, or an exception. -/
inductive GcRunStop where
  | answer (r : GcRunResult)
  | raised (e : PyError)
  deriving DecidableEq

/-- What a run has decided and published when its renames begin. -/
structure GcExecution where
  plan : GcPlan
  journals : Dict Bytes Bytes

def GcPlan.movable (plan : GcPlan) : List GcItem :=
  (sortItems plan.unreachable).filter fun item => item.kind = .object

namespace GcDisk

def quarantineItem (disk : GcDisk) (item : GcItem) : Except String GcDisk := do
  let moved ← moveFile disk.objects.objects disk.quarantine (unhexText item.key)
  return { disk with objects := ⟨moved.1⟩, quarantine := moved.2 }

def quarantineItems (renameFault : Option (Nat × String)) :
    List GcItem → Nat → GcDisk → GcDisk × List GcItem × Option (GcItem × String)
  | [], _, disk => (disk, [], none)
  | item :: items, idx, disk =>
    let step : Except String GcDisk :=
      match renameFault with
      | some (refused, reason) => if refused = idx then .error reason else disk.quarantineItem item
      | none => disk.quarantineItem item
    match step with
    | .error reason => (disk, [], some (item, reason))
    | .ok disk' =>
      let rest := quarantineItems renameFault items (idx + 1) disk'
      (rest.1, item :: rest.2.1, rest.2.2)

def reap (disk : GcDisk) (scope : Int) : GcDisk :=
  { disk with scopes := Function.update disk.scopes scope (disk.scopes scope).reapDeadEphemeral }

def reread (disk : GcDisk) (call : GcCall) : GcDisk :=
  { disk with
    scopes := Function.update disk.scopes call.scope (call.meanwhile (disk.scopes call.scope)) }

end GcDisk

def rootsStop : GcState × String → GcRunStop
  | (.noCurrent, _) => .answer ⟨.noCurrent, none, [], "CURRENT ausente"⟩
  | (_, why) => .answer ⟨.aborted, none, [], s!"raízes: {why}"⟩

/-- Everything a run does before its first rename: the roots, the plan, the roots again and the
journal. -/
def prepareRun (c : Crypto) (keyring : Keyring) (disk : GcDisk) (call : GcCall) :
    Except GcRunStop GcExecution := do
  let roots ← (gatherRoots c keyring disk call.scope call.retention call.limits).mapError rootsStop
  let plan ← (planReachability c keyring disk.objects disk.walStore roots call.limits).mapError
    .raised
  require (plan.state = .planned) (.answer ⟨.aborted, some plan, [], s!"plano: {plan.reason}"⟩)
  let before := rootSignature c keyring disk call.scope
  let after := rootSignature c keyring (disk.reread call) call.scope
  let why := "raízes mudaram/ilegíveis entre plano e execução"
  require (before ≠ none ∧ after ≠ none) (.answer ⟨.aborted, some plan, [], why⟩)
  require (after = before) (.answer ⟨.stalePlan, some plan, [], why⟩)
  require (plan.movable ≠ []) (.answer ⟨.nothingToCollect, some plan, [], "nada elegível"⟩)
  let key ← orThrow (keyring.get call.journalKeyId)
    (.answer ⟨.aborted, some plan, [], "journal key_id desconhecido"⟩)
  let blob ← (authenticatedJournal c plan.planDigest plan.movable key).mapError .raised
  let journals ← (publishJournalImmutable disk.journals plan.planDigest blob).mapError fun why =>
    .answer ⟨.moveFailed, some plan, [], s!"journal: {why}"⟩
  return ⟨plan, journals⟩

def executePlan (call : GcCall) (execution : GcExecution) (disk : GcDisk) : GcDisk × GcRunResult :=
  let plan := execution.plan
  match GcDisk.quarantineItems call.renameFault plan.movable 0
      { disk with journals := execution.journals } with
  | (final, moved, some (item, reason)) =>
    (final, ⟨.moveFailed, some plan, moved,
      s!"rename de {shortHex (unhexText item.key)}: {reason}"⟩)
  | (final, moved, none) => (final, ⟨.done, some plan, moved, "quarantine aplicada"⟩)

/-- `run_gc` on one scope. -/
def runGc (c : Crypto) (keyring : Keyring) (disk : GcDisk) (call : GcCall) :
    Except PyError (GcDisk × GcRunResult) :=
  let disk := disk.reap call.scope
  match prepareRun c keyring disk call with
  | .error (.raised e) => .error e
  | .error (.answer r) => .ok (disk.reread call, r)
  | .ok execution => .ok (executePlan call execution (disk.reread call))

inductive RecoverState where
  | ok
  | failClosed
  | moveFailed
  deriving DecidableEq, Repr

structure RecoverGcResult where
  restored : List Bytes
  kept : List Bytes
  state : RecoverState
  deriving DecidableEq

def openJournal (c : Crypto) (key : Option Bytes) (name : Option Bytes) (blob : Bytes) :
    Option (List GcItem) := do
  let key ← key
  let data ← (readRecordLimited blob).toOption
  let (planDigest, items) ← parseJournal c data key
  guard (∀ digest ∈ name, digest = planDigest)
  return items

def openJournals (c : Crypto) (key : Option Bytes) :
    List (Option Bytes × Bytes) → Option (List GcItem)
  | [] => some []
  | (name, blob) :: journals => do
    let items ← openJournal c key name blob
    let rest ← openJournals c key journals
    return items ++ rest

namespace GcDisk

def allJournals (disk : GcDisk) : List (Option Bytes × Bytes) :=
  (disk.journals.sortedBy fun digest => bytesKey (hexText digest)).map
      (fun entry => (some entry.1, entry.2)) ++
    disk.legacyJournal.toList.map fun blob => (none, blob)

def restoreItems : List GcItem → GcDisk → Except String (GcDisk × List Bytes)
  | [], disk => .ok (disk, [])
  | item :: items, disk =>
    if (disk.quarantine.get (unhexText item.key)).isSome then do
      let (quarantine, objects) ← moveFile disk.quarantine disk.objects.objects (unhexText item.key)
      let (final, restored) ← restoreItems items
        { disk with objects := ⟨objects⟩, quarantine := quarantine }
      return (final, item.key :: restored)
    else restoreItems items disk

def keepItems (reachable : List GcItem) (restored : List Bytes) :
    List GcItem → GcDisk → Except String (GcDisk × List Bytes × List Bytes)
  | [], disk => .ok (disk, [], [])
  | item :: items, disk =>
    if item ∈ reachable then do
      let (final, back, kept) ← keepItems reachable restored items disk
      return (final, if item.key ∈ restored then item.key :: back else back, kept)
    else do
      let disk' ← if (disk.objects.get (unhexText item.key)).isSome then disk.quarantineItem item
        else pure disk
      let (final, back, kept) ← keepItems reachable restored items disk'
      return (final, back, item.key :: kept)

end GcDisk

/-- `recover_gc` on one scope.  It answers with what it restored when its own renames hold. -/
def recoverGc (c : Crypto) (keyring : Keyring) (disk : GcDisk) (scope retention journalKeyId : Int)
    (limits : GcLimits) : Except PyError (GcDisk × RecoverGcResult) :=
  let journals := disk.allJournals
  if journals = [] then .ok (disk, ⟨[], [], .ok⟩)
  else
    match openJournals c (keyring.get journalKeyId) journals with
    | none => .ok (disk, ⟨[], [], .failClosed⟩)
    | some listed =>
      let items := (sortItems listed).filter fun item => item.kind = .object
      match GcDisk.restoreItems items disk with
      | .error _ => .ok (disk, ⟨[], [], .moveFailed⟩)
      | .ok (restoredDisk, restored) =>
        match gatherRoots c keyring restoredDisk scope retention limits with
        | .error _ => .ok (restoredDisk, ⟨[], [], .failClosed⟩)
        | .ok roots => do
          let plan ← planReachability c keyring restoredDisk.objects restoredDisk.walStore roots limits
          if plan.state ≠ .planned then return (restoredDisk, ⟨[], [], .failClosed⟩)
          else
            match GcDisk.keepItems plan.reachable restored items restoredDisk with
            | .error _ => return (restoredDisk, ⟨[], [], .moveFailed⟩)
            | .ok (final, back, kept) => return (final, ⟨back, kept, .ok⟩)

end ProofRay.Engine
