/- The naming layer of the published generation: records, the `CURRENT` pointer and publication by
   compare-and-swap (`horizon_publication.py`). -/

import ProofRay.Engine.Generation

namespace ProofRay.Engine

open Lib.Guard
open Lib.Struct (Field Record unpack)

def prMagic : Bytes := ascii "HPR1"
def prVersion : Int := 1
def curMagic : Bytes := ascii "HCUR"
def curVersion : Int := 1

/-- `<4sHIIQQ32s32sI`: magic, version, scope, generation, revision, R, manifest digest,
digest of the previous record, key. -/
abbrev prFormat : List Field :=
  [.bytes 4, .u16, .u32, .u32, .u64, .u64, .bytes 32, .bytes 32, .u32]

/-- `<4sH32sI`: magic, version, digest of the record, key. -/
abbrev curFormat : List Field := [.bytes 4, .u16, .bytes 32, .u32]

def prSize : Nat := 98
def curSize : Nat := 42

/-- `CURRENT_LEN`. -/
def currentLen : Nat := curSize + tagBytes

example : prSize = Lib.Struct.size prFormat ∧
    curSize = Lib.Struct.size curFormat := by decide

/-- The states of a record or of the pointer other than `VALID`. -/
inductive PublicationState where
  | missing
  | corrupt
  | incompatible
  | resourceLimit
  deriving DecidableEq, Repr

abbrev PublicationFault := PublicationState × String

@[ext] structure PublicationRecord where
  scopeId : Int
  generationId : Int
  revision : Int
  readSeq : Int
  manifestSha256 : Bytes
  previousPublicationSha256 : Bytes
  keyId : Int
  deriving Repr

instance : DecidableEq PublicationRecord := fun _ _ =>
  decidable_of_iff _ PublicationRecord.ext_iff.symm

namespace PublicationRecord

def toRecord (r : PublicationRecord) : Record prFormat :=
  (prMagic, prVersion, r.scopeId, r.generationId, r.revision, r.readSeq, r.manifestSha256,
    r.previousPublicationSha256, r.keyId, ())

def mac (c : Crypto) (key body : Bytes) : Bytes := c.tag key (ascii "HORIZONPUB" ++ body)

def serialize (c : Crypto) (key : Bytes) (r : PublicationRecord) : Except PyError Bytes := do
  let body ← structPack prFormat r.toRecord
  return body ++ mac c key body

end PublicationRecord

/-- `parse_publication_record`.  The bounds a `u32` field cannot exceed are left out. -/
def parsePublicationRecord (c : Crypto) (keyring : Keyring) (blob : Option Bytes) :
    Except PublicationFault PublicationRecord := do
  let blob ← orThrow blob (.missing, "ausente")
  require (blob.length = prSize + tagBytes) (.corrupt, "comprimento não canônico")
  let (magic, ver, scope, gen, rev, readSeq, msha, psha, keyId, _) := unpack prFormat blob
  require (magic = prMagic) (.corrupt, "magic")
  require (ver = prVersion) (.incompatible, "versão")
  let key ← orThrow (keyring.get keyId) (.incompatible, "key_id desconhecido")
  require (PublicationRecord.mac c key (blob.take prSize) = blob.drop prSize) (.corrupt, "MAC")
  require (msha ≠ zeros 32) (.corrupt, "manifest_sha256 zero")
  require (rev = 0 ↔ psha = zeros 32) (.corrupt, "revision==0 ⇔ previous==zero32 violado")
  require (readSeqOk readSeq) (.corrupt, "read_seq fora de faixa")
  return ⟨scope, gen, rev, readSeq, msha, psha, keyId⟩

structure CurrentPointer where
  publicationSha256 : Bytes
  keyId : Int
  deriving DecidableEq, Repr

def currentMac (c : Crypto) (key body : Bytes) : Bytes :=
  c.tag key (ascii "HORIZONCURRENT" ++ body)

def serializeCurrent (c : Crypto) (publicationSha256 : Bytes) (keyId : Int) (key : Bytes) :
    Except PyError Bytes := do
  require (publicationSha256.length = 32) (.valueError "publication_sha256 precisa de 32 bytes")
  let body ← structPack curFormat (curMagic, curVersion, publicationSha256, keyId, ())
  return body ++ currentMac c key body

def parseCurrent (c : Crypto) (keyring : Keyring) (blob : Bytes) :
    Except PublicationFault CurrentPointer := do
  require (blob.length = currentLen) (.corrupt, "comprimento fixo violado")
  let (magic, ver, psha, keyId, _) := unpack curFormat blob
  require (magic = curMagic) (.corrupt, "magic")
  require (ver = curVersion) (.incompatible, "versão")
  let key ← orThrow (keyring.get keyId) (.incompatible, "key_id desconhecido")
  require (currentMac c key (blob.take curSize) = blob.drop curSize) (.corrupt, "MAC")
  return ⟨psha, keyId⟩

/-- The directory of a scope: the objects and the file `CURRENT`. -/
structure PublicationDisk where
  objects : ObjectStore
  current : Option Bytes
  deriving DecidableEq

def PublicationDisk.init : PublicationDisk := ⟨ObjectStore.init, none⟩

/-- `read_current`. -/
def readCurrent (c : Crypto) (keyring : Keyring) (disk : PublicationDisk) (maxBytes : Int) :
    Except PublicationFault CurrentPointer := do
  let blob ← orThrow disk.current (.missing, "CURRENT ausente")
  require ((blob.length : Int) ≤ maxBytes) (.resourceLimit, "CURRENT grande demais")
  parseCurrent c keyring blob

/-- `open_publication_record`. -/
def openPublicationRecord (c : Crypto) (keyring : Keyring) (store : ObjectStore) (digest : Bytes)
    (maxBytes : Int) : Except PublicationFault PublicationRecord :=
  match store.getLimited digest maxBytes with
  | .error .missing => .error (.missing, "MISSING")
  | .error .countLimit => .error (.corrupt, "COUNT_LIMIT")
  | .ok blob => parsePublicationRecord c keyring (some blob)

structure PublicationLimits where
  artifact : ArtifactLimits
  generation : GenerationLimits
  maxCurrentBytes : Int
  maxRecordBytes : Int
  deriving DecidableEq, Repr

def defaultPublicationLimits : PublicationLimits :=
  ⟨defaultArtifactLimits, defaultGenerationLimits, 4096, 4096⟩

inductive PublishState where
  | published
  | alreadyPublished
  | staleCurrent
  | invalidCandidate
  | invalidSemantics
  | abstain
  | ioError
  | invalidAuthority
  | invalidTransition
  | noPublicationRequired
  | invalidIntent
  | invalidDurability
  | resourceLimit
  deriving DecidableEq, Repr

inductive PublicationPurpose where
  | genesis
  | batch
  | rotation
  | maintenance
  deriving DecidableEq, Repr

def PublicationPurpose.name : PublicationPurpose → String
  | .genesis => "GENESIS"
  | .batch => "BATCH"
  | .rotation => "ROTATION"
  | .maintenance => "MAINTENANCE"

def activeSegment (man : EpochManifest) : Option WalSegmentDescriptor :=
  man.segments.getLast?.filter fun s => s.status = stateActive

/-- `_same_generation_identity`. -/
def sameGenerationIdentity (prev cand : EpochManifest) : Prop :=
  prev.scopeId = cand.scopeId ∧ prev.generationId = cand.generationId ∧
    prev.factCount = cand.factCount ∧ prev.baseSeq = cand.baseSeq ∧
    prev.parentGenerationId = cand.parentGenerationId ∧
    prev.parentManifestDigest = cand.parentManifestDigest ∧
    prev.baseDescriptors = cand.baseDescriptors ∧ prev.keyId = cand.keyId

instance (prev cand : EpochManifest) : Decidable (sameGenerationIdentity prev cand) :=
  inferInstanceAs (Decidable (_ ∧ _))

/-- `prev` with another R and other progress of its active segment. -/
def advancedManifest (prev : EpochManifest) (oldActive : WalSegmentDescriptor)
    (readSeq recordCount durablePrefixLength : Int) (durablePrefixSha256 : Bytes) : EpochManifest :=
  { prev with
    readSeq := readSeq
    segments := prev.segments.dropLast ++
      [{ oldActive with
          recordCount := recordCount
          durablePrefixLength := durablePrefixLength
          durablePrefixSha256 := durablePrefixSha256 }] }

/-- `_validate_batch`. -/
def validateBatch (prev cand : EpochManifest) (oldActive candActive : WalSegmentDescriptor) :
    Option String :=
  if ¬ (oldActive.status = stateActive ∧ candActive.status = stateActive) then
    some "BATCH exige ACTIVE final em ambos"
  else if cand.readSeq ≤ prev.readSeq then some "BATCH não avançou R"
  else if cand ≠ advancedManifest prev oldActive cand.readSeq candActive.recordCount
      candActive.durablePrefixLength candActive.durablePrefixSha256 then
    some "candidato != avanço de BATCH esperado"
  else if candActive.durablePrefixLength < oldActive.durablePrefixLength then
    some "comprimento durável diminuiu"
  else if candActive.recordCount < oldActive.recordCount then some "record_count diminuiu"
  else if candActive.recordCount ≠ cand.readSeq - candActive.firstSeq + 1 then
    some "record_count != R - first_seq + 1"
  else if candActive.sealedObjectLength ≠ 0 ∨ candActive.sealedObjectSha256 ≠ zeros 32 then
    some "ACTIVE com sealed_object não vazio"
  else none

/-- `_validate_rotation`. -/
def validateRotation (prev cand : EpochManifest) (oldActive na : WalSegmentDescriptor) :
    Option String :=
  let n := prev.segments.length
  if oldActive.status ≠ stateActive then some "anterior sem ACTIVE final"
  else if cand.readSeq ≠ prev.readSeq then some "ROTATION mudou R"
  else if cand.segments.length ≠ n + 1 then some "rotação não adicionou exatamente 1 segmento"
  else if cand.segments.take (n - 1) ≠ prev.segments.take (n - 1) then
    some "SEALED anteriores mudaram"
  else
    match cand.segments[n - 1]? with
    | none => some "rotação não adicionou exatamente 1 segmento"
    | some newSealed =>
      if newSealed.status ≠ stateSealed then some "posição do ACTIVE antigo não é SEALED"
      else if newSealed.ordinal ≠ oldActive.ordinal ∨ newSealed.segmentId ≠ oldActive.segmentId ∨
          newSealed.firstSeq ≠ oldActive.firstSeq ∨
          newSealed.recordCount ≠ oldActive.recordCount ∨
          newSealed.prevSegmentDigest ≠ oldActive.prevSegmentDigest ∨
          newSealed.keyId ≠ oldActive.keyId then
        some "SEALED não conserva a identidade do ACTIVE"
      else if newSealed.sealedObjectLength ≠ newSealed.durablePrefixLength ∨
          newSealed.sealedObjectSha256 ≠ newSealed.durablePrefixSha256 ∨
          newSealed.sealedObjectSha256 = zeros 32 then
        some "SEALED não canônico (durable != sealed)"
      else if newSealed.durablePrefixLength ≠ oldActive.durablePrefixLength + sealFooterBytes then
        some "SEALED length != prefixo do ACTIVE + footer"
      else if na.status ≠ stateActive then some "novo segmento não é ACTIVE"
      else if na.ordinal ≠ oldActive.ordinal + 1 ∨ na.segmentId ≠ oldActive.segmentId + 1 then
        some "ordinal/segment_id do novo ACTIVE incorretos"
      else if na.firstSeq ≠ cand.readSeq + 1 then some "first_seq do novo ACTIVE != R+1"
      else if na.recordCount ≠ 0 ∨ na.sealedObjectLength ≠ 0 ∨ na.sealedObjectSha256 ≠ zeros 32 then
        some "novo ACTIVE não está vazio/canônico"
      else if na.durablePrefixLength ≤ 0 then some "novo ACTIVE sem header durável"
      else if na.prevSegmentDigest ≠ newSealed.sealedObjectSha256.take 16 then
        some "cadeia do novo ACTIVE quebrada"
      else if na.keyId ≠ oldActive.keyId then some "key_id do novo ACTIVE mudou"
      else none

/-- `_validate_maintenance`. -/
def validateMaintenance (prev cand : EpochManifest) : Option String :=
  if cand.scopeId ≠ prev.scopeId then some "MAINTENANCE mudou o scope"
  else if cand.generationId ≠ prev.generationId + 1 then some "generation_id != prev+1"
  else if cand.parentGenerationId ≠ prev.generationId then
    some "parent_generation_id != prev.generation_id"
  else if cand.readSeq ≠ prev.readSeq then some "MAINTENANCE mudou R"
  else if cand.baseSeq ≠ cand.readSeq then
    some "base_seq != read_seq (base não absorveu até R)"
  else
    match cand.segments with
    | [na] =>
      if na.status ≠ stateActive then some "o segmento único de G+1 não é ACTIVE"
      else if na.firstSeq ≠ cand.readSeq + 1 then some "novo ACTIVE não começa em R+1"
      else if na.recordCount ≠ 0 ∨ na.sealedObjectLength ≠ 0 ∨ na.sealedObjectSha256 ≠ zeros 32 then
        some "novo ACTIVE de G+1 não está vazio/canônico"
      else if na.durablePrefixLength ≤ 0 then some "novo ACTIVE sem header durável"
      else none
    | _ => some "G+1 deve ter exatamente 1 segmento"

/-- `validate_publication_transition`: the reason the transition is not permitted. -/
def validatePublicationTransition (previous : Option EpochManifest) (candidate : EpochManifest)
    (purpose : PublicationPurpose) : Option String :=
  match purpose, previous with
  | .genesis, some _ => some "GENESIS exige ausência de manifesto anterior"
  | .genesis, none => none
  | _, none => some s!"{purpose.name} exige manifesto anterior"
  | _, some prev =>
    match prev.segments.getLast?, candidate.segments.getLast? with
    | some oldActive, some candActive =>
      if purpose = .maintenance then validateMaintenance prev candidate
      else if ¬ sameGenerationIdentity prev candidate then
        some "identidade imutável da geração mudou"
      else if purpose = .batch then validateBatch prev candidate oldActive candActive
      else validateRotation prev candidate oldActive candActive
    | _, _ => some "manifesto sem segmentos"

inductive LeaseState where
  | ownedByStore
  | ownedByRotation
  | ownedByPrepared
  | ownedByNewStore
  | closed
  | ownedByCompaction
  | ownedByCompactionPrepared
  deriving DecidableEq, Repr

def LeaseState.name : LeaseState → String
  | .ownedByStore => "OWNED_BY_STORE"
  | .ownedByRotation => "OWNED_BY_ROTATION"
  | .ownedByPrepared => "OWNED_BY_PREPARED"
  | .ownedByNewStore => "OWNED_BY_NEW_STORE"
  | .closed => "CLOSED"
  | .ownedByCompaction => "OWNED_BY_COMPACTION"
  | .ownedByCompactionPrepared => "OWNED_BY_COMPACTION_PREPARED"

/-- What a publication looks at in a writer lease. -/
structure Lease where
  isSealed : Bool
  held : Bool
  fdOpen : Bool
  scopeId : Int
  state : LeaseState
  deriving DecidableEq, Repr

def PublicationPurpose.allowed : PublicationPurpose → List LeaseState
  | .genesis => []
  | .batch => [.ownedByStore, .ownedByNewStore]
  | .rotation => [.ownedByPrepared]
  | .maintenance => [.ownedByCompactionPrepared]

/-- `_check_authority`: the reason the lease does not authorize the purpose. -/
def checkAuthority (authority : Option Lease) (purpose : PublicationPurpose)
    (storeScope : Option Int) : Option String :=
  match purpose, authority with
  | .genesis, none => none
  | .genesis, some _ => some "GENESIS não aceita lease"
  | _, none => some s!"{purpose.name} exige lease"
  | _, some lease =>
    if ¬ (lease.isSealed ∧ lease.held) then some "lease inválido (selo/held)"
    else if ¬ lease.fdOpen then some "FD do lease inválido"
    else if ∃ scope ∈ storeScope, lease.scopeId ≠ scope then some "lease de outro scope"
    else if lease.state ∉ purpose.allowed then
      some s!"estado {lease.state.name} não permitido para {purpose.name}"
    else none

@[ext] structure PublicationProof where
  scopeId : Int
  generationId : Int
  revision : Int
  readSeq : Int
  manifestSha256 : Bytes
  publicationSha256 : Bytes
  nextActiveSegmentId : Int
  nextActiveFirstSeq : Int
  nextActivePrefixLength : Int
  nextActivePrefixSha256 : Bytes
  deriving Repr

instance : DecidableEq PublicationProof := fun _ _ =>
  decidable_of_iff _ PublicationProof.ext_iff.symm

/-- `_proof_from`. -/
def proofFrom (record : PublicationRecord) (pubSha : Bytes) (active : WalSegmentDescriptor) :
    PublicationProof :=
  ⟨record.scopeId, record.generationId, record.revision, record.readSeq, record.manifestSha256,
    pubSha, active.segmentId, active.firstSeq, active.durablePrefixLength,
    active.durablePrefixSha256⟩

structure PublishResult where
  state : PublishState
  proof : Option PublicationProof
  reason : String
  deriving DecidableEq, Repr

/-- The named failpoints, in the order a publication passes them. -/
inductive Failpoint where
  | afterManifest
  | afterRecord
  | beforeCurrentReplace
  | afterReplaceBeforeDirfsync
  | afterDirfsyncBeforeProof
  deriving DecidableEq, Repr

/-- The arguments of one call of `_publish_impl`; `crash` is the failpoint at which the
process ends, if it does. -/
structure PublishCall where
  storeScope : Option Int
  walStore : WalStore
  candidateManifestBlob : Bytes
  expectedCurrentDigest : Bytes
  keyId : Int
  limits : PublicationLimits
  authority : Option Lease
  purpose : Option PublicationPurpose
  requirePhysicalOpen : Bool
  crash : Option Failpoint
  deriving DecidableEq

/-- How a call ends before it writes anything. -/
inductive PublishStop where
  | answer (r : PublishResult)
  | raised (e : PyError)
  deriving DecidableEq, Repr

def refuse (state : PublishState) (reason : String) : PublishStop := .answer ⟨state, none, reason⟩

def openCandidate (c : Crypto) (keyring : Keyring) (disk : PublicationDisk)
    (call : PublishCall) : Except PublishStop Unit :=
  if call.requirePhysicalOpen then
    match openGeneration c (some call.candidateManifestBlob) disk.objects call.walStore keyring
        call.limits.artifact none none call.limits.generation with
    | .ok _ => .ok ()
    | .error (.raised e) => .error (.raised e)
    | .error (.state _ reason) => .error (refuse .invalidCandidate s!"candidato: {reason}")
  else .ok ()

/-- What `CURRENT` says under the lock: the revision and the predecessor of the new record. -/
structure Observed where
  revision : Int
  previous : Bytes
  prevRecord : Option PublicationRecord
  deriving DecidableEq, Repr

def observeCurrent (c : Crypto) (keyring : Keyring) (disk : PublicationDisk) (call : PublishCall)
    (man : EpochManifest) (active : WalSegmentDescriptor) : Except PublishStop Observed :=
  match readCurrent c keyring disk call.limits.maxCurrentBytes with
  | .error (.missing, _) =>
    if call.expectedCurrentDigest ≠ zeros 32 then
      .error (refuse .staleCurrent "esperava CURRENT, mas ausente")
    else .ok ⟨0, zeros 32, none⟩
  | .error _ => .error (refuse .abstain "CURRENT ilegível — não sobrescreve")
  | .ok ptr =>
    match openPublicationRecord c keyring disk.objects ptr.publicationSha256
        call.limits.maxRecordBytes with
    | .error _ => .error (refuse .abstain "PublicationRecord do CURRENT ilegível")
    | .ok rec =>
      if ptr.keyId ≠ rec.keyId then
        .error (refuse .abstain "CURRENT.key_id != record.key_id")
      else if rec.previousPublicationSha256 = call.expectedCurrentDigest ∧
          rec.manifestSha256 = c.sha256 call.candidateManifestBlob ∧
          rec.readSeq = man.readSeq ∧ rec.scopeId = man.scopeId ∧
          rec.generationId = man.generationId then
        .error (.answer ⟨.alreadyPublished, some (proofFrom rec ptr.publicationSha256 active),
          "idempotente"⟩)
      else if ptr.publicationSha256 ≠ call.expectedCurrentDigest then
        .error (refuse .staleCurrent "CURRENT != expected")
      else .ok ⟨rec.revision + 1, ptr.publicationSha256, some rec⟩

/-- The manifest of the record `CURRENT` names. -/
def previousManifest (c : Crypto) (keyring : Keyring) (disk : PublicationDisk)
    (limits : PublicationLimits) (prevRecord : Option PublicationRecord) :
    Except PublishStop (Option EpochManifest) :=
  match prevRecord with
  | none => .ok none
  | some rec =>
    match disk.objects.getLimited rec.manifestSha256 limits.artifact.maxBlobBytes with
    | .error _ => .error (refuse .abstain "manifesto anterior ilegível")
    | .ok blob =>
      match parseManifest c keyring (some blob) with
      | .error _ => .error (refuse .abstain "manifesto anterior não abre")
      | .ok man => .ok (some man)

def authorize (c : Crypto) (keyring : Keyring) (disk : PublicationDisk) (call : PublishCall)
    (man : EpochManifest) (prevRecord : Option PublicationRecord) : Except PublishStop Unit :=
  match call.purpose with
  | none => .ok ()
  | some purpose =>
    match checkAuthority call.authority purpose call.storeScope with
    | some reason => .error (refuse .invalidAuthority reason)
    | none => do
      let prev ← previousManifest c keyring disk call.limits prevRecord
      match validatePublicationTransition prev man purpose with
      | some reason => .error (refuse .invalidTransition reason)
      | none => return ()

/-- What is about to be written. -/
structure PublishPlan where
  key : Bytes
  record : PublicationRecord
  recordBlob : Bytes
  active : WalSegmentDescriptor
  deriving DecidableEq, Repr

def preparePublish (c : Crypto) (keyring : Keyring) (disk : PublicationDisk)
    (call : PublishCall) : Except PublishStop PublishPlan := do
  let key ← orThrow (keyring.get call.keyId) (refuse .invalidSemantics "key_id desconhecido")
  openCandidate c keyring disk call
  let man ← (parseManifest c keyring (some call.candidateManifestBlob)).mapError fun _ =>
    refuse .invalidCandidate "manifesto ilegível"
  let active ← orThrow (activeSegment man) (refuse .invalidSemantics "geração sem ACTIVE final")
  require (c.sha256 call.candidateManifestBlob ≠ zeros 32)
    (refuse .invalidSemantics "manifest_sha256 zero")
  let observed ← observeCurrent c keyring disk call man active
  authorize c keyring disk call man observed.prevRecord
  let record : PublicationRecord :=
    ⟨man.scopeId, man.generationId, observed.revision, man.readSeq,
      c.sha256 call.candidateManifestBlob, observed.previous, call.keyId⟩
  let recordBlob ← (record.serialize c key).mapError .raised
  return ⟨key, record, recordBlob, active⟩

/-- What the caller of a publication sees: an answer, an exception, or nothing. -/
inductive PublishOutcome where
  | answered (r : PublishResult)
  | raised (e : PyError)
  | crashed
  deriving DecidableEq, Repr

def PublishStop.outcome : PublishStop → PublishOutcome
  | .answer r => .answered r
  | .raised e => .raised e

/-- `_write_current_pointer` and the proof: the rename is the only write to `CURRENT`. -/
def writeCurrentPointer (c : Crypto) (call : PublishCall) (plan : PublishPlan)
    (disk : PublicationDisk) : PublishOutcome × PublicationDisk :=
  let pubSha := c.sha256 plan.recordBlob
  match serializeCurrent c pubSha call.keyId plan.key with
  | .error e => (.raised e, disk)
  | .ok currentBlob =>
    if call.crash = some .beforeCurrentReplace then (.crashed, disk)
    else
      let disk := { disk with current := some currentBlob }
      if call.crash = some .afterReplaceBeforeDirfsync ∨
          call.crash = some .afterDirfsyncBeforeProof then (.crashed, disk)
      else
        (.answered ⟨.published, some (proofFrom plan.record pubSha plan.active), "publicado"⟩, disk)

def writePublication (c : Crypto) (call : PublishCall) (plan : PublishPlan)
    (disk : PublicationDisk) : PublishOutcome × PublicationDisk :=
  match disk.objects.putObject c call.candidateManifestBlob with
  | .error e => (.raised e, disk)
  | .ok objects =>
    if call.crash = some .afterManifest then (.crashed, { disk with objects := objects })
    else
      match objects.putObject c plan.recordBlob with
      | .error e => (.raised e, { disk with objects := objects })
      | .ok objects =>
        if call.crash = some .afterRecord then (.crashed, { disk with objects := objects })
        else writeCurrentPointer c call plan { disk with objects := objects }

/-- `_publish_impl`, under its lock. -/
def publishImpl (c : Crypto) (keyring : Keyring) (disk : PublicationDisk) (call : PublishCall) :
    PublishOutcome × PublicationDisk :=
  match preparePublish c keyring disk call with
  | .error stop => (stop.outcome, disk)
  | .ok plan => writePublication c call plan disk

/-- The states of a cursor other than `VALID`. -/
inductive CursorState where
  | noCurrent
  | corrupt
  | incompatible
  | resourceLimit
  deriving DecidableEq, Repr

@[ext] structure PublishedCursor where
  proof : PublicationProof
  manifestBlob : Bytes
  manifest : EpochManifest
  activeDescriptor : WalSegmentDescriptor
  revision : Int
  readSeq : Int

instance : DecidableEq PublishedCursor := fun _ _ =>
  decidable_of_iff _ PublishedCursor.ext_iff.symm

/-- How a fault of `CURRENT` becomes a state of the cursor. -/
def currentCursorFault : PublicationFault → CursorState × String
  | (.missing, _) => (.noCurrent, "CURRENT ausente")
  | (.resourceLimit, why) => (.resourceLimit, s!"CURRENT: {why}")
  | (_, why) => (.corrupt, s!"CURRENT: {why}")

/-- `open_published_cursor`: every link from `CURRENT` to the active segment. -/
def openPublishedCursor (c : Crypto) (keyring : Keyring) (disk : PublicationDisk)
    (storeScope : Option Int) (limits : PublicationLimits) :
    Except (CursorState × String) PublishedCursor := do
  let ptr ← (readCurrent c keyring disk limits.maxCurrentBytes).mapError currentCursorFault
  let record ← (openPublicationRecord c keyring disk.objects ptr.publicationSha256
    limits.maxRecordBytes).mapError fun fault => (.corrupt, s!"PublicationRecord: {fault.2}")
  require (ptr.keyId = record.keyId) (.corrupt, "CURRENT.key_id != record.key_id")
  let blob ← (disk.objects.getLimited record.manifestSha256
    limits.artifact.maxBlobBytes).mapError fun reason => (.corrupt, s!"manifesto: {reason.text}")
  require (c.sha256 blob = record.manifestSha256) (.corrupt, "manifesto não casa manifest_sha256")
  let man ← (parseManifest c keyring (some blob)).mapError fun fault =>
    (.corrupt, s!"manifesto ilegível: {fault.2}")
  require (record.scopeId = man.scopeId ∧ record.generationId = man.generationId ∧
    record.readSeq = man.readSeq) (.corrupt, "record ↔ manifesto incoerentes")
  require (∀ scope ∈ storeScope, scope = man.scopeId) (.incompatible, "scope do store != manifesto")
  let coverage := checkCoverage man
  require (coverage = none) (.corrupt, "cobertura: " ++ coverage.getD "")
  let resources := generationPreflight man blob.length limits.generation
  require (resources = none) (.resourceLimit, "limites: " ++ resources.getD "")
  let active ← orThrow (activeSegment man) (.corrupt, "geração sem ACTIVE final")
  return ⟨proofFrom record ptr.publicationSha256 active, blob, man, active, record.revision,
    man.readSeq⟩

end ProofRay.Engine
