/- The log store: active segments, one growing file for each identity, and sealed
   segments among the content-addressed objects (`horizon_walstore.py`). -/

import ProofRay.Engine.Artifacts
import ProofRay.Engine.Reducer

namespace ProofRay.Engine

open Lib (Dict)
open Lib.Guard
open Lib.Struct (unpack)

structure WalIdentity where
  scopeId : Int
  segmentId : Int
  deriving DecidableEq, Repr

def u32Max : Int := 4294967295

abbrev WalIdentity.Ok (identity : WalIdentity) : Prop :=
  (0 ≤ identity.scopeId ∧ identity.scopeId ≤ u32Max) ∧
    0 ≤ identity.segmentId ∧ identity.segmentId ≤ u32Max

structure WalStoreLimits where
  maxActiveBytes : Int
  maxSealedBytes : Int
  deriving DecidableEq, Repr

def defaultWalStoreLimits : WalStoreLimits := ⟨1 <<< 30, 1 <<< 30⟩

/-- The states of the store other than `VALID`. -/
inductive WalStoreState where
  | missing
  | alreadyExists
  | corrupt
  | incompatible
  | resourceLimit
  | ioError
  | poisoned
  deriving DecidableEq, Repr

/-- The states of a read prefix other than `VALID`. -/
inductive ActivePrefixState where
  | missing
  | missingCommittedPrefix
  | corrupt
  | incompatible
  | resourceLimit
  | ioError
  deriving DecidableEq, Repr

/-- `wal/active/<scope>/<segment>.hwal` and `objects/`, under one root. -/
structure WalStore where
  active : Dict WalIdentity Bytes
  objects : ObjectStore
  deriving DecidableEq

def authenticateHeader (c : Crypto) (keyring : Keyring) (header : Bytes)
    (identity : WalIdentity) : Except (WalStoreState × String) WalHeaderInfo := do
  require (segHeaderSize + tagBytes ≤ header.length) (.corrupt, "header curto")
  let keyId := (SegHeader.ofRecord (unpack segHeaderFormat header)).kid
  let key ← orThrow (keyring.get keyId) (.incompatible, "key_id desconhecido")
  let sr := scan c key true identity.scopeId identity.segmentId none
    (some (header.take (segHeaderSize + tagBytes)))
  require (sr.classification ≠ .incompatible) (.incompatible, "versão do WAL")
  require (sr.classification = .clean) (.corrupt, "header diverge da identidade")
  orThrow sr.header (.corrupt, "header diverge da identidade")

def headerPrefixState : WalStoreState × String → ActivePrefixState × String
  | (.incompatible, reason) => (.incompatible, reason)
  | (_, reason) => (.corrupt, reason)

/-- What the manifest vouches for: the first `byteLength` bytes and their digest. -/
structure ActivePrefixExpectation where
  byteLength : Int
  sha256 : Bytes
  deriving DecidableEq, Repr

namespace WalStore

def readActivePrefix (c : Crypto) (keyring : Keyring) (store : WalStore) (identity : WalIdentity)
    (expected : ActivePrefixExpectation) (limits : WalStoreLimits) :
    Except (ActivePrefixState × String) ValidatedWalSegment := do
  require identity.Ok (.corrupt, "identidade fora de u32")
  require (expected.sha256.length = 32 ∧ 0 < expected.byteLength) (.corrupt, "expectation inválida")
  require (expected.byteLength ≤ limits.maxActiveBytes) (.resourceLimit, "prefixo excede o limite")
  let file ← orThrow (store.active.get identity) (.missing, "ACTIVE ausente")
  require (expected.byteLength ≤ file.length)
    (.missingCommittedPrefix, "arquivo menor que o prefixo")
  let data := file.take expected.byteLength.toNat
  require (c.sha256 data = expected.sha256) (.corrupt, "prefixo diverge do digest")
  let hi ← (authenticateHeader c keyring data identity).mapError headerPrefixState
  let key ← orThrow (keyring.get hi.keyId) (.incompatible, "key_id desconhecido")
  let sr := scan c key true identity.scopeId identity.segmentId none (some data)
  require (sr.classification ≠ .incompatible) (.incompatible, "versão do WAL")
  require (sr.classification = .clean ∧ sr.droppedTailBytes = 0 ∧
      (sr.consumedBytes : Int) = expected.byteLength)
    (.corrupt, s!"prefixo não canônico ({sr.classification.text})")
  require (¬ sr.isSealed) (.incompatible, "footer no prefixo ACTIVE")
  return ⟨hi, sr.frames, sr.lastSeq, expected.byteLength.toNat, false, true⟩

def openSealed (c : Crypto) (store : WalStore) (sha256 : Bytes) (limits : WalStoreLimits) :
    Except (WalStoreState × String) Bytes := do
  let data ← orThrow (store.objects.get sha256) (.missing, "ausente")
  require ((data.length : Int) ≤ limits.maxSealedBytes)
    (.resourceLimit, "excede o limite de tamanho")
  require (c.sha256 data = sha256) (.corrupt, "digest não confere")
  return data

def sealedSegmentState : WalStoreState × String → ActivePrefixState × String
  | (.missing, reason) => (.missing, reason)
  | (.resourceLimit, reason) => (.resourceLimit, reason)
  | (.incompatible, reason) => (.incompatible, reason)
  | (_, reason) => (.corrupt, reason)

def readSealedSegment (c : Crypto) (keyring : Keyring) (store : WalStore)
    (descriptor : WalSegmentDescriptor) (scopeId : Int) (limits : WalStoreLimits) :
    Except (ActivePrefixState × String) ValidatedWalSegment := do
  let obj ← (store.openSealed c descriptor.sealedObjectSha256 limits).mapError sealedSegmentState
  require ((obj.length : Int) = descriptor.sealedObjectLength) (.corrupt, "comprimento do objeto")
  let key ← orThrow (keyring.get descriptor.keyId) (.incompatible, "key_id desconhecido")
  let sr := scan c key true scopeId descriptor.segmentId none (some obj)
  require (sr.classification ≠ .incompatible) (.incompatible, "versão do WAL")
  let reason := s!"scan={sr.classification.text} sealed={sr.isSealed}"
  require (sr.classification = .clean ∧ sr.isSealed) (.corrupt, reason)
  let header ← orThrow sr.header (.corrupt, reason)
  return ⟨header, sr.frames, sr.lastSeq, obj.length, true, true⟩

def readValidatedSegment (c : Crypto) (keyring : Keyring) (store : WalStore)
    (descriptor : WalSegmentDescriptor) (scopeId : Int) (limits : WalStoreLimits) :
    Except (ActivePrefixState × String) ValidatedWalSegment :=
  if descriptor.status = stateActive then
    store.readActivePrefix c keyring ⟨scopeId, descriptor.segmentId⟩
      ⟨descriptor.durablePrefixLength, descriptor.durablePrefixSha256⟩ limits
  else if descriptor.status ≠ stateSealed then .error (.corrupt, "status inválido")
  else store.readSealedSegment c keyring descriptor scopeId limits

end WalStore
end ProofRay.Engine
