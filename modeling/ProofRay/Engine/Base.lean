/- One generation's base: opening its artifacts, their cross validation, the consumer's read and
   the base view of the writers (`horizon_artifacts.py`, `horizon_store.py`). -/

import Mathlib.Data.Finset.Lattice.Basic
import ProofRay.Engine.Artifacts
import ProofRay.Engine.DedupTable
import ProofRay.Engine.Layers
import ProofRay.Engine.Registry

namespace ProofRay.Engine

open Lib.Guard
open Lib.Struct (unpackFrom)

abbrev Component : ArtifactKind → Type
  | .registry => FactRegistry
  | .bulk => BulkSnapshot
  | .residual => ResidualField
  | .tombstone => TombstoneLayer
  | .dedup => DedupTable

/-- `_PARSERS`. -/
def parseArtifact (c : Crypto) : (kind : ArtifactKind) → Bytes → Bytes →
    Except PyError (Component kind)
  | .registry, blob, key => FactRegistry.init c blob key
  | .bulk, blob, key => BulkSnapshot.init c blob key
  | .residual, blob, key => ResidualField.init c blob key
  | .tombstone, blob, key => TombstoneLayer.init c blob key
  | .dedup, blob, key => DedupTable.init c blob key

/-- The counts a header declares; those a kind does not have are zero. -/
structure Counts where
  factCount : Int := 0
  entries : Int := 0
  corrections : Int := 0
  pages : Int := 0
  clients : Int := 0
  deriving DecidableEq, Repr

/-- `_peek_counts`; nothing when the header is cut short. -/
def peekCounts : ArtifactKind → Bytes → Option Counts
  | .registry, blob => do
    let (_, _, _, _, fc, n, _) ← unpackFrom regHeaderFormat blob 0
    return { factCount := fc, entries := n }
  | .bulk, blob => do
    let (_, _, _, _, _, fc, _) ← unpackFrom bulkHeaderFormat blob 0
    return { factCount := fc }
  | .residual, blob => do
    let (_, _, _, _, fc, page, ncorr, _) ← unpackFrom residualHeaderFormat blob 0
    return { factCount := fc, corrections := ncorr,
             pages := if page = 0 then 0 else (ncorr + page - 1) / page }
  | .tombstone, blob => do
    let (_, _, _, _, fc, _) ← unpackFrom tombHeaderFormat blob 0
    return { factCount := fc }
  | .dedup, blob => do
    let (_, _, _, _, _, _, _, ne, nc, _) ← unpackFrom dedupHeaderFormat blob 0
    return { entries := ne, clients := nc }

/-- `_check_limits`. -/
def checkLimits (kind : ArtifactKind) (counts : Counts) (limits : ArtifactLimits) : Prop :=
  counts.factCount ≤ limits.maxFactCount ∧
    counts.entries ≤ (if kind = .dedup then limits.maxDedupEntries
      else limits.maxRegistryEntries) ∧
    counts.corrections ≤ limits.maxCorrections ∧ counts.pages ≤ limits.maxPages ∧
    counts.clients ≤ limits.maxClients

instance (kind : ArtifactKind) (counts : Counts) (limits : ArtifactLimits) :
    Decidable (checkLimits kind counts limits) :=
  inferInstanceAs (Decidable (_ ∧ _))

/-- A state other than `VALID`, with its reason code. -/
abbrev ArtifactFault := ArtifactOpenState × String

/-- The error a parser ends with, as `open_artifact` reports it. -/
def parserFault : PyError → ArtifactFault
  | .incompatibleError _ => (.incompatible, "UNSUPPORTED_VERSION")
  | _ => (.corrupt, "MAC_MISMATCH")

/-- The descriptor, the key, presence, size, length, digest and counts, and only then the
parser. -/
def openArtifact (c : Crypto) (limits : ArtifactLimits) (keyring : Keyring) (kind : ArtifactKind)
    (descriptor : ArtifactDescriptor) (blob : Option Bytes) :
    Except ArtifactFault (Component kind) := do
  require (descriptor.sha256.length = 32 ∧ 0 ≤ descriptor.byteLength) (.corrupt, "BAD_DESCRIPTOR")
  require (descriptor.formatVersion = kind.descriptorVersion) (.incompatible, "UNSUPPORTED_VERSION")
  let key ← orThrow (keyring.get descriptor.keyId) (.incompatible, "KEY_UNKNOWN")
  let blob ← orThrow blob
    (if descriptor.required then .requiredMissing else .absentAllowed, "MISSING")
  require ((blob.length : Int) ≤ limits.maxBlobBytes) (.resourceLimit, "COUNT_LIMIT")
  require ((blob.length : Int) = descriptor.byteLength) (.corrupt, "NON_CANONICAL_LENGTH")
  require (c.sha256 blob = descriptor.sha256) (.corrupt, "DIGEST_MISMATCH")
  let counts ← orThrow (peekCounts kind blob) (.corrupt, "NON_CANONICAL_LENGTH")
  require (checkLimits kind counts limits) (.resourceLimit, "COUNT_LIMIT")
  (parseArtifact c kind blob key).mapError parserFault

def baseParts (registry : FactRegistry) (bulk : BulkSnapshot) (residual : ResidualField)
    (tombstone : TombstoneLayer) : List (String × Int × Int × Nat) :=
  [("registry", registry.scopeId, registry.generationId, registry.factCount),
    ("bulk", bulk.scopeId, bulk.generationId, bulk.factCount),
    ("residual", residual.scopeId, residual.bulkEpoch, residual.factCount),
    ("tombstone", tombstone.scopeId, tombstone.bulkEpoch, tombstone.factCount)]

def partFault (scopeId generationId factCount : Int) : List (String × Int × Int × Nat) →
    Option String
  | [] => none
  | (name, sc, gn, fc) :: parts =>
    if ¬ (sc = scopeId ∧ gn = generationId) then some s!"{name}: scope/generation divergente"
    else if (fc : Int) ≠ factCount then some s!"{name}: fact_count divergente"
    else partFault scopeId generationId factCount parts

def supportFault (registry : FactRegistry) (bulk : BulkSnapshot) (residual : ResidualField)
    (tombstone : TombstoneLayer) : Option String :=
  if bulk.supportOrdinals ≠ registry.ordinals then some "support(bulk) != ordinais(registry)"
  else if ¬ residual.supportOrdinals ⊆ bulk.supportOrdinals then
    some "support(residual) ⊄ support(bulk)"
  else if ¬ tombstone.supportOrdinals ⊆ bulk.supportOrdinals then
    some "support(tombstone) ⊄ support(bulk)"
  else if ¬ residual.supportOrdinals ∩ tombstone.supportOrdinals = ∅ then
    some "support(residual) ∩ support(tombstone) != ∅ (correção morta)"
  else none

/-- `validate_base_artifacts`: the reason the four do not form one base. -/
def validateBaseArtifacts (registry : FactRegistry) (bulk : BulkSnapshot)
    (residual : ResidualField) (tombstone : TombstoneLayer)
    (scopeId generationId factCount : Int) : Option String :=
  match partFault scopeId generationId factCount (baseParts registry bulk residual tombstone) with
  | some reason => some reason
  | none => supportFault registry bulk residual tombstone

structure ReadView where
  generationId : Int
  scopeId : Int
  baseSeq : Int
  readSeq : Int
  deriving DecidableEq, Repr

structure GenerationBundle where
  scopeId : Int
  generationId : Int
  field : Option ResidualField
  registry : Option FactRegistry
  tombstone : OpenTombstone
  bulk : BulkSnapshot

inductive ReadStatus where
  | correct
  | deleted
  | fromBulk
  | fallbackBulk
  | abstain
  | notFound
  deriving DecidableEq, Repr

inductive ReadSource where
  | l0
  | residual
  | tombstone
  | bulk
  | none
  deriving DecidableEq, Repr

structure ReadResult where
  status : ReadStatus
  value : Option Int
  authoritative : Bool
  source : ReadSource
  deriving DecidableEq, Repr

def abstention : ReadResult := ⟨.abstain, none, false, .none⟩

def tombstoneMatches (view : ReadView) : OpenTombstone → Prop
  | .valid layer => layer.scopeId = view.scopeId ∧ layer.bulkEpoch = view.generationId
  | _ => True

instance (view : ReadView) : (t : OpenTombstone) → Decidable (tombstoneMatches view t)
  | .valid layer =>
    inferInstanceAs (Decidable (layer.scopeId = view.scopeId ∧ layer.bulkEpoch = view.generationId))
  | .absentAllowed | .requiredMissing | .incompatible | .corrupt => isTrue trivial

/-- `_view_matches`: every component belongs to the scope and generation of the view. -/
def viewMatches (view : ReadView) (bundle : GenerationBundle) : Prop :=
  (bundle.scopeId = view.scopeId ∧ bundle.generationId = view.generationId) ∧
    (∀ r ∈ bundle.registry, r.scopeId = view.scopeId ∧ r.generationId = view.generationId) ∧
    (∀ f ∈ bundle.field, f.scopeId = view.scopeId ∧ f.bulkEpoch = view.generationId) ∧
    (bundle.bulk.scopeId = view.scopeId ∧ bundle.bulk.generationId = view.generationId) ∧
    tombstoneMatches view bundle.tombstone

instance (view : ReadView) (bundle : GenerationBundle) : Decidable (viewMatches view bundle) :=
  inferInstanceAs (Decidable (_ ∧ _))

def readBase (c : Crypto) (view : ReadView) (bundle : GenerationBundle) (ordinal : Nat) :
    ReadResult :=
  match resolve c bundle.field bundle.tombstone ordinal view.scopeId view.generationId with
  | .correct v => ⟨.correct, some v, true, .residual⟩
  | .deleted => ⟨.deleted, none, true, .tombstone⟩
  | .noResidual =>
    match bundle.bulk.lookup ordinal with
    | .value v => ⟨.fromBulk, some v, true, .bulk⟩
    | _ => abstention
  | .fallback =>
    match bundle.bulk.lookup ordinal with
    | .value v => ⟨.fallbackBulk, some v, false, .bulk⟩
    | _ => abstention
  | _ => abstention

def read (c : Crypto) (view : ReadView) (bundle : GenerationBundle) (l0 : WalIndex)
    (factId : Int) : ReadResult :=
  if ¬ viewMatches view bundle then abstention
  else
    match l0.get factId with
    | some e => if e.op = .delete then ⟨.deleted, none, true, .l0⟩ else ⟨.correct, e.value, true, .l0⟩
    | none =>
      match bundle.registry with
      | none => abstention
      | some registry =>
        match registry.lookup factId with
        | none => ⟨.notFound, none, true, .none⟩
        | some e => readBase c view bundle e.ordinal

/-- `BundleBaseView.lookup`. -/
def bundleLookup (c : Crypto) (view : ReadView) (bundle : GenerationBundle) (factId : Int) :
    BaseFact :=
  if ¬ (bundle.scopeId = view.scopeId ∧ bundle.generationId = view.generationId) then .abstain
  else
    match bundle.registry with
    | none => .abstain
    | some registry =>
      match registry.lookup factId with
      | none => .absent
      | some e =>
        match resolve c bundle.field bundle.tombstone e.ordinal view.scopeId view.generationId with
        | .deleted => .fact ⟨e.factVersion, .delete, none⟩
        | .correct v => .fact ⟨e.factVersion, .put, some v⟩
        | .noResidual =>
          match bundle.bulk.lookup e.ordinal with
          | .value v => .fact ⟨e.factVersion, .put, some v⟩
          | _ => .abstain
        | _ => .abstain

/-- `BundleBaseView.dedup_probe`: a table of another generation is no memory, and says so. -/
def bundleDedupProbe (view : ReadView) (baseDedup : Option DedupTable)
    (operationId digest : Bytes) : Probe :=
  match baseDedup with
  | none => .new
  | some d =>
    if d.scopeId ≠ view.scopeId ∨ d.generationId ≠ view.generationId then .abstain
    else d.probe operationId digest

def bundleBaseView (c : Crypto) (view : ReadView) (bundle : GenerationBundle)
    (baseDedup : Option DedupTable) : BaseView :=
  ⟨bundleLookup c view bundle, bundleDedupProbe view baseDedup⟩

end ProofRay.Engine
