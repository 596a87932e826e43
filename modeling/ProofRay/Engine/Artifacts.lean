/- The artifacts of a generation: their kinds, descriptors and limits, the keyring
   and the content-addressed object store (`horizon_artifacts.py`). -/

import ProofRay.Engine.Basis
import ProofRay.Lib.Dict

namespace ProofRay.Engine

open Lib (Dict)
open Lib.Guard

inductive ArtifactKind where
  | registry
  | bulk
  | residual
  | tombstone
  | dedup
  deriving DecidableEq, Repr

namespace ArtifactKind

def code : ArtifactKind → Int
  | .registry => 1
  | .bulk => 2
  | .residual => 3
  | .tombstone => 4
  | .dedup => 5

/-- `ArtifactKind(code)`, with no kind where the constructor raises. -/
def ofCode (code : Int) : Option ArtifactKind :=
  if code = 1 then some .registry
  else if code = 2 then some .bulk
  else if code = 3 then some .residual
  else if code = 4 then some .tombstone
  else if code = 5 then some .dedup
  else none

def name : ArtifactKind → String
  | .registry => "REGISTRY"
  | .bulk => "BULK"
  | .residual => "RESIDUAL"
  | .tombstone => "TOMBSTONE"
  | .dedup => "DEDUP"

/-- `DESCRIPTOR_VERSION`: the version of the format of the artifact itself. -/
def descriptorVersion : ArtifactKind → Int
  | .registry => 2
  | .bulk | .residual | .tombstone | .dedup => 1

end ArtifactKind

/-- `BASE_KINDS`: the canonical order of the five artifacts of a base. -/
def baseKinds : List ArtifactKind := [.registry, .bulk, .residual, .tombstone, .dedup]

theorem mem_baseKinds (kind : ArtifactKind) : kind ∈ baseKinds := by
  cases kind <;> decide

instance {α : Type} [DecidableEq α] : DecidableEq (ArtifactKind → α) := fun f g =>
  decidable_of_iff (∀ kind ∈ baseKinds, f kind = g kind)
    ⟨fun same => funext fun kind => same kind (mem_baseKinds kind), fun same kind _ => by rw [same]⟩

inductive ArtifactOpenState where
  | requiredMissing
  | absentAllowed
  | corrupt
  | incompatible
  | resourceLimit
  deriving DecidableEq, Repr

/-- `key_id` to key. -/
structure Keyring where
  keys : Dict Int Bytes
  deriving DecidableEq

def Keyring.get (k : Keyring) (keyId : Int) : Option Bytes := k.keys.get keyId

structure ArtifactLimits where
  maxBlobBytes : Int
  maxFactCount : Int
  maxRegistryEntries : Int
  maxCorrections : Int
  maxPages : Int
  maxDedupEntries : Int
  maxClients : Int
  deriving DecidableEq, Repr

def defaultArtifactLimits : ArtifactLimits :=
  ⟨64 <<< 20, 1 <<< 24, 1 <<< 24, 1 <<< 22, 1 <<< 20, 1 <<< 22, 1 <<< 20⟩

/-- A descriptor; its kind is the key it is filed under. -/
@[ext] structure ArtifactDescriptor where
  formatVersion : Int
  required : Bool
  byteLength : Int
  sha256 : Bytes
  keyId : Int
  deriving Repr

instance : DecidableEq ArtifactDescriptor := fun _ _ =>
  decidable_of_iff _ ArtifactDescriptor.ext_iff.symm

def makeDescriptor (c : Crypto) (kind : ArtifactKind) (blob : Bytes) (keyId : Int) :
    ArtifactDescriptor :=
  ⟨kind.descriptorVersion, true, blob.length, c.sha256 blob, keyId⟩

/-- Why an object is not read.  Objects are never rewritten, so that a file changing
under its reader (`CONCURRENT_CHANGE`) does not arise. -/
inductive ReadReason where
  | missing
  | countLimit
  deriving DecidableEq, Repr

def ReadReason.text : ReadReason → String
  | .missing => "MISSING"
  | .countLimit => "COUNT_LIMIT"

/-- The files `objects/<digest>.hobj`, by the digest their name spells. -/
structure ObjectStore where
  objects : Dict Bytes Bytes
  deriving DecidableEq

namespace ObjectStore

def init : ObjectStore := ⟨Dict.empty⟩

def get (store : ObjectStore) (digest : Bytes) : Option Bytes := store.objects.get digest

def getLimited (store : ObjectStore) (digest : Bytes) (maxBytes : Int) : Except ReadReason Bytes :=
  match store.get digest with
  | none => .error .missing
  | some blob => if (blob.length : Int) > maxBytes then .error .countLimit else .ok blob

def putObject (c : Crypto) (store : ObjectStore) (blob : Bytes) : Except PyError ObjectStore :=
  match store.get (c.sha256 blob) with
  | none => .ok ⟨store.objects.set (c.sha256 blob) blob⟩
  | some existing =>
    if existing = blob then .ok store
    else .error (.integrityError "objeto existente diverge do conteúdo (não sobrescrever)")

variable {blob : Bytes} {store store' : ObjectStore} {c : Crypto}

theorem getLimited_eq_ok_iff {store : ObjectStore} {digest : Bytes} {maxBytes : Int} :
    store.getLimited digest maxBytes = .ok blob ↔
      store.get digest = some blob ∧ (blob.length : Int) ≤ maxBytes := by
  unfold getLimited
  cases store.get digest with
  | none => simp
  | some found =>
    simp only [Option.some.injEq]
    split
    · constructor
      · intro h
        cases h
      · rintro ⟨rfl, fits⟩
        omega
    · rename_i fits
      constructor
      · intro h
        cases h
        exact ⟨rfl, by omega⟩
      · rintro ⟨rfl, -⟩
        rfl

def Extends (store store' : ObjectStore) : Prop :=
  ∀ digest blob, store.get digest = some blob → store'.get digest = some blob

theorem Extends.rfl {store : ObjectStore} : store.Extends store := fun _ _ h => h

theorem Extends.trans {s₁ s₂ s₃ : ObjectStore} (h : s₁.Extends s₂) (h' : s₂.Extends s₃) :
    s₁.Extends s₃ := fun d b found => h' d b (h d b found)

/-- What an accepted `put_object` does: the object is there, every other is as before. -/
theorem get_of_putObject (h : store.putObject c blob = .ok store') (digest : Bytes) :
    store'.get digest = if c.sha256 blob = digest then some blob else store.get digest := by
  unfold putObject at h
  split at h
  · cases h
    exact Dict.get_set store.objects (c.sha256 blob) digest blob
  · rename_i existing found
    split at h
    · rename_i same
      cases h
      split
      · rename_i name
        rw [← name, found, same]
      · rfl
    · cases h

theorem extends_of_putObject (h : store.putObject c blob = .ok store') : store.Extends store' := by
  intro digest found present
  rw [get_of_putObject h]
  split
  · rename_i name
    subst name
    unfold putObject at h
    rw [present] at h
    by_cases same : found = blob
    · rw [same]
    · simp [same] at h
  · exact present

theorem get_self_of_putObject (h : store.putObject c blob = .ok store') :
    store'.get (c.sha256 blob) = some blob := by
  rw [get_of_putObject h, if_pos (Eq.refl _)]

end ObjectStore
end ProofRay.Engine
