/- The reader and the writers consult the base of a generation by two cascades of their
   own; on a base that `open_generation` accepted they answer alike. -/

import ProofRay.Engine.GcReach

namespace ProofRay.Engine

open Lib.Guard

variable {c : Crypto} {limits : ArtifactLimits} {keyring : Keyring}

theorem TombstoneLayer.blob_of_init {blob key : Bytes} {layer : TombstoneLayer}
    (opened : TombstoneLayer.init c blob key = .ok layer) : layer.blob = blob := by
  unfold TombstoneLayer.init at opened
  simp only [bind_eq_ok, require_eq_ok] at opened
  obtain ⟨-, -, -, -, -, -, opened⟩ := opened
  split at opened
  · simp only [bind_eq_ok, require_eq_ok] at opened
    obtain ⟨-, -, opened⟩ := opened
    split at opened
    · cases opened
      rfl
    · cases opened
  · cases opened

theorem parsed_of_openArtifact {kind : ArtifactKind} {desc : ArtifactDescriptor}
    {blob : Option Bytes} {component : Component kind}
    (opened : openArtifact c limits keyring kind desc blob = .ok component) :
    ∃ key content, keyring.get desc.keyId = some key ∧
      parseArtifact c kind content key = .ok component := by
  simp only [openArtifact, bind_eq_ok, orThrow_eq_ok, mapError_eq_ok] at opened
  obtain ⟨-, -, -, -, key, known, content, -, -, -, -, -, -, -, -, -, -, -, parsed⟩ := opened
  exact ⟨key, content, known, parsed⟩

/-- The components of a bundle whose base was opened. -/
structure OpenedBundle (bundle : GenerationBundle) where
  registry : FactRegistry
  field : ResidualField
  layer : TombstoneLayer
  registry_eq : bundle.registry = some registry
  field_eq : bundle.field = some field
  tombstone_eq : bundle.tombstone = .valid layer
  registry_of : registry.scopeId = bundle.scopeId ∧ registry.generationId = bundle.generationId
  bulk_of : bundle.bulk.scopeId = bundle.scopeId ∧ bundle.bulk.generationId = bundle.generationId
  field_of : field.scopeId = bundle.scopeId ∧ field.bulkEpoch = bundle.generationId
  layer_of : layer.scopeId = bundle.scopeId ∧ layer.bulkEpoch = bundle.generationId

theorem partFault_eq_none {scopeId generationId factCount : Int}
    {parts : List (String × Int × Int × Nat)} :
    partFault scopeId generationId factCount parts = none ↔
      ∀ p ∈ parts, (p.2.1 = scopeId ∧ p.2.2.1 = generationId) ∧ (p.2.2.2 : Int) = factCount := by
  induction parts with
  | nil => simp [partFault]
  | cons part parts ih =>
    obtain ⟨name, sc, gn, fc⟩ := part
    simp only [partFault, ite_some_eq_none, ih, List.forall_mem_cons, not_not, and_assoc]

theorem openedBundle_of_openBase {store : ObjectStore} {man : EpochManifest} {base : OpenBase}
    (opened : openBase c limits keyring store man = .ok base) :
    Nonempty (OpenedBundle base.bundle) := by
  simp only [openBase, bind_eq_ok, require_eq_ok, pure_eq_ok] at opened
  obtain ⟨registry, -, bulk, -, field, -, layer, openedLayer, dedup, -, -, coherent, -, -, -, -,
    rfl⟩ := opened
  have parts : partFault man.scopeId man.generationId man.factCount
      (baseParts registry bulk field layer) = none := by
    unfold validateBaseArtifacts at coherent
    split at coherent
    · cases coherent
    · assumption
  have matched := partFault_eq_none.mp parts
  simp only [baseParts, List.forall_mem_cons] at matched
  obtain ⟨⟨registryOf, -⟩, ⟨bulkOf, -⟩, ⟨fieldOf, -⟩, ⟨layerOf, -⟩, -⟩ := matched
  obtain ⟨blob, -, openedArtifact⟩ := artifact_of_openBaseArtifact openedLayer
  obtain ⟨key, content, known, parsed⟩ := parsed_of_openArtifact openedArtifact
  have init : TombstoneLayer.init c content key = .ok layer := parsed
  have reopened : openTombstone c (some layer.blob)
      ((keyring.get (man.baseDescriptors .tombstone).keyId).getD []) true = .valid layer := by
    rw [known, Option.getD_some, TombstoneLayer.blob_of_init init, openTombstone, init]
  exact ⟨⟨registry, field, layer, rfl, rfl, reopened, registryOf, bulkOf, fieldOf, layerOf⟩⟩

theorem openedBundle_of_openGeneration {c : Crypto} {manifestBlob : Option Bytes}
    {objectStore : ObjectStore} {walStore : WalStore} {keyring : Keyring}
    {limits : ArtifactLimits} {parent : Option Bytes} {reducerLimits : Option ReducerLimits}
    {gl : GenerationLimits} {h : GenerationHandle}
    (opened : openGeneration c manifestBlob objectStore walStore keyring limits parent
      reducerLimits gl = .ok h) : Nonempty (OpenedBundle h.bundle) := by
  simp only [openGeneration, bind_eq_ok, pure_eq_ok] at opened
  obtain ⟨man, -, base, openedBase, rp, -, lineage, -, rfl⟩ := opened
  exact openedBundle_of_openBase openedBase

/-- What `read` and `BundleBaseView.lookup` answer together. -/
inductive Agreement (bundle : GenerationBundle) (factId : Int) : ReadResult → BaseFact → Prop where
  | notFound : Agreement bundle factId ⟨.notFound, none, true, .none⟩ .absent
  | abstain : Agreement bundle factId abstention .abstain
  | deleted {registry : FactRegistry} {e : RegistryEntry} (known : bundle.registry = some registry)
      (found : registry.lookup factId = some e) :
      Agreement bundle factId ⟨.deleted, none, true, .tombstone⟩
        (.fact ⟨e.factVersion, .delete, none⟩)
  | value {registry : FactRegistry} {e : RegistryEntry} (known : bundle.registry = some registry)
      (found : registry.lookup factId = some e) (v : Int) {status : ReadStatus}
      {source : ReadSource} (spoken : status = .correct ∨ status = .fromBulk) :
      Agreement bundle factId ⟨status, some v, true, source⟩ (.fact ⟨e.factVersion, .put, some v⟩)

namespace Agreement

variable {bundle : GenerationBundle} {factId : Int} {r : ReadResult} {f : BaseFact}

theorem value_iff (both : Agreement bundle factId r f) (v : Int) :
    (r.authoritative = true ∧ r.value = some v) ↔ ∃ version, f = .fact ⟨version, .put, some v⟩ := by
  cases both with
  | value _ _ w spoken => simp
  | _ => simp [abstention]

theorem deleted_iff (both : Agreement bundle factId r f) :
    r.status = .deleted ↔ ∃ version, f = .fact ⟨version, .delete, none⟩ := by
  cases both with
  | value _ _ w spoken => rcases spoken with rfl | rfl <;> simp
  | _ => simp [abstention]

theorem notFound_iff (both : Agreement bundle factId r f) : r.status = .notFound ↔ f = .absent := by
  cases both with
  | value _ _ w spoken => rcases spoken with rfl | rfl <;> simp
  | _ => simp [abstention]

theorem abstain_iff (both : Agreement bundle factId r f) : r.status = .abstain ↔ f = .abstain := by
  cases both with
  | value _ _ w spoken => rcases spoken with rfl | rfl <;> simp
  | _ => simp [abstention]

theorem version_eq (both : Agreement bundle factId r f) {registry : FactRegistry}
    (known : bundle.registry = some registry) {fact : VersionedFact} (looked : f = .fact fact) :
    ∃ e, registry.lookup factId = some e ∧ fact.version = e.factVersion := by
  cases both with
  | notFound => cases looked
  | abstain => cases looked
  | deleted known' found =>
    cases known.symm.trans known'
    cases looked
    exact ⟨_, found, rfl⟩
  | value known' found =>
    cases known.symm.trans known'
    cases looked
    exact ⟨_, found, rfl⟩

end Agreement

theorem viewMatches_iff {bundle : GenerationBundle} (b : OpenedBundle bundle) (view : ReadView) :
    viewMatches view bundle ↔
      bundle.scopeId = view.scopeId ∧ bundle.generationId = view.generationId := by
  constructor
  · exact fun matched => matched.1
  · rintro ⟨scope, generation⟩
    refine ⟨⟨scope, generation⟩, ?_, ?_, ?_, ?_⟩
    · rw [b.registry_eq]
      rintro r ⟨⟩
      rwa [b.registry_of.1, b.registry_of.2, and_iff_left generation]
    · rw [b.field_eq]
      rintro f ⟨⟩
      rwa [b.field_of.1, b.field_of.2, and_iff_left generation]
    · rwa [b.bulk_of.1, b.bulk_of.2, and_iff_left generation]
    · rw [b.tombstone_eq]
      show b.layer.scopeId = view.scopeId ∧ b.layer.bulkEpoch = view.generationId
      rwa [b.layer_of.1, b.layer_of.2, and_iff_left generation]

theorem ResidualField.lookup_ne_fallback (c : Crypto) (f : ResidualField) (ordinal : Nat)
    (scopeId bulkEpoch : Int) : f.lookup c ordinal scopeId bulkEpoch ≠ .fallback := by
  unfold ResidualField.lookup
  split
  · simp
  · split
    · simp
    · split
      · simp
      · split
        · simp
        · split
          · simp
          · split <;> simp

theorem resolve_ne_fallback {bundle : GenerationBundle} (b : OpenedBundle bundle) (c : Crypto)
    (ordinal : Nat) (scopeId bulkEpoch : Int) :
    resolve c bundle.field bundle.tombstone ordinal scopeId bulkEpoch ≠ .fallback := by
  rw [b.field_eq, b.tombstone_eq, resolve]
  split
  · simp
  · split
    · simp
    · split
      · simp
      · exact b.field.lookup_ne_fallback c ordinal scopeId bulkEpoch

variable {l0 : WalIndex}

theorem agreement {bundle : GenerationBundle} (b : OpenedBundle bundle) (c : Crypto)
    (view : ReadView) {factId : Int} (fresh : l0.get factId = none) :
    Agreement bundle factId (read c view bundle l0 factId) (bundleLookup c view bundle factId) := by
  by_cases matched : bundle.scopeId = view.scopeId ∧ bundle.generationId = view.generationId
  · rw [read, if_neg (not_not_intro ((viewMatches_iff b view).mpr matched)), fresh, bundleLookup,
      if_neg (not_not_intro matched), b.registry_eq]
    cases found : b.registry.lookup factId with
    | none =>
      simp only [found]
      exact .notFound
    | some e =>
      simp only [found, readBase]
      cases spoken : resolve c bundle.field bundle.tombstone e.ordinal view.scopeId
        view.generationId with
      | correct v => exact .value b.registry_eq found v (.inl rfl)
      | deleted => exact .deleted b.registry_eq found
      | noResidual =>
        cases bundle.bulk.lookup e.ordinal with
        | value v => exact .value b.registry_eq found v (.inr rfl)
        | absent => exact .abstain
        | outOfRange => exact .abstain
      | fallback => exact absurd spoken (resolve_ne_fallback b c _ _ _)
      | abstainIntegrity => exact .abstain
      | abstainScope => exact .abstain
      | abstainEpoch => exact .abstain
      | outOfRange => exact .abstain
  · rw [read, if_pos fun whole => matched ((viewMatches_iff b view).mp whole), bundleLookup,
      if_pos matched]
    exact .abstain

theorem tombstoned {bundle : GenerationBundle} (b : OpenedBundle bundle) (c : Crypto)
    (view : ReadView) (baseDedup : Option DedupTable) {factId : Int} (fresh : l0.get factId = none)
    {e : RegistryEntry} (found : b.registry.lookup factId = some e)
    (deleted : b.layer.isDeleted e.ordinal = true) :
    (read c view bundle l0 factId).value = none ∧
      ∀ cur ∈ currentVersion l0 (bundleBaseView c view bundle baseDedup) factId,
        ∀ op version value, version ≤ e.factVersion →
          preflight cur op version value ≠ .applied := by
  by_cases matched : bundle.scopeId = view.scopeId ∧ bundle.generationId = view.generationId
  · have resolved : resolve c bundle.field bundle.tombstone e.ordinal view.scopeId
        view.generationId = .deleted := by
      rw [b.tombstone_eq, resolve, if_neg (by rw [b.layer_of.1]; exact not_not_intro matched.1),
        if_neg (by rw [b.layer_of.2]; exact not_not_intro matched.2), if_pos deleted]
    have looked : bundleLookup c view bundle factId = .fact ⟨e.factVersion, .delete, none⟩ := by
      rw [bundleLookup, if_neg (not_not_intro matched), b.registry_eq]
      simp only [found, resolved]
    constructor
    · rw [read, if_neg (not_not_intro ((viewMatches_iff b view).mpr matched)), fresh, b.registry_eq]
      simp only [found, readBase, resolved]
    · intro cur current op version value below
      simp only [currentVersion, fresh, bundleBaseView, looked, Option.mem_def,
        Option.some.injEq] at current
      subst current
      rw [Ne, preflight_eq_applied_iff]
      intro newer
      have above : e.factVersion < version := newer _ rfl
      omega
  · constructor
    · rw [read, if_pos fun whole => matched ((viewMatches_iff b view).mp whole)]
      rfl
    · intro cur current
      simp only [currentVersion, fresh, bundleBaseView, bundleLookup, if_pos matched] at current
      cases current

/-- The reader and the writers see the same base of a generation that opened: a fact without
an entry in the log is read as a value, deleted, unknown or not at all exactly when the base
view answers a PUT of it, a DELETE, an absence or an abstention, and the version is that of
the registry entry.  What the tombstones delete is neither read nor written at or below its
version. -/
theorem reader_and_writers_agree {c : Crypto} {manifestBlob : Option Bytes}
    {objectStore : ObjectStore} {walStore : WalStore} {keyring : Keyring}
    {limits : ArtifactLimits} {parent : Option Bytes} {reducerLimits : Option ReducerLimits}
    {gl : GenerationLimits} {h : GenerationHandle}
    (opened : openGeneration c manifestBlob objectStore walStore keyring limits parent
      reducerLimits gl = .ok h) (view : ReadView) (baseDedup : Option DedupTable) {l0 : WalIndex}
    {factId : Int} (fresh : l0.get factId = none) :
    (∀ v, ((read c view h.bundle l0 factId).authoritative = true ∧
        (read c view h.bundle l0 factId).value = some v) ↔
      ∃ version, bundleLookup c view h.bundle factId = .fact ⟨version, .put, some v⟩) ∧
    ((read c view h.bundle l0 factId).status = .deleted ↔
      ∃ version, bundleLookup c view h.bundle factId = .fact ⟨version, .delete, none⟩) ∧
    ((read c view h.bundle l0 factId).status = .notFound ↔
      bundleLookup c view h.bundle factId = .absent) ∧
    ((read c view h.bundle l0 factId).status = .abstain ↔
      bundleLookup c view h.bundle factId = .abstain) ∧
    ∃ registry layer, h.bundle.registry = some registry ∧ h.bundle.tombstone = .valid layer ∧
      (∀ f, bundleLookup c view h.bundle factId = .fact f →
        ∃ e, registry.lookup factId = some e ∧ f.version = e.factVersion) ∧
      ∀ e, registry.lookup factId = some e → layer.isDeleted e.ordinal = true →
        (read c view h.bundle l0 factId).value = none ∧
        ∀ cur ∈ currentVersion l0 (bundleBaseView c view h.bundle baseDedup) factId,
          ∀ op version value, version ≤ e.factVersion →
            preflight cur op version value ≠ .applied := by
  obtain ⟨b⟩ := openedBundle_of_openGeneration opened
  have both := agreement b c view fresh
  exact ⟨both.value_iff, both.deleted_iff, both.notFound_iff, both.abstain_iff, b.registry, b.layer,
    b.registry_eq, b.tombstone_eq, fun _ => both.version_eq b.registry_eq,
    fun e found deleted => tombstoned b c view baseDedup fresh found deleted⟩

/-- The first generation of scope 7, before any write. -/
theorem reader_and_writers_agree_first : ∃ manifestBlob h,
    openDefault stdCrypto firstKeyring manifestBlob (firstObjects 7)
      ⟨firstActive, firstObjects 7⟩ = .ok h ∧
    ((read stdCrypto h.view h.bundle WalIndex.init 5).status = .notFound ↔
      (h.baseView stdCrypto).lookup 5 = .absent) ∧
    ((read stdCrypto h.view h.bundle WalIndex.init 5).status = .abstain ↔
      (h.baseView stdCrypto).lookup 5 = .abstain) := by
  obtain ⟨record, manifestBlob, man, intact, -⟩ :=
    rootOpens_of_reachFromPublication reachFromPublication_first
  obtain ⟨h, opened⟩ := intact.opens
  have fresh : WalIndex.init.get 5 = none := rfl
  obtain ⟨-, -, notFound, abstain, -⟩ :=
    reader_and_writers_agree opened h.view (some h.dedup) fresh
  exact ⟨manifestBlob, h, opened, notFound, abstain⟩

end ProofRay.Engine
