/- The traversal of the collector covers the reads of an opening. -/

import ProofRay.Engine.GcMoves
import ProofRay.Engine.PublicationHistory

namespace ProofRay.Engine

open Lib (Dict)
open Lib.Guard

variable {c : Crypto} {keyring : Keyring}

/-- The digests of the objects that `open_generation` reads for a manifest: the artifacts of its
base and its sealed segments. -/
def EpochManifest.readDigests (man : EpochManifest) : List Bytes :=
  baseKinds.map (fun kind => (man.baseDescriptors kind).sha256) ++
    (man.segments.filter fun s => s.status = stateSealed).map WalSegmentDescriptor.sealedObjectSha256

section

variable {store store' : ObjectStore}

theorem getLimited_congr {d : Bytes} (same : store'.get d = store.get d) (maxBytes : Int) :
    store'.getLimited d maxBytes = store.getLimited d maxBytes := by
  simp only [ObjectStore.getLimited, same]

theorem openBaseArtifact_congr {limits : ArtifactLimits} {kind : ArtifactKind}
    {desc : ArtifactDescriptor} (same : store'.get desc.sha256 = store.get desc.sha256) :
    openBaseArtifact c limits keyring store' kind desc =
      openBaseArtifact c limits keyring store kind desc := by
  simp only [openBaseArtifact, getLimited_congr same]

theorem openBase_congr {limits : ArtifactLimits} {man : EpochManifest}
    (same : ∀ d ∈ man.readDigests, store'.get d = store.get d) :
    openBase c limits keyring store' man = openBase c limits keyring store man := by
  have artifact (kind : ArtifactKind) :
      openBaseArtifact c limits keyring store' kind (man.baseDescriptors kind) =
        openBaseArtifact c limits keyring store kind (man.baseDescriptors kind) := by
    apply openBaseArtifact_congr
    apply same
    exact List.mem_append_left _ (List.mem_map.mpr ⟨kind, mem_baseKinds kind, rfl⟩)
  simp only [openBase, artifact]

variable {active : Dict WalIdentity Bytes}

variable {scopeId : Int}

theorem readValidatedSegment_congr {s : WalSegmentDescriptor} {scopeId : Int}
    {limits : WalStoreLimits} (same : s.status = stateSealed →
      store'.get s.sealedObjectSha256 = store.get s.sealedObjectSha256) :
    WalStore.readValidatedSegment c keyring ⟨active, store'⟩ s scopeId limits =
      WalStore.readValidatedSegment c keyring ⟨active, store⟩ s scopeId limits := by
  unfold WalStore.readValidatedSegment
  split
  · rfl
  · split
    · rfl
    · rename_i isSealed
      have found := same (not_not.mp isSealed)
      simp only [WalStore.readSealedSegment, WalStore.openSealed, found]

theorem feedManifest_congr {scopeId : Int} {wlim : WalStoreLimits}
    {ss : List WalSegmentDescriptor} {reducer : ReducerState}
    (same : ∀ s ∈ ss, s.status = stateSealed →
      store'.get s.sealedObjectSha256 = store.get s.sealedObjectSha256) :
    feedManifest c keyring ⟨active, store'⟩ scopeId wlim ss reducer =
      feedManifest c keyring ⟨active, store⟩ scopeId wlim ss reducer := by
  induction ss generalizing reducer with
  | nil => rfl
  | cons s ss ih =>
    obtain ⟨first, rest⟩ := List.forall_mem_cons.mp same
    have segment : openSegment c keyring ⟨active, store'⟩ scopeId wlim s =
        openSegment c keyring ⟨active, store⟩ scopeId wlim s := by
      simp only [openSegment, readValidatedSegment_congr first]
    simp only [feedManifest, segment]
    apply bind_congr_ok
    intro seg opened
    apply bind_congr_ok
    intro step fed
    apply bind_congr_ok
    intro _ accepted
    exact ih rest

theorem openGeneration_congr {blob : Bytes} {limits : ArtifactLimits} {parent : Option Bytes}
    {reducerLimits : Option ReducerLimits} {gl : GenerationLimits}
    (same : ∀ man, parseManifest c keyring (some blob) = .ok man →
      ∀ d ∈ man.readDigests, store'.get d = store.get d) :
    openGeneration c (some blob) store' ⟨active, store'⟩ keyring limits parent reducerLimits gl =
      openGeneration c (some blob) store ⟨active, store⟩ keyring limits parent reducerLimits gl := by
  unfold openGeneration
  apply bind_congr_ok
  intro man admitted
  have agree : ∀ d ∈ man.readDigests, store'.get d = store.get d := by
    apply same man
    unfold admitManifest at admitted
    simp only [bind_eq_ok, mapError_eq_ok] at admitted
    obtain ⟨man', parsed, -, -, -, -, rest⟩ := admitted
    split at rest
    · cases rest
    · cases rest
      exact parsed
  rw [openBase_congr agree]
  apply bind_congr_ok
  intro base opened
  have segments : ∀ s ∈ man.segments, s.status = stateSealed →
      store'.get s.sealedObjectSha256 = store.get s.sealedObjectSha256 := by
    intro s member isSealed
    apply agree
    apply List.mem_append_right
    exact List.mem_map.mpr ⟨s, List.mem_filter.mpr ⟨member, by simpa using isSealed⟩, rfl⟩
  simp only [replayGeneration, feedManifest_congr segments]

/-- The frame of the cursor: it reads the record and the manifest of `CURRENT`. -/
theorem openPublishedCursor_congr {current : Option Bytes} {storeScope : Option Int}
    {limits : PublicationLimits}
    (record : ∀ ptr, readCurrent c keyring ⟨store, current⟩ limits.maxCurrentBytes = .ok ptr →
      store'.get ptr.publicationSha256 = store.get ptr.publicationSha256 ∧
      ∀ blob r, store.get ptr.publicationSha256 = some blob →
        parsePublicationRecord c keyring (some blob) = .ok r →
        store'.get r.manifestSha256 = store.get r.manifestSha256) :
    openPublishedCursor c keyring ⟨store', current⟩ storeScope limits =
      openPublishedCursor c keyring ⟨store, current⟩ storeScope limits := by
  unfold openPublishedCursor
  have pointer : readCurrent c keyring ⟨store', current⟩ limits.maxCurrentBytes =
      readCurrent c keyring ⟨store, current⟩ limits.maxCurrentBytes := rfl
  rw [pointer]
  apply bind_congr_ok
  intro ptr read
  obtain ⟨sameRecord, sameManifest⟩ := record ptr (mapError_eq_ok.mp read)
  have opening : openPublicationRecord c keyring store' ptr.publicationSha256 limits.maxRecordBytes =
      openPublicationRecord c keyring store ptr.publicationSha256 limits.maxRecordBytes := by
    simp only [openPublicationRecord, getLimited_congr sameRecord]
  simp only [opening]
  apply bind_congr_ok
  intro r opened
  obtain ⟨blob, found, parsed⟩ := openPublicationRecord_eq_ok_iff.mp (mapError_eq_ok.mp opened)
  have manifest := sameManifest blob r (ObjectStore.getLimited_eq_ok_iff.mp found).1 parsed
  simp only [getLimited_congr manifest]

end

/-- No object in the closure of a publication is missing or invalid: the record, the manifest,
the five artifacts and every segment are there, and the generation opens. -/
structure RootOpens (c : Crypto) (keyring : Keyring) (store : ObjectStore) (walStore : WalStore)
    (pub : Bytes) (record : PublicationRecord) (manifestBlob : Bytes) (man : EpochManifest) :
    Prop where
  record_ok : ∃ blob, store.get pub = some blob ∧
    parsePublicationRecord c keyring (some blob) = .ok record
  manifest_found : store.get record.manifestSha256 = some manifestBlob
  manifest_digest : c.sha256 manifestBlob = record.manifestSha256
  manifest_ok : parseManifest c keyring (some manifestBlob) = .ok man
  artifacts : ∀ kind, ∃ blob component,
    store.get (man.baseDescriptors kind).sha256 = some blob ∧
      openArtifact c defaultArtifactLimits keyring kind (man.baseDescriptors kind) (some blob) =
        .ok component
  segments : ∀ s ∈ man.segments, ∃ segment,
    openSegment c keyring walStore man.scopeId defaultGenerationLimits.walLimits s = .ok segment
  opens : ∃ handle, openDefault c keyring manifestBlob store walStore = .ok handle

def RootIntact (c : Crypto) (keyring : Keyring) (store : ObjectStore) (walStore : WalStore)
    (pub : Bytes) : Prop :=
  ∃ record manifestBlob man, RootOpens c keyring store walStore pub record manifestBlob man

section

variable {store : ObjectStore} {walStore : WalStore}

theorem artifact_of_openBaseArtifact {limits : ArtifactLimits} {kind : ArtifactKind}
    {desc : ArtifactDescriptor} {component : Component kind}
    (opened : openBaseArtifact c limits keyring store kind desc = .ok component) :
    ∃ blob, store.get desc.sha256 = some blob ∧
      openArtifact c limits keyring kind desc (some blob) = .ok component := by
  obtain ⟨found, read, opened⟩ := bind_eq_ok.mp opened
  rw [mapError_eq_ok] at opened
  cases stored : store.getLimited desc.sha256 limits.maxBlobBytes with
  | ok blob =>
    rw [stored] at read
    cases read
    exact ⟨blob, (ObjectStore.getLimited_eq_ok_iff.mp stored).1, opened⟩
  | error reason =>
    rw [stored] at read
    cases reason with
    | countLimit => cases read
    | missing =>
      cases read
      simp [openArtifact] at opened

theorem artifacts_of_openBase {limits : ArtifactLimits} {man : EpochManifest} {base : OpenBase}
    (opened : openBase c limits keyring store man = .ok base) (kind : ArtifactKind) :
    ∃ blob component, store.get (man.baseDescriptors kind).sha256 = some blob ∧
      openArtifact c limits keyring kind (man.baseDescriptors kind) (some blob) =
        .ok component := by
  unfold openBase at opened
  simp only [bind_eq_ok] at opened
  obtain ⟨registry, first, bulk, second, residual, third, tombstone, fourth, dedup, fifth, -⟩ :=
    opened
  cases kind with
  | registry => exact (artifact_of_openBaseArtifact first).imp fun _ found => ⟨registry, found⟩
  | bulk => exact (artifact_of_openBaseArtifact second).imp fun _ found => ⟨bulk, found⟩
  | residual => exact (artifact_of_openBaseArtifact third).imp fun _ found => ⟨residual, found⟩
  | tombstone => exact (artifact_of_openBaseArtifact fourth).imp fun _ found => ⟨tombstone, found⟩
  | dedup => exact (artifact_of_openBaseArtifact fifth).imp fun _ found => ⟨dedup, found⟩

variable {ss : List WalSegmentDescriptor} {scopeId : Int}

theorem segments_of_feedManifest {wlim : WalStoreLimits} {reducer final : ReducerState}
    (fed : feedManifest c keyring walStore scopeId wlim ss reducer = .ok final) :
    ∀ s ∈ ss, ∃ segment, openSegment c keyring walStore scopeId wlim s = .ok segment := by
  induction ss generalizing reducer with
  | nil => simp
  | cons s ss ih =>
    simp only [feedManifest, bind_eq_ok] at fed
    obtain ⟨segment, opened, step, -, -, -, rest⟩ := fed
    exact List.forall_mem_cons.mpr ⟨⟨segment, opened⟩, ih rest⟩

theorem sealed_of_reachSegments {items : List GcItem}
    (reached : reachSegments scopeId ss = .ok items) :
    ∀ s ∈ ss, s.status = stateSealed → objItem s.sealedObjectSha256 ∈ items := by
  induction ss generalizing items with
  | nil => simp
  | cons s ss ih =>
    unfold reachSegments at reached
    split at reached
    · split at reached
      · cases reached
      · obtain ⟨rest, others, made⟩ := bind_eq_ok.mp reached
        cases made
        refine List.forall_mem_cons.mpr ⟨fun _ => List.mem_cons_self, ?_⟩
        exact fun s' member isSealed => List.mem_cons_of_mem _ (ih others s' member isSealed)
    · rename_i unsealed
      split at reached
      · obtain ⟨rest, others, made⟩ := bind_eq_ok.mp reached
        cases made
        refine List.forall_mem_cons.mpr ⟨fun isSealed => absurd isSealed unsealed, ?_⟩
        exact fun s' member isSealed => List.mem_cons_of_mem _ (ih others s' member isSealed)
      · cases reached

theorem rootOpens_of_reachFromPublication {limits : GcLimits} {pub : Bytes} {closure : List GcItem}
    (reached : reachFromPublication c keyring store walStore limits pub = .ok closure) :
    ∃ record manifestBlob man, RootOpens c keyring store walStore pub record manifestBlob man ∧
      objItem pub ∈ closure ∧ objItem record.manifestSha256 ∈ closure ∧
      ∀ d ∈ man.readDigests, objItem d ∈ closure := by
  unfold reachFromPublication at reached
  simp only [bind_eq_ok, mapError_eq_ok, require_eq_ok, pure_eq_ok] at reached
  obtain ⟨recordBlob, recordFound, record, recordParsed, manifestBlob, manifestFound, -, digest, man,
    parsed, handle, opened, -, -, segments, reachedSegments, rfl⟩ := reached
  refine ⟨record, manifestBlob, man, ?_, ?_, ?_, ?_⟩
  · have opening := opened
    simp only [openDefault, openGeneration, bind_eq_ok, admitManifest, mapError_eq_ok] at opening
    obtain ⟨man', ⟨man'', parsed', -, -, -, -, same⟩, base, openedBase, replay, replayed, -⟩ :=
      opening
    have sameManifest : man' = man := by
      have first : man'' = man := Except.ok.inj (parsed'.symm.trans parsed)
      split at same
      · cases same
      · cases same
        exact first
    subst sameManifest
    simp only [replayGeneration, bind_eq_ok] at replayed
    obtain ⟨reducer, fed, -⟩ := replayed
    exact {
      record_ok := ⟨recordBlob, (ObjectStore.getLimited_eq_ok_iff.mp recordFound).1, recordParsed⟩
      manifest_found := (ObjectStore.getLimited_eq_ok_iff.mp manifestFound).1
      manifest_digest := digest
      manifest_ok := parsed
      artifacts := artifacts_of_openBase openedBase
      segments := segments_of_feedManifest fed
      opens := ⟨handle, opened⟩ }
  · exact List.mem_cons_self
  · exact List.mem_cons_of_mem _ List.mem_cons_self
  · intro d member
    apply List.mem_cons_of_mem
    apply List.mem_cons_of_mem
    rcases List.mem_append.mp member with artifact | sealedSegment
    · obtain ⟨kind, known, rfl⟩ := List.mem_map.mp artifact
      exact List.mem_append_left _ (List.mem_map.mpr ⟨kind, known, rfl⟩)
    · obtain ⟨s, inSegments, rfl⟩ := List.mem_map.mp sealedSegment
      obtain ⟨inManifest, isSealed⟩ := List.mem_filter.mp inSegments
      apply List.mem_append_right
      exact sealed_of_reachSegments reachedSegments s inManifest (by simpa using isSealed)

end

section

variable {store store' : ObjectStore} {active : Dict WalIdentity Bytes}

theorem sealed_found_of_openSegment {scopeId : Int} {wlim : WalStoreLimits}
    {s : WalSegmentDescriptor} {segment : ValidatedWalSegment}
    (opened : openSegment c keyring ⟨active, store⟩ scopeId wlim s = .ok segment)
    (isSealed : s.status = stateSealed) : ∃ blob, store.get s.sealedObjectSha256 = some blob := by
  simp only [openSegment, bind_eq_ok, mapError_eq_ok] at opened
  obtain ⟨-, -, read, opened, -⟩ := opened
  have notActive : ¬ s.status = stateActive := by
    rw [isSealed]
    decide
  have viaSealed : WalStore.readSealedSegment c keyring ⟨active, store⟩ s scopeId wlim =
      .ok read := by
    rw [← opened, WalStore.readValidatedSegment, if_neg notActive, if_neg (not_not.mpr isSealed)]
  obtain ⟨data, sealedRead, -⟩ := bind_eq_ok.mp viaSealed
  obtain ⟨blob, found, -⟩ := bind_eq_ok.mp (mapError_eq_ok.mp sealedRead)
  exact ⟨blob, orThrow_eq_ok.mp found⟩

theorem reachFromPublication_of_extends {limits : GcLimits} {pub : Bytes} {closure : List GcItem}
    (ext : store.Extends store')
    (reached : reachFromPublication c keyring store ⟨active, store⟩ limits pub = .ok closure) :
    reachFromPublication c keyring store' ⟨active, store'⟩ limits pub = .ok closure := by
  obtain ⟨record, manifestBlob, man, intact, -⟩ := rootOpens_of_reachFromPublication reached
  have reads : ∀ d ∈ man.readDigests, store'.get d = store.get d := by
    intro d member
    have found : ∃ blob, store.get d = some blob := by
      rcases List.mem_append.mp member with artifact | sealedSegment
      · obtain ⟨kind, -, rfl⟩ := List.mem_map.mp artifact
        obtain ⟨blob, -, stored, -⟩ := intact.artifacts kind
        exact ⟨blob, stored⟩
      · obtain ⟨s, inSegments, rfl⟩ := List.mem_map.mp sealedSegment
        obtain ⟨inManifest, isSealed⟩ := List.mem_filter.mp inSegments
        obtain ⟨segment, opened⟩ := intact.segments s inManifest
        exact sealed_found_of_openSegment opened (by simpa using isSealed)
    obtain ⟨blob, stored⟩ := found
    rw [stored, ext d blob stored]
  unfold reachFromPublication at reached ⊢
  simp only [bind_eq_ok, mapError_eq_ok, require_eq_ok, pure_eq_ok,
    ObjectStore.getLimited_eq_ok_iff] at reached ⊢
  obtain ⟨recordBlob, ⟨recordFound, fits⟩, record', recordParsed, blob, ⟨manifestFound, fits'⟩, u,
    digest, man', parsed, handle, opened, rest⟩ := reached
  have sameRecord : record' = record := by
    obtain ⟨recordBlob', stored, parsed'⟩ := intact.record_ok
    rw [recordFound] at stored
    cases stored
    exact Except.ok.inj (recordParsed.symm.trans parsed')
  subst sameRecord
  have sameBlob : blob = manifestBlob :=
    Option.some.inj (manifestFound.symm.trans intact.manifest_found)
  subst sameBlob
  refine ⟨recordBlob, ⟨ext _ _ recordFound, fits⟩, record', recordParsed, blob,
    ⟨ext _ _ manifestFound, fits'⟩, u, digest, man', parsed, handle, ?_, rest⟩
  rw [← opened]
  apply openGeneration_congr
  intro man'' parsed''
  rw [intact.manifest_ok] at parsed''
  cases parsed''
  exact reads

end

private theorem planSection_of_short (label : String) {items : List GcItem}
    (short : items.length < 2 ^ 32) : ∃ blob, planSection label items = .ok blob := by
  obtain ⟨count, packed⟩ := structPack_of_fits [.u32] ((items.length : Int), ())
    ⟨⟨Int.natCast_nonneg _, Int.ofNat_lt.mpr short⟩, trivial⟩
  exact ⟨_, bind_eq_ok.mpr ⟨count, packed, rfl⟩⟩

theorem canonicalPlanDigest_of_short {reachable unreachable : List GcItem}
    (short : reachable.length < 2 ^ 32) (short' : unreachable.length < 2 ^ 32) :
    ∃ digest, canonicalPlanDigest c reachable unreachable [] = .ok digest ∧ digest.length = 32 := by
  obtain ⟨r, first⟩ := planSection_of_short "R" short
  obtain ⟨u, second⟩ := planSection_of_short "U" short'
  have none : ([] : List GcItem).length < 2 ^ 32 := by decide
  obtain ⟨d, third⟩ := planSection_of_short "D" none
  refine ⟨c.sha256 (ascii "HORIZON-GC-PLAN-v1" ++ r ++ u ++ d), ?_, c.sha256_length _⟩
  unfold canonicalPlanDigest
  rw [first, second, third]
  rfl

theorem exists_plan_of_reachAll {store : ObjectStore} {walStore : WalStore} {roots : GcRoots}
    {limits : GcLimits} {closures : List GcItem}
    (reached : reachAll c keyring store walStore limits roots.allPublicationDigests
      limits.maxTraversalNodes = .ok closures)
    (few : (presentItems store walStore).length < 2 ^ 32) :
    ∃ plan, planReachability c keyring store walStore roots limits = .ok plan ∧
      plan.state = .planned ∧ plan.planDigest.length = 32 ∧
      plan.unreachable = (presentItems store walStore).filter fun item =>
        item ∉ roots.reachable closures := by
  have filtered (keep : GcItem → Bool) :
      ((presentItems store walStore).filter keep).length < 2 ^ 32 :=
    lt_of_le_of_lt (List.length_filter_le _ _) few
  obtain ⟨digest, made, length⟩ := canonicalPlanDigest_of_short (c := c)
    (filtered fun item => item ∈ roots.reachable closures)
    (filtered fun item => item ∉ roots.reachable closures)
  unfold planReachability
  rw [reached]
  exact ⟨_, bind_eq_ok.mpr ⟨digest, made, rfl⟩, rfl, length, rfl⟩

def GcDisk.collected (disk : GcDisk) (plan : GcPlan) : GcDisk :=
  (GcDisk.quarantineItems none plan.movable 0 disk).1

section

variable {disk : GcDisk} {roots : GcRoots} {limits : GcLimits} {plan : GcPlan}

theorem quarantined_collected
    (decided : planReachability c keyring disk.objects disk.walStore roots limits = .ok plan) :
    Quarantined disk (disk.collected plan) plan.movable := by
  have present := present_of_mem_movable decided
  have effect := quarantined_of_quarantineItems none 0 disk
    fun item member => (present item member).imp fun d found => found.choose_spec.1
  have moved := (moved_quarantineItems none 0 disk (nodup_movable plan) present (by simp)).1
  rw [moved] at effect
  exact effect

theorem get_collected
    (decided : planReachability c keyring disk.objects disk.walStore roots limits = .ok plan)
    (d : Bytes) : (disk.collected plan).objects.get d =
      if objItem d ∈ plan.unreachable then none else disk.objects.get d := by
  have movable : objItem d ∈ plan.movable ↔ objItem d ∈ plan.unreachable := by
    rw [mem_movable]
    exact and_iff_left rfl
  rw [(quarantined_collected decided).objects]
  simp only [movable]

theorem get_collected_of_reached {closures : List GcItem} {d : Bytes}
    (decided : planReachability c keyring disk.objects disk.walStore roots limits = .ok plan)
    (unreachable : plan.unreachable = (presentItems disk.objects disk.walStore).filter fun item =>
      item ∉ roots.reachable closures) (reached : objItem d ∈ closures) :
    (disk.collected plan).objects.get d = disk.objects.get d := by
  rw [get_collected decided, if_neg]
  intro member
  rw [unreachable] at member
  have unreached := of_decide_eq_true (List.mem_filter.mp member).2
  apply unreached
  exact List.mem_append_left _ (List.mem_append_left _ reached)

theorem rootOpens_of_planned
    (decided : planReachability c keyring disk.objects disk.walStore roots limits = .ok plan)
    (planned : plan.state = .planned) {pub : Bytes} (root : pub ∈ roots.allPublicationDigests) :
    ∃ record manifestBlob man,
      RootOpens c keyring disk.objects disk.walStore pub record manifestBlob man ∧
      ∀ d ∈ pub :: record.manifestSha256 :: man.readDigests,
        (disk.collected plan).objects.get d = disk.objects.get d := by
  rcases planReachability_cases decided with ⟨closures, reached, -, -, unreachable⟩ |
    ⟨state, reason, stopped, rfl⟩
  · obtain ⟨closure, opened, inside⟩ := closure_of_reachAll reached pub root
    obtain ⟨record, manifestBlob, man, intact, first, second, reads⟩ :=
      rootOpens_of_reachFromPublication opened
    refine ⟨record, manifestBlob, man, intact, ?_⟩
    intro d member
    apply get_collected_of_reached decided unreachable
    apply inside
    rcases List.mem_cons.mp member with rfl | member
    · exact first
    · rcases List.mem_cons.mp member with rfl | member
      · exact second
      · exact reads d member
  · exact absurd planned (reachAll_abort stopped)

theorem walStore_collected
    (decided : planReachability c keyring disk.objects disk.walStore roots limits = .ok plan) :
    (disk.collected plan).walStore = ⟨disk.active, (disk.collected plan).objects⟩ := by
  rw [GcDisk.walStore, (quarantined_collected decided).active]

theorem openGeneration_collected
    (decided : planReachability c keyring disk.objects disk.walStore roots limits = .ok plan)
    {manifestBlob : Bytes} {man : EpochManifest}
    (parsed : parseManifest c keyring (some manifestBlob) = .ok man)
    (kept : ∀ d ∈ man.readDigests, (disk.collected plan).objects.get d = disk.objects.get d)
    (artifactLimits : ArtifactLimits) (parent : Option Bytes) (reducerLimits : Option ReducerLimits)
    (gl : GenerationLimits) :
    openGeneration c (some manifestBlob) (disk.collected plan).objects
        (disk.collected plan).walStore keyring artifactLimits parent reducerLimits gl =
      openGeneration c (some manifestBlob) disk.objects disk.walStore keyring artifactLimits parent
        reducerLimits gl := by
  rw [walStore_collected decided]
  apply openGeneration_congr
  intro man' parsed'
  rw [parsed] at parsed'
  cases parsed'
  exact kept

/-- The cursor of `CURRENT` opens as before, when the roots were taken from it. -/
theorem openPublishedCursor_collected
    (decided : planReachability c keyring disk.objects disk.walStore roots limits = .ok plan)
    (planned : plan.state = .planned) {scope : Int} {ptr : CurrentPointer}
    (pointer : readCurrent c keyring (disk.publication scope) 4096 = .ok ptr)
    (current : roots.currentPublicationSha256 = some ptr.publicationSha256)
    (storeScope : Option Int) (publicationLimits : PublicationLimits) :
    openPublishedCursor c keyring ((disk.collected plan).publication scope) storeScope
        publicationLimits =
      openPublishedCursor c keyring (disk.publication scope) storeScope publicationLimits := by
  have sameCurrent : ((disk.collected plan).scopes scope).current = (disk.scopes scope).current := by
    rw [(quarantined_collected decided).scopes]
  obtain ⟨blob, found, -, parsed⟩ := readCurrent_eq_ok_iff.mp pointer
  have root : ptr.publicationSha256 ∈ roots.allPublicationDigests := by
    have nonempty : ptr.publicationSha256 ≠ [] := by
      have := length_publicationSha256_of_parseCurrent parsed
      intro empty
      rw [empty] at this
      cases this
    simp [GcRoots.allPublicationDigests, current, keepFirst, nonempty]
  obtain ⟨record, manifestBlob, man, intact, kept⟩ := rootOpens_of_planned decided planned root
  unfold GcDisk.publication
  rw [sameCurrent]
  apply openPublishedCursor_congr
  intro ptr' pointer'
  have same : ptr' = ptr := by
    obtain ⟨blob', found', -, parsed'⟩ := readCurrent_eq_ok_iff.mp pointer'
    have sameBlob : blob' = blob := Option.some.inj (found'.symm.trans found)
    rw [sameBlob, parsed] at parsed'
    exact (Except.ok.inj parsed').symm
  subst same
  refine ⟨kept _ List.mem_cons_self, ?_⟩
  intro recordBlob r stored parsedRecord
  obtain ⟨recordBlob', stored', parsedRecord'⟩ := intact.record_ok
  have sameBlob : recordBlob' = recordBlob := Option.some.inj (stored'.symm.trans stored)
  rw [sameBlob, parsedRecord] at parsedRecord'
  cases parsedRecord'
  exact kept _ (List.mem_cons_of_mem _ List.mem_cons_self)

end

/-- What the collected disk of a plan keeps for the roots: exactly the unreachable objects are
gone, the generation of each root publication and the cursor of `CURRENT` open as before, under
any limits. -/
structure KeepsRoots (c : Crypto) (keyring : Keyring) (disk : GcDisk) (roots : GcRoots)
    (plan : GcPlan) : Prop where
  removed : ∀ d, (disk.collected plan).objects.get d =
    if objItem d ∈ plan.unreachable then none else disk.objects.get d
  generations : ∀ pub ∈ roots.allPublicationDigests, ∃ record manifestBlob man,
    RootOpens c keyring disk.objects disk.walStore pub record manifestBlob man ∧
    (disk.collected plan).objects.get pub = disk.objects.get pub ∧
    (disk.collected plan).objects.get record.manifestSha256 = some manifestBlob ∧
    ∀ artifactLimits parent reducerLimits gl,
      openGeneration c (some manifestBlob) (disk.collected plan).objects
          (disk.collected plan).walStore keyring artifactLimits parent reducerLimits gl =
        openGeneration c (some manifestBlob) disk.objects disk.walStore keyring artifactLimits
          parent reducerLimits gl
  cursor : ∀ scope ptr, readCurrent c keyring (disk.publication scope) 4096 = .ok ptr →
    roots.currentPublicationSha256 = some ptr.publicationSha256 →
    ∀ storeScope publicationLimits,
      openPublishedCursor c keyring ((disk.collected plan).publication scope) storeScope
          publicationLimits =
        openPublishedCursor c keyring (disk.publication scope) storeScope publicationLimits

/-- Collection never touches what a root needs, and a root whose closure is not whole makes the
plan list nothing. -/
theorem collection_keeps_roots (c : Crypto) (keyring : Keyring) (disk : GcDisk) (roots : GcRoots)
    (limits : GcLimits) (plan : GcPlan)
    (decided : planReachability c keyring disk.objects disk.walStore roots limits = .ok plan) :
    (plan.state = .planned → KeepsRoots c keyring disk roots plan) ∧
      ((∃ pub ∈ roots.allPublicationDigests,
          ¬ RootIntact c keyring disk.objects disk.walStore pub) → plan.unreachable = []) := by
  constructor
  · intro planned
    refine ⟨get_collected decided, ?_, ?_⟩
    · intro pub root
      obtain ⟨record, manifestBlob, man, intact, kept⟩ := rootOpens_of_planned decided planned root
      refine ⟨record, manifestBlob, man, intact, kept _ List.mem_cons_self, ?_, ?_⟩
      · rw [kept _ (List.mem_cons_of_mem _ List.mem_cons_self)]
        exact intact.manifest_found
      · apply openGeneration_collected decided intact.manifest_ok
        exact fun d member => kept d (List.mem_cons_of_mem _ (List.mem_cons_of_mem _ member))
    · intro scope ptr pointer current storeScope publicationLimits
      exact openPublishedCursor_collected decided planned pointer current storeScope publicationLimits
  · rintro ⟨pub, root, broken⟩
    rcases planReachability_cases decided with ⟨closures, reached, -⟩ | ⟨state, reason, -, rfl⟩
    · obtain ⟨closure, opened, -⟩ := closure_of_reachAll reached pub root
      obtain ⟨record, manifestBlob, man, intact, -⟩ := rootOpens_of_reachFromPublication opened
      exact absurd ⟨record, manifestBlob, man, intact⟩ broken
    · rfl

private def blobOf {α : Type} (blob : α → Bytes) (x : Except PyError α) : Bytes :=
  match x with
  | .ok a => blob a
  | .error _ => []

def firstArtifact (scope : Int) : ArtifactKind → Bytes
  | .registry =>
    blobOf FactRegistry.blob (FactRegistry.build stdCrypto Dict.empty scope 0 0 (zeros 32))
  | .bulk =>
    blobOf BulkSnapshot.blob (BulkSnapshot.build stdCrypto 0 Dict.empty scope 0 (zeros 32))
  | .residual =>
    blobOf ResidualField.blob (ResidualField.build stdCrypto 0 Dict.empty 4096 scope 0 (zeros 32))
  | .tombstone =>
    blobOf TombstoneLayer.blob (TombstoneLayer.build stdCrypto 0 [] scope 0 (zeros 32))
  | .dedup =>
    blobOf DedupTable.blob (DedupTable.build stdCrypto scope 0 1 0 1024 [] Dict.empty (zeros 32))

def firstActiveFile (scope : Int) : Bytes :=
  blobOf id (encodeSegmentHeader stdCrypto (zeros 32) scope 1 1 0 stateActive (zeros 16))

def firstGeneration (scope : Int) : EpochManifest :=
  { firstManifest scope with
    baseDescriptors := fun kind => makeDescriptor stdCrypto kind (firstArtifact scope kind) 0
    segments := [⟨0, 1, 1, 0, stateActive, 67, stdCrypto.sha256 (firstActiveFile scope), 0, zeros 32,
      zeros 16, 0⟩] }

def firstGenerationBlob (scope : Int) : Bytes :=
  blobOf id ((firstGeneration scope).serialize stdCrypto (zeros 32))

def firstRecordBlob (scope : Int) : Bytes :=
  blobOf id (PublicationRecord.serialize stdCrypto (zeros 32)
    ⟨scope, 0, 0, 0, stdCrypto.sha256 (firstGenerationBlob scope), zeros 32, 0⟩)

def firstPublication (scope : Int) : Bytes := stdCrypto.sha256 (firstRecordBlob scope)

def firstCurrent (scope : Int) : Bytes :=
  blobOf id (serializeCurrent stdCrypto (firstPublication scope) 0 (zeros 32))

def addBlobs (base : ObjectStore) (blobs : List Bytes) : ObjectStore :=
  ⟨blobs.foldl (fun objects blob => objects.set (stdCrypto.sha256 blob) blob) base.objects⟩

theorem get_addBlobs (base : ObjectStore) (blobs : List Bytes) (d : Bytes) :
    (addBlobs base blobs).get d = ((addBlobs ObjectStore.init blobs).get d).or (base.get d) := by
  induction blobs generalizing base with
  | nil => rfl
  | cons blob blobs ih =>
    have first (store : ObjectStore) : addBlobs store (blob :: blobs) =
        addBlobs ⟨store.objects.set (stdCrypto.sha256 blob) blob⟩ blobs := rfl
    rw [first, first, ih, ih ⟨ObjectStore.init.objects.set _ _⟩, Option.or_assoc]
    congr 1
    show (base.objects.set _ blob).get d =
      ((ObjectStore.init.objects.set _ blob).get d).or (base.objects.get d)
    rw [Dict.get_set, Dict.get_set]
    split <;> rfl

theorem exists_get_addBlobs (base : ObjectStore) {blobs : List Bytes} {blob : Bytes}
    (member : blob ∈ blobs) :
    ∃ content, (addBlobs base blobs).get (stdCrypto.sha256 blob) = some content := by
  induction blobs generalizing base with
  | nil => cases member
  | cons first blobs ih =>
    show ∃ content, (addBlobs ⟨base.objects.set (stdCrypto.sha256 first) first⟩ blobs).get
      (stdCrypto.sha256 blob) = some content
    rcases List.mem_cons.mp member with rfl | later
    · rw [get_addBlobs]
      cases (addBlobs ObjectStore.init blobs).get (stdCrypto.sha256 blob) with
      | some content => exact ⟨content, rfl⟩
      | none => exact ⟨blob, Dict.get_set_self ..⟩
    · exact ih _ later

theorem length_keys_addBlobs (base : ObjectStore) (blobs : List Bytes) :
    (addBlobs base blobs).objects.keys.length ≤ base.objects.keys.length + blobs.length := by
  induction blobs generalizing base with
  | nil => exact le_refl _
  | cons blob blobs ih =>
    let next : ObjectStore := ⟨base.objects.set (stdCrypto.sha256 blob) blob⟩
    have rest : (addBlobs next blobs).objects.keys.length ≤
        (base.objects.set (stdCrypto.sha256 blob) blob).keys.length + blobs.length := ih next
    have step := Dict.length_keys_set_le base.objects (stdCrypto.sha256 blob) blob
    show (addBlobs next blobs).objects.keys.length ≤ _
    rw [List.length_cons]
    omega

theorem named_set {store : ObjectStore} (named : store.Named) {d blob : Bytes}
    (length : d.length = 32) : ObjectStore.Named ⟨store.objects.set d blob⟩ := by
  intro d' member
  obtain ⟨content, found⟩ := (Dict.mem_keys_iff _ d').mp member
  rw [Dict.get_set] at found
  split at found
  · rename_i same
    rw [← same, length]
  · exact named d' ((Dict.mem_keys_iff _ d').mpr ⟨content, found⟩)

variable {objects : ObjectStore} {base : ObjectStore}

theorem named_addBlobs (named : base.Named) (blobs : List Bytes) : (addBlobs base blobs).Named := by
  induction blobs generalizing base with
  | nil => exact named
  | cons blob blobs ih => exact ih (named_set named (stdCrypto.sha256_length blob))

def firstBlobs (scope : Int) : List Bytes :=
  firstRecordBlob scope :: firstGenerationBlob scope :: baseKinds.map (firstArtifact scope)

def firstObjects (scope : Int) : ObjectStore := addBlobs ObjectStore.init (firstBlobs scope)

theorem named_firstObjects (scope : Int) : (firstObjects scope).Named := by
  have nothing : ObjectStore.init.Named := by
    simp [ObjectStore.Named, ObjectStore.init, Dict.keys, Dict.empty]
  exact named_addBlobs nothing (firstBlobs scope)

def firstActive : Dict WalIdentity Bytes :=
  (Dict.empty.set ⟨7, 1⟩ (firstActiveFile 7)).set ⟨8, 1⟩ (firstActiveFile 8)

/-- Scopes 7 and 8 right after their creation, without pins or preparations, in a root that
holds `objects`. -/
def firstDisk (objects : ObjectStore) : GcDisk where
  objects := objects
  active := firstActive
  quarantine := Dict.empty
  journals := Dict.empty
  legacyJournal := none
  scopes scope :=
    ⟨if scope = 7 ∨ scope = 8 then some (firstCurrent scope) else none, Dict.empty, [], Dict.empty⟩

theorem readCurrent_first (scope : Int) (objects : ObjectStore) :
    readCurrent stdCrypto firstKeyring ⟨objects, some (firstCurrent scope)⟩ 4096 =
      .ok ⟨firstPublication scope, 0⟩ := by
  have length : (firstPublication scope).length = 32 := stdCrypto.sha256_length _
  have version : (0 : Int) ≤ 1 ∧ (1 : Int) < 65536 := by decide
  have keyId : (0 : Int) ≤ 0 ∧ (0 : Int) < 4294967296 := by decide
  obtain ⟨body, packed⟩ := structPack_of_fits curFormat
    (curMagic, curVersion, firstPublication scope, 0, ()) ⟨rfl, version, length, keyId, trivial⟩
  have written : serializeCurrent stdCrypto (firstPublication scope) 0 (zeros 32) =
      .ok (body ++ currentMac stdCrypto (zeros 32) body) := by
    simp only [serializeCurrent, bind_eq_ok, require_eq_ok, pure_eq_ok]
    exact ⟨(), length, body, packed, rfl⟩
  have known : firstKeyring.get 0 = some (zeros 32) := by decide
  have current : firstCurrent scope = body ++ currentMac stdCrypto (zeros 32) body := by
    unfold firstCurrent
    rw [written]
    rfl
  have short := length_serializeCurrent written
  have within : ((currentLen : Nat) : Int) ≤ 4096 := by decide
  rw [← current] at written short
  refine readCurrent_eq_ok_iff.mpr ⟨firstCurrent scope, rfl, ?_,
    parseCurrent_serializeCurrent known written⟩
  rw [short]
  exact within

def firstRoots : GcRoots := ⟨some (firstPublication 7), [], [], [], []⟩

def firstClosure : List GcItem :=
  objItem (firstPublication 7) :: objItem (stdCrypto.sha256 (firstGenerationBlob 7)) ::
    baseKinds.map (fun kind => objItem (stdCrypto.sha256 (firstArtifact 7 kind))) ++
    [activeItem ⟨7, 1⟩]

set_option maxRecDepth 100000 in
theorem reachFromPublication_first :
    reachFromPublication stdCrypto firstKeyring (firstObjects 7) ⟨firstActive, firstObjects 7⟩
      defaultGcLimits (firstPublication 7) = .ok firstClosure :=
  eq_ok_of_yields (by decide +kernel)

theorem reachAll_first (ext : (firstObjects 7).Extends objects) :
    reachAll stdCrypto firstKeyring objects ⟨firstActive, objects⟩ defaultGcLimits
      firstRoots.allPublicationDigests defaultGcLimits.maxTraversalNodes = .ok firstClosure := by
  have opened := reachFromPublication_of_extends ext reachFromPublication_first
  have nonempty : firstPublication 7 ≠ [] := by
    intro empty
    have := stdCrypto.sha256_length (firstRecordBlob 7)
    rw [← firstPublication, empty] at this
    cases this
  have pubs : firstRoots.allPublicationDigests = [firstPublication 7] := by
    simp [firstRoots, GcRoots.allPublicationDigests, keepFirst, nonempty]
  have budget : (1 : Int) ≤ defaultGcLimits.maxTraversalNodes := by decide
  simp [pubs, reachAll, budget, require, opened, pure, Except.pure]

theorem exists_plan_first (ext : (firstObjects 7).Extends objects)
    (few : objects.objects.keys.length < 2 ^ 31) :
    ∃ plan, planReachability stdCrypto firstKeyring objects ⟨firstActive, objects⟩ firstRoots
        defaultGcLimits = .ok plan ∧ plan.state = .planned ∧
      ∀ d blob, objects.get d = some blob → objItem d ∉ firstClosure →
        objItem d ∈ plan.unreachable := by
  have active : firstActive.keys.length ≤ 2 := by
    have first := Dict.length_keys_set_le (Dict.empty : Dict WalIdentity Bytes) ⟨7, 1⟩
      (firstActiveFile 7)
    have second := Dict.length_keys_set_le (Dict.empty.set ⟨7, 1⟩ (firstActiveFile 7))
      (⟨8, 1⟩ : WalIdentity) (firstActiveFile 8)
    have none : (Dict.empty : Dict WalIdentity Bytes).keys.length = 0 := rfl
    unfold firstActive
    omega
  have short : (presentItems objects ⟨firstActive, objects⟩).length < 2 ^ 32 := by
    simp only [presentItems, enumerateObjects, enumerateActive, List.length_append, List.length_map]
    generalize firstActive.keys.length = count at active ⊢
    omega
  obtain ⟨plan, decided, planned, -, unreachable⟩ :=
    exists_plan_of_reachAll (reachAll_first ext) short
  refine ⟨plan, decided, planned, ?_⟩
  intro d blob found fresh
  rw [unreachable, List.mem_filter]
  refine ⟨objItem_mem_presentItems.mpr ⟨blob, found⟩, ?_⟩
  simp [firstRoots, GcRoots.reachable, fresh]

/-- The name of the `n`-th object that no root reaches. -/
def strayName (n : Nat) : Bytes := zeros 30 ++ [UInt8.ofNat (n / 256), UInt8.ofNat n]

/-- A store and `n` objects that no root reaches, as aborted writers leave them. -/
def withStrays (base : ObjectStore) : Nat → ObjectStore
  | 0 => base
  | n + 1 => ⟨(withStrays base n).objects.set (strayName n) []⟩

theorem get_withStrays (base : ObjectStore) (n : Nat) (d : Bytes) :
    (withStrays base n).get d = if ∃ i < n, strayName i = d then some [] else base.get d := by
  induction n with
  | zero => simp [withStrays]
  | succ n ih =>
    show ((withStrays base n).objects.set (strayName n) []).get d = _
    rw [Dict.get_set]
    by_cases last : strayName n = d
    · rw [if_pos last, if_pos ⟨n, Nat.lt_succ_self n, last⟩]
    · rw [if_neg last]
      show (withStrays base n).get d = _
      rw [ih]
      have same : (∃ i < n + 1, strayName i = d) ↔ ∃ i < n, strayName i = d := by
        constructor
        · rintro ⟨i, below, name⟩
          have other : i ≠ n := by
            rintro rfl
            exact last name
          exact ⟨i, by omega, name⟩
        · rintro ⟨i, below, name⟩
          exact ⟨i, by omega, name⟩
      simp only [same]

theorem length_keys_withStrays (base : ObjectStore) (n : Nat) :
    (withStrays base n).objects.keys.length ≤ base.objects.keys.length + n := by
  induction n with
  | zero => exact le_refl _
  | succ n ih =>
    have step := Dict.length_keys_set_le (withStrays base n).objects (strayName n) []
    show ((withStrays base n).objects.set (strayName n) []).keys.length ≤ _
    omega

theorem named_withStrays (named : base.Named) (n : Nat) : (withStrays base n).Named := by
  induction n with
  | zero => exact named
  | succ n ih => exact named_set ih rfl

/-- The objects of scope 7 and `n` strays. -/
def strayObjects (n : Nat) : ObjectStore := withStrays (firstObjects 7) n

set_option maxRecDepth 100000 in
theorem take_publication_eight : (firstPublication 8).take 1 = [220] := by
  decide +kernel

set_option maxRecDepth 100000 in
theorem first_bytes_apart :
    (∀ d ∈ (firstObjects 7).objects.keys, d.take 1 ≠ [0] ∧ d.take 1 ≠ [220]) ∧
      ∀ item ∈ firstClosure, item.kind = .object →
        item.key.take 2 ≠ ascii "00" ∧ item.key.take 2 ≠ ascii "dc" := by
  decide +kernel

theorem first_digests_apart :
    (∀ d ∈ (firstObjects 7).objects.keys, d.take 1 ≠ [0] ∧ d ≠ firstPublication 8) ∧
      ∀ item ∈ firstClosure, item.kind = .object →
        item.key.take 2 ≠ ascii "00" ∧ item.key ≠ hexText (firstPublication 8) := by
  have begins := take_publication_eight
  constructor
  · intro d member
    obtain ⟨nonzero, other⟩ := first_bytes_apart.1 d member
    refine ⟨nonzero, ?_⟩
    rintro rfl
    exact other begins
  · intro item member object
    obtain ⟨nonzero, other⟩ := first_bytes_apart.2 item member object
    refine ⟨nonzero, ?_⟩
    intro same
    apply other
    rw [same]
    cases published : firstPublication 8 with
    | nil =>
      rw [published] at begins
      cases begins
    | cons byte rest =>
      rw [published] at begins
      obtain rfl : byte = 220 := by simpa using begins
      rfl

theorem extends_strayObjects (n : Nat) : (firstObjects 7).Extends (strayObjects n) := by
  intro d blob found
  rw [strayObjects, get_withStrays, if_neg, found]
  rintro ⟨i, -, rfl⟩
  have inKeys := (Dict.mem_keys_iff _ _).mpr ⟨blob, found⟩
  exact (first_digests_apart.1 _ inKeys).1 rfl

theorem strayName_not_mem_firstClosure (n : Nat) : objItem (strayName n) ∉ firstClosure := by
  intro member
  exact (first_digests_apart.2 _ member rfl).1 rfl

theorem length_keys_strayObjects (n : Nat) : (strayObjects n).objects.keys.length ≤ n + 7 := by
  have strays := length_keys_withStrays (firstObjects 7) n
  have first := length_keys_addBlobs ObjectStore.init (firstBlobs 7)
  have blobs : (firstBlobs 7).length = 7 := rfl
  have none : ObjectStore.init.objects.keys.length = 0 := rfl
  rw [blobs, none] at first
  unfold strayObjects
  unfold firstObjects at strays ⊢
  omega

theorem get_strayName {n i : Nat} (below : i < n) : (strayObjects n).get (strayName i) = some [] := by
  rw [strayObjects, get_withStrays, if_pos ⟨i, below, rfl⟩]

/-- A plan over the first generation and one object no root reaches. -/
theorem collection_keeps_roots_first :
    ∃ plan, (plan.state = .planned ∧ objItem (strayName 0) ∈ plan.unreachable) ∧
      (plan.state = .planned →
        KeepsRoots stdCrypto firstKeyring (firstDisk (strayObjects 1)) firstRoots plan) ∧
      ((∃ pub ∈ firstRoots.allPublicationDigests,
          ¬ RootIntact stdCrypto firstKeyring (strayObjects 1) (firstDisk (strayObjects 1)).walStore
            pub) → plan.unreachable = []) := by
  have short := length_keys_strayObjects 1
  obtain ⟨plan, decided, planned, unreachable⟩ :=
    exists_plan_first (extends_strayObjects 1) (by omega)
  have stray := unreachable (strayName 0) [] (get_strayName Nat.one_pos)
    (strayName_not_mem_firstClosure 0)
  exact ⟨plan, ⟨planned, stray⟩,
    collection_keeps_roots stdCrypto firstKeyring (firstDisk (strayObjects 1)) firstRoots
      defaultGcLimits plan decided⟩

end ProofRay.Engine
