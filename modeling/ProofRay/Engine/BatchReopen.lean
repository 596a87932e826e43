/- Reopening `CURRENT` after a batch: when the checkers of the next opening accept what the fast
   path has written. -/

import ProofRay.Engine.BatchPublication
import ProofRay.Engine.PublicationHistory

namespace ProofRay.Engine

open Lib (Dict)
open Lib.Guard

variable {c : Crypto} {keyring : Keyring}

def advancedActive (active : WalSegmentDescriptor) (appliedCount byteLength : Int)
    (prefixDigest : Bytes) : WalSegmentDescriptor :=
  { active with
    recordCount := active.recordCount + appliedCount
    durablePrefixLength := byteLength
    durablePrefixSha256 := prefixDigest }

private theorem segmentCoverageFault_front (i : Nat) (extended extended' : Bool)
    (expected prevSegmentId : Int) (prevDigest : Bytes) (s : WalSegmentDescriptor) :
    segmentCoverageFault i false extended expected prevSegmentId prevDigest s =
      segmentCoverageFault i false extended' expected prevSegmentId prevDigest s := by
  simp only [segmentCoverageFault, Bool.false_eq_true, false_and, and_false]

variable {man : EpochManifest} {prefixDigest : Bytes} {active : WalSegmentDescriptor}
  {appliedCount byteLength : Int} {call : BatchCall} {disk : PublicationDisk}
  {gl : GenerationLimits} {plan : PublishPlan}

variable {record : PublicationRecord} {extended extended' : Bool} {cursor : PublishedCursor}
  {objects : ObjectStore} {ptr : CurrentPointer} {currentBlob : Bytes} {manifestLen : Nat}

private theorem segmentCoverageFault_advanced {i : Nat} {expected prevSegmentId : Int}
    {prevDigest : Bytes} (status : active.status = stateActive) (positive : 0 < appliedCount)
    (longer : active.durablePrefixLength ≤ byteLength)
    (sound : segmentCoverageFault i true extended expected prevSegmentId prevDigest active = none) :
    segmentCoverageFault i true extended' expected prevSegmentId prevDigest
      (advancedActive active appliedCount byteLength prefixDigest) = none := by
  have notSealed : ¬ active.status = stateSealed := by
    rw [status]
    decide
  simp only [segmentCoverageFault, ite_some_eq_none] at sound
  obtain ⟨ordinal, range, mono, known, nonneg, first, -, -, -, durable, -, canonical, chain⟩ :=
    sound
  simp only [segmentCoverageFault, ite_some_eq_none]
  dsimp only [advancedActive]
  refine ⟨ordinal, range, mono, known, ?_, first, ?_, ?_, ?_, ?_, ?_, canonical, chain⟩
  · omega
  · simp
  · simp [notSealed]
  · simp [status]
  · omega
  · simp [notSealed]

private theorem coverageLoop_advanced (status : active.status = stateActive)
    (positive : 0 < appliedCount) (longer : active.durablePrefixLength ≤ byteLength) :
    ∀ {front : List WalSegmentDescriptor} {i : Nat} {expected prevSegmentId final : Int}
      {prevDigest : Bytes},
      coverageLoop extended (front ++ [active]) i expected prevSegmentId prevDigest = .ok final →
      coverageLoop extended' (front ++ [advancedActive active appliedCount byteLength prefixDigest])
          i expected prevSegmentId prevDigest =
        if maxSeq ≤ final + appliedCount then .error "overflow de seq"
        else .ok (final + appliedCount)
  | [], i, expected, prevSegmentId, final, prevDigest, h => by
    simp only [List.nil_append, coverageLoop, List.isEmpty_nil] at h ⊢
    split at h
    · cases h
    · rename_i sound
      rw [segmentCoverageFault_advanced status positive longer sound]
      split at h
      · cases h
      · cases h
        simp only [advancedActive, add_assoc]
        rfl
  | s :: front, i, expected, prevSegmentId, final, prevDigest, h => by
    have more : ∀ x : WalSegmentDescriptor, (front ++ [x]).isEmpty = false := by
      intro x
      cases front <;> rfl
    simp only [List.cons_append, coverageLoop, more] at h ⊢
    split at h
    · cases h
    · split at h
      · cases h
      · rename_i sound inRange
        rw [segmentCoverageFault_front i extended' extended, sound]
        simp only [if_neg inRange]
        exact coverageLoop_advanced status positive longer h

theorem checkCoverage_eq_none_iff {man : EpochManifest} {out : Except String Int}
    (nonempty : man.segments ≠ [])
    (loop : coverageLoop (decide (man.baseSeq < man.readSeq)) man.segments 0 (man.baseSeq + 1) (-1)
      (zeros 16) = out) :
    checkCoverage man = none ↔ ¬ man.readSeq < man.baseSeq ∧ out = .ok (man.readSeq + 1) := by
  simp only [checkCoverage, ite_some_eq_none, if_neg nonempty, loop]
  cases out with
  | error reason => simp
  | ok expected => simp

theorem checkCoverage_advanced (last : activeSegment man = some active)
    (covered : checkCoverage man = none) (positive : 0 < appliedCount)
    (longer : active.durablePrefixLength ≤ byteLength) :
    checkCoverage (advancedManifest man active (man.readSeq + appliedCount)
        (active.recordCount + appliedCount) byteLength prefixDigest) = none ↔
      man.readSeq + appliedCount + 1 < maxSeq := by
  obtain ⟨segments, status⟩ := segments_of_activeSegment last
  have nonempty : man.segments ≠ [] := by
    rw [segments]
    simp
  cases loop : coverageLoop (decide (man.baseSeq < man.readSeq)) man.segments 0
      (man.baseSeq + 1) (-1) (zeros 16) with
  | error reason =>
    have impossible := ((checkCoverage_eq_none_iff nonempty loop).mp covered).2
    cases impossible
  | ok final =>
    obtain ⟨ordered, ended⟩ := (checkCoverage_eq_none_iff nonempty loop).mp covered
    have total : final = man.readSeq + 1 := Except.ok.inj ended
    rw [segments] at loop
    have advanced : coverageLoop (decide (man.baseSeq < man.readSeq + appliedCount))
        (man.segments.dropLast ++ [advancedActive active appliedCount byteLength prefixDigest]) 0
        (man.baseSeq + 1) (-1) (zeros 16) = if maxSeq ≤ final + appliedCount then
          .error "overflow de seq" else .ok (final + appliedCount) :=
      coverageLoop_advanced status positive longer loop
    have later : ¬ man.readSeq + appliedCount < man.baseSeq := by omega
    have grown : man.segments.dropLast ++
        [advancedActive active appliedCount byteLength prefixDigest] ≠ [] := by simp
    refine (checkCoverage_eq_none_iff grown advanced).trans ?_
    show ¬ man.readSeq + appliedCount < man.baseSeq ∧ _ = Except.ok (man.readSeq + appliedCount + 1) ↔ _
    rw [total]
    by_cases overflow : maxSeq ≤ man.readSeq + 1 + appliedCount
    · rw [if_pos overflow]
      simp only [reduceCtorEq, and_false, false_iff]
      omega
    · rw [if_neg overflow, Except.ok.injEq]
      constructor <;> omega

theorem walBytesLoop_append (gl : GenerationLimits) (front back : List WalSegmentDescriptor)
    (totalWal totalFrames : Int) :
    walBytesLoop gl (front ++ back) totalWal totalFrames =
      walBytesLoop gl front totalWal totalFrames >>= fun r => walBytesLoop gl back r.1 r.2 := by
  induction front generalizing totalWal totalFrames with
  | nil => rfl
  | cons s front ih =>
    simp only [List.cons_append, walBytesLoop, ih]
    split_ifs <;> rfl

theorem sums_of_walBytesLoop {segs : List WalSegmentDescriptor} {totalWal totalFrames : Int}
    {r : Int × Int} (h : walBytesLoop gl segs totalWal totalFrames = .ok r) :
    r.1 = totalWal + (segs.map WalSegmentDescriptor.durablePrefixLength).sum ∧
      r.2 = totalFrames + (segs.map WalSegmentDescriptor.recordCount).sum := by
  induction segs generalizing totalWal totalFrames with
  | nil =>
    cases h
    simp
  | cons s segs ih =>
    simp only [walBytesLoop] at h
    split_ifs at h
    obtain ⟨bytes, frames⟩ := ih h
    simp only [List.map_cons, List.sum_cons]
    constructor
    · omega
    · omega

theorem sum_of_baseBytesLoop {limit : Int} {descs : List ArtifactDescriptor} {total final : Int}
    (h : baseBytesLoop limit descs total = .ok final) :
    final = total + (descs.map ArtifactDescriptor.byteLength).sum := by
  induction descs generalizing total with
  | nil =>
    cases h
    simp
  | cons d descs ih =>
    simp only [baseBytesLoop] at h
    split_ifs at h
    have rest := ih h
    simp only [List.map_cons, List.sum_cons]
    omega

def EpochManifest.walBytes (man : EpochManifest) : Int :=
  (man.segments.map WalSegmentDescriptor.durablePrefixLength).sum

def EpochManifest.walFrames (man : EpochManifest) : Int :=
  (man.segments.map WalSegmentDescriptor.recordCount).sum

def EpochManifest.baseBytes (man : EpochManifest) : Int :=
  ((baseKinds.map man.baseDescriptors).map ArtifactDescriptor.byteLength).sum

/-- What a batch of `appliedCount` frames, which takes the active segment to `byteLength`
bytes, must leave free. -/
structure BatchFits (gl : GenerationLimits) (man : EpochManifest) (active : WalSegmentDescriptor)
    (appliedCount byteLength : Int) : Prop where
  next_seq : man.readSeq + appliedCount + 1 < maxSeq
  segment_bytes : byteLength ≤ gl.maxSegmentBytes
  segment_frames : active.recordCount + appliedCount ≤ gl.maxFramesPerSegment
  wal_bytes : man.walBytes - active.durablePrefixLength + byteLength ≤ gl.maxTotalWalBytes
  wal_frames : man.walFrames + appliedCount ≤ gl.maxTotalFrames
  generation_bytes : man.baseBytes + (man.walBytes - active.durablePrefixLength + byteLength) ≤
    gl.maxTotalGenerationBytes

private theorem walBytesLoop_last (gl : GenerationLimits) (s : WalSegmentDescriptor)
    (totalWal totalFrames : Int) :
    (∃ r, walBytesLoop gl [s] totalWal totalFrames = .ok r) ↔
      s.durablePrefixLength ≤ gl.maxSegmentBytes ∧ s.recordCount ≤ gl.maxFramesPerSegment ∧
        s.durablePrefixLength ≤ gl.maxTotalWalBytes - totalWal ∧
        s.recordCount ≤ gl.maxTotalFrames - totalFrames := by
  simp only [walBytesLoop]
  split_ifs with bytes frames wal total
  · simp; omega
  · simp; omega
  · simp; omega
  · simp; omega
  · simp; omega

theorem generationPreflight_eq_none_iff :
    generationPreflight man manifestLen gl = none ↔
      (manifestLen : Int) ≤ gl.maxManifestBytes ∧
        (∃ total, baseBytesLoop gl.maxBaseBytes (baseKinds.map man.baseDescriptors) 0 = .ok total) ∧
        (man.segments.length : Int) ≤ gl.maxSegments ∧
        (∃ r, walBytesLoop gl man.segments 0 0 = .ok r) ∧
        man.baseBytes + man.walBytes ≤ gl.maxTotalGenerationBytes := by
  unfold generationPreflight
  cases base : baseBytesLoop gl.maxBaseBytes (baseKinds.map man.baseDescriptors) 0 with
  | error reason =>
    dsimp only
    split_ifs <;> simp
  | ok total =>
    have baseSum : total = man.baseBytes := by
      rw [sum_of_baseBytesLoop base, zero_add]
      rfl
    cases wal : walBytesLoop gl man.segments 0 0 with
    | error reason =>
      dsimp only
      split_ifs <;> simp
    | ok r =>
      obtain ⟨bytes, frames⟩ := r
      have walSum : bytes = man.walBytes := by
        have sums := (sums_of_walBytesLoop wal).1
        rw [zero_add] at sums
        exact sums
      dsimp only
      split_ifs with manifest segs generation
      · simp
        omega
      · simp
        omega
      · simp
        omega
      · simp
        omega

theorem generationPreflight_advanced (last : activeSegment man = some active)
    (passed : generationPreflight man manifestLen gl = none)
    (next : man.readSeq + appliedCount + 1 < maxSeq) :
    generationPreflight (advancedManifest man active (man.readSeq + appliedCount)
        (active.recordCount + appliedCount) byteLength prefixDigest) manifestLen gl = none ↔
      BatchFits gl man active appliedCount byteLength := by
  obtain ⟨segments, -⟩ := segments_of_activeSegment last
  obtain ⟨manifestFits, baseFits, segsFit, ⟨r, wal⟩, -⟩ :=
    generationPreflight_eq_none_iff.mp passed
  rw [segments, walBytesLoop_append] at wal
  obtain ⟨front, frontWal, -⟩ := bind_eq_ok.mp wal
  obtain ⟨frontBytes, frontFrames⟩ := sums_of_walBytesLoop frontWal
  have bytes : man.walBytes = front.1 + active.durablePrefixLength := by
    rw [EpochManifest.walBytes, segments, List.map_append, List.sum_append]
    simpa using frontBytes.symm
  have frames : man.walFrames = front.2 + active.recordCount := by
    rw [EpochManifest.walFrames, segments, List.map_append, List.sum_append]
    simpa using frontFrames.symm
  set man' := advancedManifest man active (man.readSeq + appliedCount)
    (active.recordCount + appliedCount) byteLength prefixDigest with advanced
  have segments' : man'.segments =
      man.segments.dropLast ++ [advancedActive active appliedCount byteLength prefixDigest] := rfl
  have count : man'.segments.length = man.segments.length := by
    rw [segments', segments]
    simp
  have bytes' : man'.walBytes = front.1 + byteLength := by
    rw [EpochManifest.walBytes, segments', List.map_append, List.sum_append]
    simpa [advancedActive] using frontBytes.symm
  have base' : man'.baseBytes = man.baseBytes := rfl
  have wal' : (∃ r, walBytesLoop gl man'.segments 0 0 = .ok r) ↔
      byteLength ≤ gl.maxSegmentBytes ∧
        active.recordCount + appliedCount ≤ gl.maxFramesPerSegment ∧
        byteLength ≤ gl.maxTotalWalBytes - front.1 ∧
        active.recordCount + appliedCount ≤ gl.maxTotalFrames - front.2 := by
    rw [segments', walBytesLoop_append, frontWal]
    exact walBytesLoop_last gl (advancedActive active appliedCount byteLength prefixDigest) _ _
  rw [generationPreflight_eq_none_iff, wal', bytes', base', count]
  constructor
  · rintro ⟨-, -, -, ⟨segBytes, segFrames, walBytes, walFrames⟩, generation⟩
    exact ⟨next, segBytes, segFrames, by omega, by omega, by omega⟩
  · intro fits
    obtain ⟨-, segBytes, segFrames, walBytes, walFrames, generation⟩ := fits
    exact ⟨manifestFits, baseFits, segsFit, ⟨segBytes, segFrames, by omega, by omega⟩, by omega⟩

/-- The manifest a batch of `appliedCount` frames leads to. -/
def PublishedCursor.batchManifest (cursor : PublishedCursor) (appliedCount byteLength : Int)
    (prefixDigest : Bytes) : EpochManifest :=
  advancedManifest cursor.manifest cursor.activeDescriptor
    (cursor.manifest.readSeq + appliedCount) (cursor.activeDescriptor.recordCount + appliedCount)
    byteLength prefixDigest

/-- The facts behind an intent prepared from a cursor. -/
structure IntentFacts (c : Crypto) (keyring : Keyring) (cursor : PublishedCursor)
    (intent : BatchPublicationIntent) : Prop where
  positive : 0 < intent.appliedCount
  longer : cursor.activeDescriptor.durablePrefixLength ≤ intent.candidateByteLength
  digest_length : intent.candidatePrefixSha256.length = 32
  in_range : cursor.manifest.readSeq + intent.appliedCount < maxSeq
  candidate_seq : intent.candidateReadSeq = cursor.manifest.readSeq + intent.appliedCount
  key_eq : intent.keyId = cursor.manifest.keyId
  written : ∃ key, keyring.get cursor.manifest.keyId = some key ∧
    (cursor.batchManifest intent.appliedCount intent.candidateByteLength
      intent.candidatePrefixSha256).serialize c key = .ok intent.candidateManifestBlob

theorem intentFacts_of_prepare {plan : BatchPlan} {intent : BatchPublicationIntent}
    (readSeq : cursor.readSeq = cursor.manifest.readSeq)
    (h : prepareBatchPublication c keyring cursor plan = .ok intent) :
    IntentFacts c keyring cursor intent := by
  simp only [prepareBatchPublication, advanceBatchManifest, bind_eq_ok, mapError_eq_ok,
    require_eq_ok, orThrow_eq_ok, pure_eq_ok] at h
  obtain ⟨-, -, -, -, adv, ⟨-, positive, -, through, -, -, -, -, -, longer, -, digestLength, -, -,
    -, inRange, key, known, blob, written, rfl⟩, rfl⟩ := h
  rw [through, readSeq] at inRange written
  refine ⟨positive, longer, digestLength, inRange, ?_, rfl, key, known, written⟩
  show plan.candidateHead.durableThroughSeq = _
  rw [through, readSeq]

theorem wellFormed_batchManifest {appliedCount : Int} (byteLength : Int)
    (wf : cursor.manifest.WellFormed)
    (last : activeSegment cursor.manifest = some cursor.activeDescriptor)
    (positive : 0 < appliedCount) (digestLength : prefixDigest.length = 32)
    (inRange : cursor.manifest.readSeq + appliedCount < maxSeq) :
    (cursor.batchManifest appliedCount byteLength prefixDigest).WellFormed := by
  obtain ⟨segments, -⟩ := segments_of_activeSegment last
  have grown : (cursor.batchManifest appliedCount byteLength prefixDigest).segments =
      cursor.manifest.segments.dropLast ++
        [advancedActive cursor.activeDescriptor appliedCount byteLength prefixDigest] := rfl
  have nonneg := wf.read_seq.1
  refine ⟨wf.base_seq, ⟨?_, inRange⟩, wf.parent_ge, wf.parent_lt, wf.genesis_digest,
    wf.parent_digest, wf.digest_length, wf.desc_exact, ?_, ?_⟩
  · show 0 ≤ cursor.manifest.readSeq + appliedCount
    omega
  · intro s member
    rw [grown] at member
    rcases List.mem_append.mp member with front | final
    · exact wf.seg_exact s (List.mem_of_mem_dropLast front)
    · rw [List.mem_singleton] at final
      subst final
      have old : cursor.activeDescriptor ∈ cursor.manifest.segments := by
        rw [segments]
        exact List.mem_append_right _ (List.mem_singleton_self _)
      exact ⟨digestLength, (wf.seg_exact _ old).2⟩
  · have count : (cursor.batchManifest appliedCount byteLength prefixDigest).segments.length =
        cursor.manifest.segments.length := by
      rw [grown, segments]
      simp
    rw [count]
    exact wf.seg_count

/-- A publication with purpose `BATCH` follows another publication. -/
theorem prevRecord_of_authorize {call : PublishCall} {prevRecord : Option PublicationRecord}
    (purpose : call.purpose = some .batch)
    (h : authorize c keyring disk call man prevRecord = .ok ()) : prevRecord ≠ none := by
  rintro rfl
  simp only [authorize, purpose] at h
  split at h
  · cases h
  · obtain ⟨prev, first, transition⟩ := bind_eq_ok.mp h
    cases first
    cases transition

/-- What a batch publication that starts to write has established. -/
structure BatchPlanned (c : Crypto) (keyring : Keyring) (call : BatchCall) (plan : PublishPlan)
    (man : EpochManifest) (key : Bytes) : Prop where
  known : keyring.get call.cursor.manifest.keyId = some key
  key_eq : plan.key = key
  man_eq : man = call.cursor.batchManifest call.intent.appliedCount
    call.intent.candidateByteLength call.intent.candidatePrefixSha256
  parsed : parseManifest c keyring (some call.intent.candidateManifestBlob) = .ok man
  written : plan.record.serialize c key = .ok plan.recordBlob
  scope_eq : plan.record.scopeId = man.scopeId
  generation_eq : plan.record.generationId = man.generationId
  readSeq_eq : plan.record.readSeq = man.readSeq
  manifest_eq : plan.record.manifestSha256 = c.sha256 call.intent.candidateManifestBlob
  manifest_named : plan.record.manifestSha256 ≠ zeros 32
  previous_eq : plan.record.previousPublicationSha256 = call.cursor.proof.publicationSha256
  previous_length : plan.record.previousPublicationSha256.length = 32
  later : plan.record.revision ≠ 0
  key_id : plan.record.keyId = call.cursor.manifest.keyId

theorem batchPlanned_of_prepare (wf : call.cursor.manifest.WellFormed)
    (last : activeSegment call.cursor.manifest = some call.cursor.activeDescriptor)
    (facts : IntentFacts c keyring call.cursor call.intent)
    (decided : preparePublish c keyring disk call.publishCall = .ok plan) :
    ∃ man key, BatchPlanned c keyring call plan man key := by
  obtain ⟨man, observed, prep⟩ := prepared_of_preparePublish decided
  obtain ⟨key, known, written⟩ := facts.written
  have wf' := wellFormed_batchManifest call.intent.candidateByteLength wf last
    facts.positive facts.digest_length facts.in_range
  have parsed := parseManifest_serialize wf' known written
  have sameMan : man = call.cursor.batchManifest call.intent.appliedCount
      call.intent.candidateByteLength call.intent.candidatePrefixSha256 :=
    Except.ok.inj (prep.parsed.symm.trans parsed)
  have sameKey : plan.key = key := by
    have knownPlan : keyring.get call.intent.keyId = some plan.key := prep.key_known
    rw [facts.key_eq, known] at knownPlan
    exact (Option.some.inj knownPlan).symm
  have follows := prevRecord_of_authorize rfl prep.authorized
  obtain ⟨revision, previous, prevRecord⟩ := observed
  cases observedAs_of_observeCurrent prep.observed_ok with
  | absent noneYet expected => exact absurd rfl follows
  | @named blob ptr recordBlob rec present pointer stored parsedRecord sameKeyId expected =>
    have expected' : call.cursor.proof.publicationSha256 = ptr.publicationSha256 := expected
    have older := (first_of_parsePublicationRecord parsedRecord).1
    have length := length_publicationSha256_of_parseCurrent pointer
    have eq := prep.record_eq
    have written' : plan.record.serialize c key = .ok plan.recordBlob := by
      rw [← sameKey]
      exact prep.written
    refine ⟨man, key, known, sameKey, sameMan, prep.parsed, written', ?_, ?_, ?_, ?_, ?_, ?_, ?_,
      ?_, ?_⟩
    · rw [eq]
    · rw [eq]
    · rw [eq]
    · rw [eq]
      rfl
    · rw [eq]
      exact prep.named
    · rw [eq, expected']
    · rw [eq]
      exact length
    · rw [eq]
      show rec.revision + 1 ≠ 0
      omega
    · rw [eq]
      exact facts.key_eq

/-- What a batch must leave free for the next opening of `CURRENT`.  The first part fails
only if the digest of a record is the one reserved for "no publication". -/
def BatchCall.Reopens (call : BatchCall) : Prop :=
  call.cursor.proof.publicationSha256 ≠ zeros 32 ∧
    BatchFits call.limits.generation call.cursor.manifest call.cursor.activeDescriptor
      call.intent.appliedCount call.intent.candidateByteLength

private theorem found_after_rename {disk₀ disk : PublicationDisk} {call : BatchCall}
    {plan : PublishPlan} {ptr : CurrentPointer} {record : PublicationRecord} {man : EpochManifest}
    {key : Bytes} {objects : ObjectStore} {currentBlob : Bytes}
    (opened : Opened c keyring disk₀ call.storeScope call.limits call.cursor ptr record)
    (planned : BatchPlanned c keyring call plan man key) (keyId : call.intent.keyId =
      call.cursor.manifest.keyId)
    (stored : putObjects c disk.objects [call.intent.candidateManifestBlob, plan.recordBlob] =
      .ok objects)
    (pointer : serializeCurrent c (c.sha256 plan.recordBlob) call.intent.keyId plan.key =
      .ok currentBlob) :
    readCurrent c keyring ⟨objects, some currentBlob⟩ call.limits.maxCurrentBytes =
        .ok ⟨c.sha256 plan.recordBlob, call.intent.keyId⟩ ∧
      objects.getLimited (c.sha256 plan.recordBlob) call.limits.maxRecordBytes =
        .ok plan.recordBlob ∧
      objects.getLimited plan.record.manifestSha256 call.limits.artifact.maxBlobBytes =
        .ok call.intent.candidateManifestBlob ∧
      call.intent.candidateManifestBlob.length = call.cursor.manifestBlob.length := by
  have known : keyring.get call.intent.keyId = some plan.key := by
    rw [keyId, planned.key_eq]
    exact planned.known
  have manifestLength : call.intent.candidateManifestBlob.length =
      call.cursor.manifestBlob.length := by
    obtain ⟨segments, -⟩ := segments_of_activeSegment opened.active
    have grown : man.segments.length = call.cursor.manifest.segments.length := by
      rw [planned.man_eq, segments]
      simp [PublishedCursor.batchManifest, advancedManifest]
    rw [length_of_parseManifest planned.parsed, length_of_parseManifest opened.parsed, grown]
  refine ⟨?_, ?_, ?_, manifestLength⟩
  · obtain ⟨oldBlob, -, fits, oldPointer⟩ := readCurrent_eq_ok_iff.mp opened.pointer
    refine readCurrent_eq_ok_iff.mpr
      ⟨currentBlob, rfl, ?_, parseCurrent_serializeCurrent known pointer⟩
    rw [length_serializeCurrent pointer]
    rw [length_of_parseCurrent oldPointer] at fits
    exact fits
  · obtain ⟨oldBlob, got, parsed⟩ := openPublicationRecord_eq_ok_iff.mp opened.record_ok
    obtain ⟨-, fits⟩ := ObjectStore.getLimited_eq_ok_iff.mp got
    refine ObjectStore.getLimited_eq_ok_iff.mpr ⟨get_of_mem_putObjects stored (by simp), ?_⟩
    rw [length_serializeRecord planned.written]
    rw [(first_of_parsePublicationRecord parsed).2.2] at fits
    exact fits
  · obtain ⟨-, fits⟩ := ObjectStore.getLimited_eq_ok_iff.mp opened.manifest_ok
    rw [planned.manifest_eq]
    refine ObjectStore.getLimited_eq_ok_iff.mpr ⟨get_of_mem_putObjects stored (by simp), ?_⟩
    rw [manifestLength]
    exact fits

theorem reopens_iff_of_renamed {disk₀ disk : PublicationDisk} {call : BatchCall}
    {plan : PublishPlan} {ptr : CurrentPointer} {record : PublicationRecord}
    {objects : ObjectStore} {currentBlob : Bytes}
    (opened : Opened c keyring disk₀ call.storeScope call.limits call.cursor ptr record)
    (facts : IntentFacts c keyring call.cursor call.intent)
    (decided : preparePublish c keyring disk call.publishCall = .ok plan)
    (stored : putObjects c disk.objects [call.intent.candidateManifestBlob, plan.recordBlob] =
      .ok objects)
    (pointer : serializeCurrent c (c.sha256 plan.recordBlob) call.intent.keyId plan.key =
      .ok currentBlob) :
    (∃ cursor', openPublishedCursor c keyring ⟨objects, some currentBlob⟩ call.storeScope
        call.limits = .ok cursor') ↔ call.Reopens := by
  have wf := (wellFormed_of_parseManifest opened.parsed).1
  obtain ⟨man, key, planned⟩ := batchPlanned_of_prepare wf opened.active facts decided
  obtain ⟨currentFound, recordFound, manifestFound, manifestLength⟩ :=
    found_after_rename opened planned facts.key_eq stored pointer
  have manifestDigestLength : plan.record.manifestSha256.length = 32 := by
    rw [planned.manifest_eq]
    exact c.sha256_length _
  have coverage : checkCoverage man = none ↔
      call.cursor.manifest.readSeq + call.intent.appliedCount + 1 < maxSeq := by
    rw [planned.man_eq]
    exact checkCoverage_advanced opened.active opened.coverage facts.positive facts.longer
  constructor
  · rintro ⟨cursor', reopened⟩
    obtain ⟨ptr', record', opened'⟩ := openPublishedCursor_eq_ok_iff.mp reopened
    have samePointer : ptr' = ⟨c.sha256 plan.recordBlob, call.intent.keyId⟩ :=
      Except.ok.inj (opened'.pointer.symm.trans currentFound)
    have recordRead := opened'.record_ok
    rw [samePointer] at recordRead
    obtain ⟨recordBlob, got, parsed⟩ := openPublicationRecord_eq_ok_iff.mp recordRead
    have sameBlob : recordBlob = plan.recordBlob := Except.ok.inj (got.symm.trans recordFound)
    rw [sameBlob] at parsed
    have sameRecord : record' = plan.record :=
      eq_of_parsePublicationRecord_serialize planned.written manifestDigestLength
        planned.previous_length parsed
    have first := (first_of_parsePublicationRecord parsed).2.1
    rw [sameRecord, planned.previous_eq] at first
    have manifestRead := opened'.manifest_ok
    rw [sameRecord] at manifestRead
    have sameManifestBlob : cursor'.manifestBlob = call.intent.candidateManifestBlob :=
      Except.ok.inj (manifestRead.symm.trans manifestFound)
    have sameManifest : cursor'.manifest = man := by
      have parsed' := opened'.parsed
      rw [sameManifestBlob] at parsed'
      exact Except.ok.inj (parsed'.symm.trans planned.parsed)
    have covered := opened'.coverage
    rw [sameManifest] at covered
    have budget := opened'.resources
    rw [sameManifestBlob, manifestLength, sameManifest, planned.man_eq] at budget
    refine ⟨fun reserved => planned.later (first.mpr reserved), ?_⟩
    exact (generationPreflight_advanced opened.active opened.resources
      (coverage.mp covered)).mp budget
  · rintro ⟨notReserved, fits⟩
    have knownRecord : keyring.get plan.record.keyId = some key := by
      rw [planned.key_id]
      exact planned.known
    have inRange : readSeqOk plan.record.readSeq := by
      rw [planned.readSeq_eq]
      exact (wellFormed_of_parseManifest planned.parsed).1.read_seq
    have first : plan.record.revision = 0 ↔
        plan.record.previousPublicationSha256 = zeros 32 := by
      rw [planned.previous_eq]
      exact iff_of_false planned.later notReserved
    have parsed := parsePublicationRecord_serialize knownRecord planned.written
      manifestDigestLength planned.previous_length planned.manifest_named first inRange
    obtain ⟨active', last'⟩ : ∃ active', activeSegment man = some active' := by
      rw [planned.man_eq]
      obtain ⟨-, status⟩ := segments_of_activeSegment opened.active
      simp [activeSegment, PublishedCursor.batchManifest, advancedManifest, status]
    refine ⟨⟨proofFrom plan.record (c.sha256 plan.recordBlob) active',
      call.intent.candidateManifestBlob, man, active', plan.record.revision, man.readSeq⟩,
      openPublishedCursor_eq_ok_iff.mpr
      ⟨⟨c.sha256 plan.recordBlob, call.intent.keyId⟩, plan.record, ?_⟩⟩
    refine
      { pointer := currentFound
        record_ok := openPublicationRecord_eq_ok_iff.mpr ⟨plan.recordBlob, recordFound, parsed⟩
        same_key := ?_
        manifest_ok := manifestFound
        manifest_digest := planned.manifest_eq.symm
        parsed := planned.parsed
        coherent := ⟨planned.scope_eq, planned.generation_eq, planned.readSeq_eq⟩
        scope := ?_
        coverage := coverage.mpr fits.next_seq
        resources := ?_
        active := last'
        proof_eq := rfl
        revision_eq := rfl
        readSeq_eq := rfl }
    · rw [planned.key_id]
      exact facts.key_eq
    · intro scope inStore
      rw [opened.scope scope inStore, planned.man_eq]
      rfl
    · show generationPreflight man call.intent.candidateManifestBlob.length _ = none
      rw [manifestLength, planned.man_eq]
      exact (generationPreflight_advanced opened.active opened.resources fits.next_seq).mpr fits

/-- A batch that replaces `CURRENT` has gone through the rename of `_publish_impl`. -/
theorem renamed_of_publishBatch
    (replaced : (publishBatch c keyring disk call).2.current ≠ disk.current) :
    ∃ plan objects currentBlob, preparePublish c keyring disk call.publishCall = .ok plan ∧
      putObjects c disk.objects [call.intent.candidateManifestBlob, plan.recordBlob] = .ok objects ∧
      serializeCurrent c (c.sha256 plan.recordBlob) call.intent.keyId plan.key = .ok currentBlob ∧
      (publishBatch c keyring disk call).2 = ⟨objects, some currentBlob⟩ := by
  have sameDisk : (publishBatch c keyring disk call).2 = disk ∨
      (publishBatch c keyring disk call).2 = (publishImpl c keyring disk call.publishCall).2 := by
    unfold publishBatch
    split
    · exact .inl rfl
    · exact .inl rfl
    · right
      split
      · rename_i published
        rw [published]
      · rename_i published
        rw [published]
      · rename_i published
        rw [published]
  rcases sameDisk with kept | published
  · rw [kept] at replaced
    exact absurd rfl replaced
  · rw [published] at replaced ⊢
    have effect := @publishImpl_effect c keyring disk call.publishCall
    generalize publishImpl c keyring disk call.publishCall = result at effect replaced ⊢
    obtain ⟨outcome, disk'⟩ := result
    cases effect with
    | stopped decided => exact absurd rfl replaced
    | kept decided silent stored => exact absurd rfl replaced
    | renamed decided stored pointer answer => exact ⟨_, _, _, decided, stored, pointer, rfl⟩

/-- A batch publication that replaces `CURRENT` leaves it readable under the same limits
exactly when the batch leaves the next opening its room. -/
theorem publishBatch_reopens_iff {disk₀ disk : PublicationDisk} {call : BatchCall}
    {plan : BatchPlan}
    (opened : openPublishedCursor c keyring disk₀ call.storeScope call.limits = .ok call.cursor)
    (prepared : prepareBatchPublication c keyring call.cursor plan = .ok call.intent)
    (replaced : (publishBatch c keyring disk call).2.current ≠ disk.current) :
    (∃ cursor', openPublishedCursor c keyring (publishBatch c keyring disk call).2
        call.storeScope call.limits = .ok cursor') ↔ call.Reopens := by
  obtain ⟨ptr, record, opened⟩ := openPublishedCursor_eq_ok_iff.mp opened
  have facts := intentFacts_of_prepare opened.readSeq_eq prepared
  obtain ⟨publication, objects, currentBlob, decided, stored, pointer, after⟩ :=
    renamed_of_publishBatch replaced
  rw [after]
  exact reopens_iff_of_renamed opened facts decided stored pointer

private def bytesOf (x : Except PyError Bytes) : Bytes :=
  match x with
  | .ok blob => blob
  | .error _ => []

def fullActive : WalSegmentDescriptor :=
  ⟨0, 1, 1, 1 <<< 24, stateActive, 67 + 80 * (1 <<< 24), zeros 32, 0, zeros 32, zeros 16, 0⟩

def fullManifest : EpochManifest :=
  { firstManifest 7 with
    readSeq := 1 <<< 24
    segments := [fullActive] }

def fullManifestBlob : Bytes := bytesOf (fullManifest.serialize stdCrypto (zeros 32))

def fullRecord : PublicationRecord :=
  ⟨7, 0, 0, 1 <<< 24, stdCrypto.sha256 fullManifestBlob, zeros 32, 0⟩

def fullRecordBlob : Bytes := bytesOf (fullRecord.serialize stdCrypto (zeros 32))

def fullDisk : PublicationDisk where
  objects := ⟨(Dict.empty.set (stdCrypto.sha256 fullManifestBlob) fullManifestBlob).set
    (stdCrypto.sha256 fullRecordBlob) fullRecordBlob⟩
  current := some (bytesOf (serializeCurrent stdCrypto (stdCrypto.sha256 fullRecordBlob) 0
    (zeros 32)))

def fullCursor : PublishedCursor :=
  ⟨proofFrom fullRecord (stdCrypto.sha256 fullRecordBlob) fullActive, fullManifestBlob,
    fullManifest, fullActive, 0, 1 <<< 24⟩

def fullHead : WalHead :=
  ⟨7, 1, 1, (1 <<< 24) + 1, 67 + 80 * (1 <<< 24) + 80, zeros 32, stateActive⟩

def fullPlan : BatchPlan :=
  ⟨(1 <<< 24) + 1, [zeros 80], [⟨0, .applied, some ((1 <<< 24) + 1)⟩],
    ⟨WalIndex.init, TxIdIndex.init, (1 <<< 24) + 1, fullHead⟩, fullHead, 80, ⟨[]⟩⟩

def fullCandidateBlob : Bytes :=
  bytesOf ((fullCursor.batchManifest 1 (67 + 80 * (1 <<< 24) + 80) (zeros 32)).serialize stdCrypto
    (zeros 32))

def fullIntent : BatchPublicationIntent where
  sourcePublicationSha256 := stdCrypto.sha256 fullRecordBlob
  sourceRevision := 0
  sourceReadSeq := 1 <<< 24
  scopeId := 7
  segmentId := 1
  firstSeq := 1
  sourceByteLength := 67 + 80 * (1 <<< 24)
  sourcePrefixSha256 := zeros 32
  appliedCount := 1
  frameCount := 1
  candidateReadSeq := (1 <<< 24) + 1
  candidateByteLength := 67 + 80 * (1 <<< 24) + 80
  candidatePrefixSha256 := zeros 32
  candidateManifestBlob := fullCandidateBlob
  candidateManifestSha256 := stdCrypto.sha256 fullCandidateBlob
  keyId := 0

def fullCall : BatchCall where
  storeScope := some 7
  walStore := ⟨Dict.empty, ObjectStore.init⟩
  stat _ := some ⟨1, 2, 67 + 80 * (1 <<< 24) + 80⟩
  cursor := fullCursor
  intent := fullIntent
  durableProof := ⟨1, 2, 7, 1, (1 <<< 24) + 1, (1 <<< 24) + 1, 67 + 80 * (1 <<< 24) + 80, zeros 32,
    bytesOf (intentCanonicalDigest stdCrypto fullIntent)⟩
  authority := some ⟨true, true, true, 7, .ownedByStore⟩
  limits := defaultPublicationLimits
  crash := none

set_option maxRecDepth 100000 in
/-- The writer's checks pass and `CURRENT` moves. -/
theorem fullCall_published :
    yields (openPublishedCursor stdCrypto firstKeyring fullDisk fullCall.storeScope
        fullCall.limits) fullCall.cursor ∧
      yields (prepareBatchPublication stdCrypto firstKeyring fullCall.cursor fullPlan)
        fullCall.intent ∧
      (publishBatch stdCrypto firstKeyring fullDisk fullCall).2.current ≠ fullDisk.current := by
  decide +kernel

theorem publishBatch_reopens_iff_full :
    (∃ cursor', openPublishedCursor stdCrypto firstKeyring
        (publishBatch stdCrypto firstKeyring fullDisk fullCall).2 fullCall.storeScope
        fullCall.limits = .ok cursor') ↔ fullCall.Reopens :=
  publishBatch_reopens_iff (eq_ok_of_yields fullCall_published.1)
    (eq_ok_of_yields fullCall_published.2.1) fullCall_published.2.2

/-- One frame over the limit is published and cannot be opened. -/
theorem publishBatch_leaves_unreadable :
    ¬ ∀ (c : Crypto) (keyring : Keyring) (disk₀ disk : PublicationDisk) (call : BatchCall)
      (plan : BatchPlan),
      openPublishedCursor c keyring disk₀ call.storeScope call.limits = .ok call.cursor →
      prepareBatchPublication c keyring call.cursor plan = .ok call.intent →
      (publishBatch c keyring disk call).2.current ≠ disk.current →
      ∃ cursor', openPublishedCursor c keyring (publishBatch c keyring disk call).2
        call.storeScope call.limits = .ok cursor' := by
  intro always
  obtain ⟨opened, prepared, replaced⟩ := fullCall_published
  have opened := eq_ok_of_yields opened
  have prepared := eq_ok_of_yields prepared
  have reopened := always stdCrypto firstKeyring fullDisk fullDisk fullCall fullPlan opened prepared
    replaced
  obtain ⟨ptr, record, links⟩ := openPublishedCursor_eq_ok_iff.mp opened
  obtain ⟨publication, objects, currentBlob, decided, stored, pointer, after⟩ :=
    renamed_of_publishBatch replaced
  rw [after] at reopened
  obtain ⟨-, fits⟩ := (reopens_iff_of_renamed links
    (intentFacts_of_prepare links.readSeq_eq prepared) decided stored pointer).mp reopened
  have tooMany : ¬ (fullCall.cursor.activeDescriptor.recordCount + fullCall.intent.appliedCount ≤
      fullCall.limits.generation.maxFramesPerSegment) := by decide
  exact tooMany fits.segment_frames

end ProofRay.Engine
