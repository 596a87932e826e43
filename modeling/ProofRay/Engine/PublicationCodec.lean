/- What the publication layer writes is what it reads: records, the `CURRENT` pointer
   and manifests. -/

import ProofRay.Engine.Publication

namespace ProofRay.Engine

open Lib.Guard
open Lib.Struct (Field Record unpack unpackMany Exact)

variable {c : Crypto} {keyring : Keyring}

variable {ptr : CurrentPointer} {a b : Bytes} {keyId : Int} {n : Nat}

private theorem take_front (len : a.length = n) : (a ++ b).take n = a := by
  rw [← len, List.take_left']
  rfl

private theorem drop_front (len : a.length = n) : (a ++ b).drop n = b := by
  rw [← len, List.drop_left']
  rfl

variable {man : EpochManifest} {key blob : Bytes} {r : PublicationRecord}

theorem parsePublicationRecord_serialize (known : keyring.get r.keyId = some key)
    (written : r.serialize c key = .ok blob) (manifestLength : r.manifestSha256.length = 32)
    (previousLength : r.previousPublicationSha256.length = 32) (named : r.manifestSha256 ≠ zeros 32)
    (first : r.revision = 0 ↔ r.previousPublicationSha256 = zeros 32) (seq : readSeqOk r.readSeq) :
    parsePublicationRecord c keyring (some blob) = .ok r := by
  simp only [PublicationRecord.serialize, bind_eq_ok, pure_eq_ok] at written
  obtain ⟨body, packed, rfl⟩ := written
  have len : body.length = prSize := length_of_structPack packed
  have unpacked : unpack prFormat (body ++ PublicationRecord.mac c key body) = r.toRecord :=
    unpack_structPack packed ⟨rfl, manifestLength, previousLength, trivial⟩ _
  have long : (body ++ PublicationRecord.mac c key body).length = prSize + tagBytes := by
    simp [PublicationRecord.mac, len]
  simp only [parsePublicationRecord, orThrow_some, ok_bind, unpacked, PublicationRecord.toRecord,
    take_front len, drop_front len]
  simp only [bind_eq_ok, orThrow_eq_ok, require_eq_ok, pure_eq_ok]
  exact ⟨(), long, (), trivial, (), trivial, key, known, (), rfl, (), named, (), first, (), seq,
    trivial⟩

theorem eq_of_parsePublicationRecord_serialize {r r' : PublicationRecord}
    (written : r.serialize c key = .ok blob) (manifestLength : r.manifestSha256.length = 32)
    (previousLength : r.previousPublicationSha256.length = 32)
    (parsed : parsePublicationRecord c keyring (some blob) = .ok r') : r' = r := by
  simp only [PublicationRecord.serialize, bind_eq_ok, pure_eq_ok] at written
  obtain ⟨body, packed, rfl⟩ := written
  have unpacked : unpack prFormat (body ++ PublicationRecord.mac c key body) = r.toRecord :=
    unpack_structPack packed ⟨rfl, manifestLength, previousLength, trivial⟩ _
  simp only [parsePublicationRecord, orThrow_some, ok_bind, unpacked,
    PublicationRecord.toRecord] at parsed
  simp only [bind_eq_ok, orThrow_eq_ok, require_eq_ok, pure_eq_ok] at parsed
  obtain ⟨-, -, -, -, -, -, key', -, -, -, -, -, -, -, -, -, same⟩ := parsed
  exact same.symm

theorem first_of_parsePublicationRecord {blob : Bytes}
    (h : parsePublicationRecord c keyring (some blob) = .ok r) :
    0 ≤ r.revision ∧ (r.revision = 0 ↔ r.previousPublicationSha256 = zeros 32) ∧
      blob.length = prSize + tagBytes := by
  simp only [parsePublicationRecord, orThrow_some, ok_bind] at h
  simp only [bind_eq_ok, orThrow_eq_ok, require_eq_ok, pure_eq_ok] at h
  obtain ⟨-, long, -, -, -, -, key, -, -, -, -, -, -, first, -, -, rfl⟩ := h
  have room : Lib.Struct.size prFormat ≤ blob.length := by
    rw [long]
    decide
  have fits := Lib.Struct.fits_unpack room (by decide)
  exact ⟨fits.2.2.2.2.1.1, first, long⟩

theorem length_serializeRecord (written : r.serialize c key = .ok blob) :
    blob.length = prSize + tagBytes := by
  simp only [PublicationRecord.serialize, bind_eq_ok, pure_eq_ok] at written
  obtain ⟨body, packed, rfl⟩ := written
  have len : body.length = prSize := length_of_structPack packed
  simp [PublicationRecord.mac, len]

theorem parseCurrent_serializeCurrent {publicationSha256 key blob : Bytes}
    (known : keyring.get keyId = some key)
    (written : serializeCurrent c publicationSha256 keyId key = .ok blob) :
    parseCurrent c keyring blob = .ok ⟨publicationSha256, keyId⟩ := by
  simp only [serializeCurrent, bind_eq_ok, require_eq_ok, pure_eq_ok] at written
  obtain ⟨-, shaLength, body, packed, rfl⟩ := written
  have len : body.length = curSize := length_of_structPack packed
  have unpacked : unpack curFormat (body ++ currentMac c key body) =
      (curMagic, curVersion, publicationSha256, keyId, ()) :=
    unpack_structPack packed ⟨rfl, shaLength, trivial⟩ _
  have long : (body ++ currentMac c key body).length = currentLen := by
    simp [currentMac, currentLen, len]
  simp only [parseCurrent, unpacked, take_front len, drop_front len]
  simp only [bind_eq_ok, orThrow_eq_ok, require_eq_ok, pure_eq_ok]
  exact ⟨(), long, (), trivial, (), trivial, key, known, (), rfl, trivial⟩

theorem length_of_parseCurrent {blob : Bytes} (h : parseCurrent c keyring blob = .ok ptr) :
    blob.length = currentLen := by
  simp only [parseCurrent, bind_eq_ok, require_eq_ok] at h
  obtain ⟨-, len, -⟩ := h
  exact len

theorem length_publicationSha256_of_parseCurrent {blob : Bytes}
    (h : parseCurrent c keyring blob = .ok ptr) : ptr.publicationSha256.length = 32 := by
  simp only [parseCurrent, bind_eq_ok, orThrow_eq_ok, require_eq_ok, pure_eq_ok] at h
  obtain ⟨-, len, -, -, -, -, -, -, -, -, rfl⟩ := h
  have room : Lib.Struct.size curFormat ≤ blob.length := by
    rw [len]
    decide
  exact (Lib.Struct.fits_unpack room (by decide)).2.2.1

theorem length_serializeCurrent {publicationSha256 key blob : Bytes}
    (written : serializeCurrent c publicationSha256 keyId key = .ok blob) :
    blob.length = currentLen := by
  simp only [serializeCurrent, bind_eq_ok, require_eq_ok, pure_eq_ok] at written
  obtain ⟨-, -, body, packed, rfl⟩ := written
  have len : body.length = curSize := length_of_structPack packed
  simp [currentMac, currentLen, len]

/-- What the format and the parser require of a manifest. -/
structure EpochManifest.WellFormed (man : EpochManifest) : Prop where
  base_seq : readSeqOk man.baseSeq
  read_seq : readSeqOk man.readSeq
  parent_ge : ¬ man.parentGenerationId < -1
  parent_lt : 0 ≤ man.parentGenerationId → man.parentGenerationId < man.generationId
  genesis_digest : ¬ (man.parentGenerationId < 0 ∧ man.parentManifestDigest ≠ zeros 32)
  parent_digest : ¬ (0 ≤ man.parentGenerationId ∧ man.parentManifestDigest = zeros 32)
  digest_length : man.parentManifestDigest.length = 32
  desc_exact : ∀ kind, (man.baseDescriptors kind).sha256.length = 32
  seg_exact : ∀ s ∈ man.segments, s.durablePrefixSha256.length = 32 ∧
    s.sealedObjectSha256.length = 32 ∧ s.prevSegmentDigest.length = 16
  seg_count : (man.segments.length : Int) ≤ maxManifestSegments

theorem ofDescriptorRecord_descriptorRecord (kind : ArtifactKind) (d : ArtifactDescriptor) :
    ofDescriptorRecord (descriptorRecord kind d) = (kind.code, d) := by
  obtain ⟨fmt, required, blen, sha, kid⟩ := d
  cases required <;> rfl

theorem ofSegmentRecord_segmentRecord (s : WalSegmentDescriptor) :
    ofSegmentRecord (segmentRecord s) = s := rfl

theorem parseDescriptors_canonical (d : ArtifactKind → ArtifactDescriptor) :
    parseDescriptors (baseKinds.map fun kind => (kind.code, d kind)) [] =
      .ok (baseKinds.map fun kind => (kind, d kind)) := by
  rfl

theorem descriptorOf_canonical (d : ArtifactKind → ArtifactDescriptor) :
    descriptorOf (baseKinds.map fun kind => (kind, d kind)) = d := by
  funext kind
  cases kind <;> rfl

private theorem fits_of_packMany {fs : List Field} {vs : List (Record fs)} {b : Bytes}
    (packed : structPackMany fs vs = .ok b) (exact : ∀ v ∈ vs, Exact fs v) :
    ∀ v ∈ vs, Lib.Struct.Fits fs v := by
  induction vs generalizing b with
  | nil => simp
  | cons v vs ih =>
    rw [structPackMany_eq_ok] at packed
    obtain ⟨x, y, hx, hy, -⟩ := Lib.Struct.packMany_cons_eq_some.mp packed
    have tail := ih (structPackMany_eq_ok.mpr hy) fun w member => exact w (by simp [member])
    intro w member
    rcases List.mem_cons.mp member with rfl | later
    · exact Lib.Struct.fits_of_pack hx (exact w (by simp))
    · exact tail w later

/-- Where the parts of a manifest stand in its bytes. -/
structure ManifestLayout (c : Crypto) (key : Bytes) (man : EpochManifest) (blob : Bytes) :
    Prop where
  header : unpack manHeaderFormat blob = man.headerRecord
  parent : unpack manParentDigestFormat (blob.drop manHeaderSize) = (man.parentManifestDigest, ())
  descs : unpackMany manDescFormat baseKinds.length
      (blob.drop (manHeaderSize + manParentDigestSize)) =
    baseKinds.map fun kind => descriptorRecord kind (man.baseDescriptors kind)
  segs : unpackMany manSegFormat man.segments.length
      (blob.drop (manHeaderSize + manParentDigestSize + baseKinds.length * manDescSize)) =
    man.segments.map segmentRecord
  length : blob.length = manifestLength man.segments.length
  mac : EpochManifest.mac c key (blob.take (blob.length - tagBytes)) =
    blob.drop (blob.length - tagBytes)

theorem layout_of_serialize (wf : man.WellFormed) (written : man.serialize c key = .ok blob) :
    ManifestLayout c key man blob := by
  simp only [EpochManifest.serialize, EpochManifest.body, bind_eq_ok, pure_eq_ok] at written
  obtain ⟨body, ⟨header, packedHeader, parent, packedParent, descs, packedDescs, segs, packedSegs,
    rfl⟩, rfl⟩ := written
  have headerLen : header.length = manHeaderSize := length_of_structPack packedHeader
  have parentLen : parent.length = manParentDigestSize := length_of_structPack packedParent
  have descsLen : descs.length = baseKinds.length * manDescSize := by
    have := length_of_structPackMany packedDescs
    rwa [List.length_map] at this
  have segsLen : segs.length = man.segments.length * manSegSize := by
    have := length_of_structPackMany packedSegs
    rwa [List.length_map] at this
  generalize hmac : EpochManifest.mac c key (header ++ (parent ++ (descs ++ segs))) = mac
  have macLen : mac.length = tagBytes := by
    rw [← hmac]
    exact c.length_tag key _
  have whole : header ++ (parent ++ (descs ++ segs)) ++ mac =
      header ++ (parent ++ (descs ++ (segs ++ mac))) := by
    simp only [List.append_assoc]
  have atParent : (header ++ (parent ++ (descs ++ (segs ++ mac)))).drop manHeaderSize =
      parent ++ (descs ++ (segs ++ mac)) := drop_front headerLen
  have atDescs : (header ++ (parent ++ (descs ++ (segs ++ mac)))).drop
      (manHeaderSize + manParentDigestSize) = descs ++ (segs ++ mac) := by
    rw [← List.drop_drop, atParent, drop_front parentLen]
  have atSegs : (header ++ (parent ++ (descs ++ (segs ++ mac)))).drop
      (manHeaderSize + manParentDigestSize + baseKinds.length * manDescSize) = segs ++ mac := by
    rw [← List.drop_drop, atDescs, drop_front descsLen]
  have bodyLen : (header ++ (parent ++ (descs ++ segs))).length + tagBytes =
      manifestLength man.segments.length := by
    simp only [List.length_append, headerLen, parentLen, descsLen, segsLen, manifestLength]
    omega
  have long : (header ++ (parent ++ (descs ++ (segs ++ mac)))).length =
      manifestLength man.segments.length := by
    rw [← whole, List.length_append, macLen, bodyLen]
  have cut : (header ++ (parent ++ (descs ++ (segs ++ mac)))).length - tagBytes =
      (header ++ (parent ++ (descs ++ segs))).length := by
    rw [long, ← bodyLen, Nat.add_sub_cancel]
  rw [whole]
  refine ⟨unpack_structPack packedHeader ⟨rfl, trivial⟩ _, ?_, ?_, ?_, long, ?_⟩
  · rw [atParent]
    exact unpack_structPack packedParent ⟨wf.digest_length, trivial⟩ _
  · have exact : ∀ v ∈ baseKinds.map fun kind => descriptorRecord kind (man.baseDescriptors kind),
        Exact manDescFormat v := by
      intro v member
      obtain ⟨kind, -, rfl⟩ := List.mem_map.mp member
      exact ⟨wf.desc_exact kind, trivial⟩
    rw [atDescs]
    simpa using unpackMany_structPackMany packedDescs (fits_of_packMany packedDescs exact)
      (segs ++ mac)
  · have exact : ∀ v ∈ man.segments.map segmentRecord, Exact manSegFormat v := by
      intro v member
      obtain ⟨s, inList, rfl⟩ := List.mem_map.mp member
      obtain ⟨durable, sealed, prev⟩ := wf.seg_exact s inList
      exact ⟨durable, sealed, prev, trivial⟩
    rw [atSegs]
    simpa using unpackMany_structPackMany packedSegs (fits_of_packMany packedSegs exact) mac
  · rw [cut, ← whole, take_front rfl, drop_front rfl]
    exact hmac

theorem parseManifest_serialize (wf : man.WellFormed) (known : keyring.get man.keyId = some key)
    (written : man.serialize c key = .ok blob) : parseManifest c keyring (some blob) = .ok man := by
  have layout := layout_of_serialize wf written
  have enough : manHeaderSize + manParentDigestSize + tagBytes ≤ blob.length := by
    rw [layout.length, manifestLength]
    omega
  have parsedDescs : (baseKinds.map fun kind =>
      descriptorRecord kind (man.baseDescriptors kind)).map ofDescriptorRecord =
      baseKinds.map fun kind => (kind.code, man.baseDescriptors kind) := by
    simp only [List.map_map, Function.comp_def, ofDescriptorRecord_descriptorRecord]
  have parsedSegs : (man.segments.map segmentRecord).map ofSegmentRecord = man.segments := by
    simp only [List.map_map, Function.comp_def, ofSegmentRecord_segmentRecord, List.map_id']
  simp only [parseManifest, parseBody, orThrow_some, ok_bind, layout.header,
    EpochManifest.headerRecord, ManHeader.ofRecord, Int.toNat_natCast, layout.parent, layout.descs,
    layout.segs, parsedDescs, parseDescriptors_canonical, descriptorOf_canonical, parsedSegs]
  simp only [bind_eq_ok, orThrow_eq_ok, require_eq_ok, pure_eq_ok]
  exact ⟨(), enough, (), trivial, (), trivial, (), trivial, (), wf.seg_count, (), layout.length, key,
    known, (), layout.mac, (), ⟨wf.base_seq, wf.read_seq⟩, (), wf.parent_ge, (), wf.parent_lt, (),
    wf.genesis_digest, (), wf.parent_digest, (), by simp [baseKinds], trivial⟩

private theorem parseDescriptors_subset {input : List (Int × ArtifactDescriptor)}
    {seen result : List (ArtifactKind × ArtifactDescriptor)}
    (h : parseDescriptors input seen = .ok result) :
    ∀ e ∈ result, e ∈ seen ∨ e.2 ∈ input.map Prod.snd := by
  induction input generalizing seen with
  | nil =>
    cases h
    exact fun e member => .inl member
  | cons head input ih =>
    obtain ⟨k, d⟩ := head
    simp only [parseDescriptors, bind_eq_ok, orThrow_eq_ok, require_eq_ok] at h
    obtain ⟨kind, -, -, -, rest⟩ := h
    intro e member
    rcases ih rest e member with old | later
    · rcases List.mem_append.mp old with before | new
      · exact .inl before
      · rw [List.mem_singleton] at new
        subst new
        exact .inr (by simp)
    · exact .inr (List.mem_cons_of_mem _ later)

private theorem descriptorOf_mem {seen : List (ArtifactKind × ArtifactDescriptor)}
    {kind : ArtifactKind} (known : kind ∈ seen.map Prod.fst) :
    ∃ e ∈ seen, e.2 = descriptorOf seen kind := by
  induction seen with
  | nil => cases known
  | cons head seen ih =>
    obtain ⟨k, d⟩ := head
    by_cases same : kind = k
    · subst same
      exact ⟨(kind, d), by simp, by rw [descriptorOf, List.lookup_cons_self]; rfl⟩
    · have later : kind ∈ seen.map Prod.fst := by simpa [same] using known
      obtain ⟨e, inSeen, value⟩ := ih later
      refine ⟨e, List.mem_cons_of_mem _ inSeen, ?_⟩
      have miss : (kind == k) = false := by simpa using same
      rw [value, descriptorOf, descriptorOf, List.lookup_cons, miss]

private theorem manDescFormat_pos : ∀ f ∈ manDescFormat, 0 < f.width := by decide

private theorem manSegFormat_pos : ∀ f ∈ manSegFormat, 0 < f.width := by decide

theorem wellFormed_of_parseManifest {blob : Bytes}
    (h : parseManifest c keyring (some blob) = .ok man) :
    man.WellFormed ∧ blob.length = manifestLength man.segments.length ∧
      ∃ key, keyring.get man.keyId = some key := by
  simp only [parseManifest, parseBody, orThrow_some, ok_bind] at h
  simp only [bind_eq_ok, orThrow_eq_ok, require_eq_ok, pure_eq_ok] at h
  generalize ManHeader.ofRecord (unpack manHeaderFormat blob) = header at h
  obtain ⟨-, enough, -, -, -, -, -, -, -, count, -, long, key, known, -, -, -, seqs, -, parentGe, -,
    parentLt, -, genesis, -, parent, descs, parsed, -, complete, rfl⟩ := h
  have segCount : ((unpackMany manSegFormat header.nSeg.toNat (blob.drop (manHeaderSize +
      manParentDigestSize + baseKinds.length * manDescSize))).map ofSegmentRecord).length =
      header.nSeg.toNat := by
    rw [List.length_map, Lib.Struct.length_unpackMany]
  have sizes : blob.length = manHeaderSize + manParentDigestSize + baseKinds.length * manDescSize +
      header.nSeg.toNat * manSegSize + tagBytes := long
  refine ⟨⟨seqs.1, seqs.2, parentGe, parentLt, genesis, parent, ?_, ?_, ?_, ?_⟩, ?_, key, known⟩
  · have room : Lib.Struct.size manParentDigestFormat ≤
        (blob.drop manHeaderSize).length := by
      rw [List.length_drop, sizes]
      show manParentDigestSize ≤ _
      omega
    exact (Lib.Struct.fits_unpack room (by decide)).1
  · intro kind
    obtain ⟨e, inDescs, value⟩ := descriptorOf_mem (complete kind (mem_baseKinds kind))
    simp only
    rw [← value]
    rcases parseDescriptors_subset parsed e inDescs with old | input
    · cases old
    · rw [List.map_map] at input
      obtain ⟨r, inInput, same⟩ := List.mem_map.mp input
      have fits := Lib.Struct.fits_of_mem_unpackMany manDescFormat_pos (by
        rw [List.length_drop, sizes]
        show baseKinds.length * manDescSize ≤ _
        omega) inInput
      rw [← same]
      exact fits.2.2.2.2.1
  · intro s inSegs
    obtain ⟨r, inInput, same⟩ := List.mem_map.mp inSegs
    have fits := Lib.Struct.fits_of_mem_unpackMany manSegFormat_pos (by
      rw [List.length_drop, sizes]
      show header.nSeg.toNat * manSegSize ≤ _
      omega) inInput
    rw [← same]
    exact ⟨fits.2.2.2.2.2.2.1, fits.2.2.2.2.2.2.2.2.1, fits.2.2.2.2.2.2.2.2.2.1⟩
  · rw [segCount]
    simp only [maxManifestSegments] at count ⊢
    omega
  · rw [segCount]
    exact long

/-- Every link that `open_published_cursor` has checked. -/
structure Opened (c : Crypto) (keyring : Keyring) (disk : PublicationDisk)
    (storeScope : Option Int) (limits : PublicationLimits) (cursor : PublishedCursor)
    (ptr : CurrentPointer) (record : PublicationRecord) : Prop where
  pointer : readCurrent c keyring disk limits.maxCurrentBytes = .ok ptr
  record_ok : openPublicationRecord c keyring disk.objects ptr.publicationSha256
    limits.maxRecordBytes = .ok record
  same_key : ptr.keyId = record.keyId
  manifest_ok : disk.objects.getLimited record.manifestSha256 limits.artifact.maxBlobBytes =
    .ok cursor.manifestBlob
  manifest_digest : c.sha256 cursor.manifestBlob = record.manifestSha256
  parsed : parseManifest c keyring (some cursor.manifestBlob) = .ok cursor.manifest
  coherent : record.scopeId = cursor.manifest.scopeId ∧
    record.generationId = cursor.manifest.generationId ∧ record.readSeq = cursor.manifest.readSeq
  scope : ∀ scope ∈ storeScope, scope = cursor.manifest.scopeId
  coverage : checkCoverage cursor.manifest = none
  resources : generationPreflight cursor.manifest cursor.manifestBlob.length limits.generation =
    none
  active : activeSegment cursor.manifest = some cursor.activeDescriptor
  proof_eq : cursor.proof = proofFrom record ptr.publicationSha256 cursor.activeDescriptor
  revision_eq : cursor.revision = record.revision
  readSeq_eq : cursor.readSeq = cursor.manifest.readSeq

theorem openPublishedCursor_eq_ok_iff {disk : PublicationDisk} {storeScope : Option Int}
    {limits : PublicationLimits} {cursor : PublishedCursor} :
    openPublishedCursor c keyring disk storeScope limits = .ok cursor ↔
      ∃ ptr record, Opened c keyring disk storeScope limits cursor ptr record := by
  simp only [openPublishedCursor, bind_eq_ok, mapError_eq_ok, require_eq_ok, orThrow_eq_ok,
    pure_eq_ok]
  constructor
  · rintro ⟨ptr, pointer, record, recordOk, -, sameKey, blob, manifestOk, -, digest, man, parsed,
      -, coherent, -, scope, -, coverage, -, resources, active, last, rfl⟩
    exact ⟨ptr, record, pointer, recordOk, sameKey, manifestOk, digest, parsed, coherent, scope,
      coverage, resources, last, rfl, rfl, rfl⟩
  · rintro ⟨ptr, record, opened⟩
    obtain ⟨proof, blob, man, active, revision, readSeq⟩ := cursor
    refine ⟨ptr, opened.pointer, record, opened.record_ok, (), opened.same_key, blob,
      opened.manifest_ok, (), opened.manifest_digest, man, opened.parsed, (), opened.coherent, (),
      opened.scope, (), opened.coverage, (), opened.resources, active, opened.active, ?_⟩
    rw [← opened.proof_eq, ← opened.revision_eq, ← opened.readSeq_eq]

theorem segments_of_activeSegment {active : WalSegmentDescriptor}
    (h : activeSegment man = some active) :
    man.segments = man.segments.dropLast ++ [active] ∧ active.status = stateActive := by
  obtain ⟨last, status⟩ := Option.filter_eq_some_iff.mp h
  exact ⟨(List.dropLast_append_getLast? active last).symm, of_decide_eq_true status⟩

theorem length_of_parseManifest {blob : Bytes} (h : parseManifest c keyring (some blob) = .ok man) :
    blob.length = manifestLength man.segments.length := (wellFormed_of_parseManifest h).2.1

theorem serialize_of_parsePublicationRecord
    (h : parsePublicationRecord c keyring (some blob) = .ok r) :
    (∃ key, keyring.get r.keyId = some key ∧ r.serialize c key = .ok blob) ∧
      r.manifestSha256.length = 32 ∧ r.previousPublicationSha256.length = 32 ∧
      r.manifestSha256 ≠ zeros 32 ∧
      (r.revision = 0 ↔ r.previousPublicationSha256 = zeros 32) ∧ readSeqOk r.readSeq := by
  simp only [parsePublicationRecord, orThrow_some, ok_bind] at h
  simp only [bind_eq_ok, orThrow_eq_ok, require_eq_ok, pure_eq_ok] at h
  obtain ⟨-, long, -, magic, -, version, key, known, -, mac, -, named, -, first, -, seq, rfl⟩ := h
  have room : Lib.Struct.size prFormat ≤ blob.length := by
    rw [long]
    decide
  have fits := Lib.Struct.fits_unpack room (by decide)
  have packed := Lib.Struct.pack_unpack room (by decide)
  refine ⟨⟨key, known, ?_⟩, fits.2.2.2.2.2.2.1, fits.2.2.2.2.2.2.2.1, named, first, seq⟩
  simp only [PublicationRecord.serialize, PublicationRecord.toRecord, bind_eq_ok, pure_eq_ok,
    structPack_eq_ok, ← magic, ← version]
  exact ⟨_, packed, by
    rw [show Lib.Struct.size prFormat = prSize from rfl, mac, List.take_append_drop]⟩

theorem serialize_of_parseCurrent (h : parseCurrent c keyring blob = .ok ptr) :
    ∃ key, keyring.get ptr.keyId = some key ∧
      serializeCurrent c ptr.publicationSha256 ptr.keyId key = .ok blob := by
  have length := length_publicationSha256_of_parseCurrent h
  simp only [parseCurrent, bind_eq_ok, orThrow_eq_ok, require_eq_ok, pure_eq_ok] at h
  obtain ⟨-, long, -, magic, -, version, key, known, -, mac, rfl⟩ := h
  have room : Lib.Struct.size curFormat ≤ blob.length := by
    rw [long]
    decide
  have packed := Lib.Struct.pack_unpack room (by decide)
  refine ⟨key, known, ?_⟩
  simp only [serializeCurrent, bind_eq_ok, require_eq_ok, pure_eq_ok, structPack_eq_ok, ← magic,
    ← version]
  exact ⟨(), length, _, packed, by
    rw [show Lib.Struct.size curFormat = curSize from rfl, mac, List.take_append_drop]⟩

/-- A record and the pointer have one encoding each under a keyring: what is read is what was
written, byte for byte. -/
theorem publication_bytes_canonical (c : Crypto) (keyring : Keyring) (blob : Bytes)
    (r : PublicationRecord) (ptr : CurrentPointer) :
    (parsePublicationRecord c keyring (some blob) = .ok r ↔
      (∃ key, keyring.get r.keyId = some key ∧ r.serialize c key = .ok blob) ∧
        r.manifestSha256.length = 32 ∧ r.previousPublicationSha256.length = 32 ∧
        r.manifestSha256 ≠ zeros 32 ∧
        (r.revision = 0 ↔ r.previousPublicationSha256 = zeros 32) ∧ readSeqOk r.readSeq) ∧
    (parseCurrent c keyring blob = .ok ptr ↔ ∃ key, keyring.get ptr.keyId = some key ∧
      serializeCurrent c ptr.publicationSha256 ptr.keyId key = .ok blob) := by
  refine ⟨⟨serialize_of_parsePublicationRecord, ?_⟩, serialize_of_parseCurrent, ?_⟩
  · rintro ⟨⟨key, known, written⟩, manifest, previous, named, first, seq⟩
    exact parsePublicationRecord_serialize known written manifest previous named first seq
  · rintro ⟨key, known, written⟩
    exact parseCurrent_serializeCurrent known written

end ProofRay.Engine
