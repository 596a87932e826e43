/- One manifest, how many encodings: what is written is read back, and what is read writes back
   to the same bytes exactly when these are as the writer derives them. -/

import ProofRay.Engine.PublicationHistory

namespace ProofRay.Engine

open Lib.Guard
open Lib.Struct (Record unpack unpackMany Fits size)
open ManHeader (ofRecord)

def manifestDescriptors (blob : Bytes) : List (Record manDescFormat) :=
  unpackMany manDescFormat baseKinds.length (blob.drop (manHeaderSize + manParentDigestSize))

/-- The bytes the parser reads and does not compare with what the writer derives: the lineage,
the order of the kinds and the flags. -/
structure CanonicalBytes (blob : Bytes) : Prop where
  lineage : (ofRecord (unpack manHeaderFormat blob)).lineage =
    if (ofRecord (unpack manHeaderFormat blob)).parent < 0 then 0 else 2
  kinds : (manifestDescriptors blob).map Prod.fst = baseKinds.map ArtifactKind.code
  flags : ∀ record ∈ manifestDescriptors blob, record.2.2.1 = 0 ∨ record.2.2.1 = 1

instance (blob : Bytes) : Decidable (CanonicalBytes blob) :=
  decidable_of_iff (_ ∧ _ ∧ _) ⟨fun ⟨h₁, h₂, h₃⟩ => ⟨h₁, h₂, h₃⟩, fun h => ⟨h.lineage, h.kinds, h.flags⟩⟩

/-- The fields of a manifest are in the ranges of their slots. -/
structure EpochManifest.InWidths (man : EpochManifest) : Prop where
  header : Fits manHeaderFormat man.headerRecord
  parent : Fits manParentDigestFormat (man.parentManifestDigest, ())
  descs : ∀ kind, Fits manDescFormat (descriptorRecord kind (man.baseDescriptors kind))
  segs : ∀ s ∈ man.segments, Fits manSegFormat (segmentRecord s)

section

variable {c : Crypto} {keyring : Keyring} {man : EpochManifest} {key blob : Bytes}

theorem serialize_of_inWidths (c : Crypto) (key : Bytes) (widths : man.InWidths) :
    ∃ blob, man.serialize c key = .ok blob := by
  obtain ⟨header, packedHeader⟩ := structPack_of_fits _ _ widths.header
  obtain ⟨parent, packedParent⟩ := structPack_of_fits _ _ widths.parent
  obtain ⟨descs, packedDescs⟩ := structPackMany_of_fits manDescFormat
    (baseKinds.map fun kind => descriptorRecord kind (man.baseDescriptors kind)) (by
      intro v member
      obtain ⟨kind, -, rfl⟩ := List.mem_map.mp member
      exact widths.descs kind)
  obtain ⟨segs, packedSegs⟩ := structPackMany_of_fits manSegFormat
    (man.segments.map segmentRecord) (by
      intro v member
      obtain ⟨s, inSegs, rfl⟩ := List.mem_map.mp member
      exact widths.segs s inSegs)
  simp only [EpochManifest.serialize, EpochManifest.body, packedHeader, packedParent, packedDescs,
    packedSegs, ok_bind]
  exact ⟨_, rfl⟩

theorem serialize_of_layout (layout : ManifestLayout c key man blob) :
    man.serialize c key = .ok blob := by
  have long := layout.length
  simp only [manifestLength] at long
  have headerSize : size manHeaderFormat = manHeaderSize := by decide
  have parentSize : size manParentDigestFormat = manParentDigestSize := by decide
  have descSize : size manDescFormat = manDescSize := by decide
  have segSize : size manSegFormat = manSegSize := by decide
  have header : structPack manHeaderFormat man.headerRecord =
      .ok (blob.take manHeaderSize) := by
    rw [structPack_eq_ok, ← layout.header, ← headerSize]
    apply Lib.Struct.pack_unpack _ (by decide)
    omega
  have parent : structPack manParentDigestFormat (man.parentManifestDigest, ()) =
      .ok ((blob.drop manHeaderSize).take manParentDigestSize) := by
    rw [structPack_eq_ok, ← layout.parent, ← parentSize]
    apply Lib.Struct.pack_unpack _ (by decide)
    rw [List.length_drop, parentSize]
    omega
  have descs : structPackMany manDescFormat
      (baseKinds.map fun kind => descriptorRecord kind (man.baseDescriptors kind)) =
      .ok ((blob.drop (manHeaderSize + manParentDigestSize)).take
        (baseKinds.length * manDescSize)) := by
    rw [structPackMany_eq_ok, ← layout.descs, ← descSize]
    apply Lib.Struct.packMany_unpackMany (by decide)
    rw [List.length_drop, descSize]
    omega
  have segs : structPackMany manSegFormat (man.segments.map segmentRecord) =
      .ok ((blob.drop (manHeaderSize + manParentDigestSize +
        baseKinds.length * manDescSize)).take (man.segments.length * manSegSize)) := by
    rw [structPackMany_eq_ok, ← layout.segs, ← segSize]
    apply Lib.Struct.packMany_unpackMany (by decide)
    rw [List.length_drop, segSize]
    omega
  -- the four parts are the bytes before the tag
  have body : blob.take manHeaderSize ++ ((blob.drop manHeaderSize).take manParentDigestSize ++
      ((blob.drop (manHeaderSize + manParentDigestSize)).take (baseKinds.length * manDescSize) ++
        (blob.drop (manHeaderSize + manParentDigestSize + baseKinds.length * manDescSize)).take
          (man.segments.length * manSegSize))) = blob.take (blob.length - tagBytes) := by
    have cut : blob.length - tagBytes = manHeaderSize + (manParentDigestSize +
        (baseKinds.length * manDescSize + man.segments.length * manSegSize)) := by omega
    rw [cut, List.take_add, List.take_add, List.take_add, List.drop_drop, List.drop_drop,
      Nat.add_assoc]
  simp only [EpochManifest.serialize, EpochManifest.body, header, parent, descs, segs, ok_bind]
  show Except.ok (_ ++ EpochManifest.mac c key _) = _
  rw [body, layout.mac, List.take_append_drop]

theorem descriptorRecord_ofDescriptorRecord {kind : ArtifactKind} {record : Record manDescFormat}
    (code : record.1 = kind.code) (flag : record.2.2.1 = 0 ∨ record.2.2.1 = 1) :
    descriptorRecord kind (ofDescriptorRecord record).2 = record := by
  obtain ⟨k, fmt, req, blen, sha, kid, ⟨⟩⟩ := record
  simp only at code flag
  subst code
  rcases flag with rfl | rfl <;> rfl

theorem records_of_parseDescriptors {records : List (Record manDescFormat)}
    {descs : List (ArtifactKind × ArtifactDescriptor)}
    (kinds : records.map Prod.fst = baseKinds.map ArtifactKind.code)
    (flags : ∀ record ∈ records, record.2.2.1 = 0 ∨ record.2.2.1 = 1)
    (parsed : parseDescriptors (records.map ofDescriptorRecord) [] = .ok descs) :
    records = baseKinds.map fun kind => descriptorRecord kind (descriptorOf descs kind) := by
  have count : records.length = baseKinds.length := by
    have := congrArg List.length kinds
    simpa only [List.length_map] using this
  obtain ⟨r₁, r₂, r₃, r₄, r₅, rfl⟩ : ∃ r₁ r₂ r₃ r₄ r₅, records = [r₁, r₂, r₃, r₄, r₅] := by
    match records, count with
    | [r₁, r₂, r₃, r₄, r₅], _ => exact ⟨r₁, r₂, r₃, r₄, r₅, rfl⟩
  simp only [baseKinds, List.map_cons, List.map_nil, List.cons.injEq, and_true] at kinds
  obtain ⟨k₁, k₂, k₃, k₄, k₅⟩ := kinds
  let held (kind : ArtifactKind) : ArtifactDescriptor :=
    kind.casesOn (ofDescriptorRecord r₁).2 (ofDescriptorRecord r₂).2 (ofDescriptorRecord r₃).2
      (ofDescriptorRecord r₄).2 (ofDescriptorRecord r₅).2
  have fst : ∀ record : Record manDescFormat, (ofDescriptorRecord record).1 = record.1 := by
    rintro ⟨k, fmt, req, blen, sha, kid, ⟨⟩⟩
    rfl
  have read : [r₁, r₂, r₃, r₄, r₅].map ofDescriptorRecord =
      baseKinds.map fun kind => (kind.code, held kind) := by
    simp only [List.map_cons, List.map_nil, baseKinds, held, ← k₁, ← k₂, ← k₃, ← k₄, ← k₅, ← fst]
  rw [read, parseDescriptors_canonical, Except.ok.injEq] at parsed
  rw [← parsed, descriptorOf_canonical]
  simp only [List.mem_cons, List.not_mem_nil, or_false, forall_eq_or_imp, forall_eq] at flags
  obtain ⟨f₁, f₂, f₃, f₄, f₅⟩ := flags
  simp only [baseKinds, List.map_cons, List.map_nil, held,
    descriptorRecord_ofDescriptorRecord k₁ f₁, descriptorRecord_ofDescriptorRecord k₂ f₂,
    descriptorRecord_ofDescriptorRecord k₃ f₃, descriptorRecord_ofDescriptorRecord k₄ f₄,
    descriptorRecord_ofDescriptorRecord k₅ f₅]

theorem segmentRecord_ofSegmentRecord (record : Record manSegFormat) :
    segmentRecord (ofSegmentRecord record) = record := rfl

theorem eq_headerRecord {record : Record manHeaderFormat} {h : ManHeader}
    (isHeader : ofRecord record = h) (magic : h.magic = manifestMagic)
    (version : h.ver = manifestFormatVersion)
    (lineage : h.lineage = if h.parent < 0 then 0 else 2) (bases : h.nBase = baseKinds.length)
    (segments : h.nSeg = man.segments.length) (scope : h.scope = man.scopeId)
    (generation : h.gen = man.generationId) (facts : h.factCount = man.factCount)
    (base : h.baseSeq = man.baseSeq) (read : h.readSeq = man.readSeq)
    (parent : h.parent = man.parentGenerationId) (keyId : h.keyId = man.keyId) :
    record = man.headerRecord := by
  subst isHeader
  obtain ⟨m, v, s, g, f, b, r, p, l, n, k, i, ⟨⟩⟩ := record
  simp only [ofRecord] at magic version lineage bases segments scope generation
  simp only [ofRecord] at facts base read parent keyId
  rw [parent] at lineage
  rw [magic, version, lineage, bases, segments, scope, generation, facts, base, read, parent, keyId]
  rfl

theorem layout_of_parseManifest (parsed : parseManifest c keyring (some blob) = .ok man)
    (known : keyring.get man.keyId = some key) (canonical : CanonicalBytes blob) :
    ManifestLayout c key man blob := by
  have long := length_of_parseManifest parsed
  have lineage := canonical.lineage
  have nonneg : 0 ≤ (ofRecord (unpack manHeaderFormat blob)).nSeg := by
    have room : size manHeaderFormat ≤ blob.length := by
      have headerSize : size manHeaderFormat = manHeaderSize := by decide
      rw [long, headerSize, manifestLength]
      omega
    exact (Lib.Struct.fits_unpack room (by decide)).2.2.2.2.2.2.2.2.2.2.1.1
  simp only [parseManifest, parseBody, orThrow_some, ok_bind] at parsed
  generalize isHeader : ofRecord (unpack manHeaderFormat blob) = h
    at parsed lineage nonneg
  simp only [bind_eq_ok, orThrow_eq_ok, require_eq_ok, pure_eq_ok] at parsed
  obtain ⟨-, enough, -, magic, -, version, -, count, -, limit, -, -, key', known', -, tagged, -, -, -,
    -, -, -, -, -, -, -, descs, read, -, -, rfl⟩ := parsed
  simp only at known long
  rw [known', Option.some.injEq] at known
  subst known
  refine ⟨?_, rfl, ?_, ?_, long, tagged⟩
  · apply eq_headerRecord isHeader magic version lineage count
    · rw [List.length_map, Lib.Struct.length_unpackMany, Int.toNat_of_nonneg nonneg]
    all_goals rfl
  · exact records_of_parseDescriptors canonical.kinds canonical.flags read
  · have back : segmentRecord ∘ ofSegmentRecord = id := funext segmentRecord_ofSegmentRecord
    rw [List.map_map, back, List.map_id, List.length_map, Lib.Struct.length_unpackMany]

theorem serialize_parseManifest_iff (parsed : parseManifest c keyring (some blob) = .ok man)
    (known : keyring.get man.keyId = some key) :
    man.serialize c key = .ok blob ↔ CanonicalBytes blob := by
  constructor
  · intro written
    have layout := layout_of_serialize (wellFormed_of_parseManifest parsed).1 written
    have descs : manifestDescriptors blob = baseKinds.map fun kind =>
        descriptorRecord kind (man.baseDescriptors kind) := layout.descs
    refine ⟨?_, ?_, ?_⟩
    · rw [layout.header]
      rfl
    · rw [descs]
      rfl
    · intro record member
      rw [descs] at member
      obtain ⟨kind, -, rfl⟩ := List.mem_map.mp member
      cases required : (man.baseDescriptors kind).required <;> simp [descriptorRecord, required]
  · intro canonical
    exact serialize_of_layout (layout_of_parseManifest parsed known canonical)

end

/-- Both ways: a well-formed manifest within the widths of its slots is written and read back, and
bytes that are read write back to themselves exactly when they are canonical. -/
theorem manifest_canonical_iff (c : Crypto) (keyring : Keyring) :
    (∀ (man : EpochManifest) (key : Bytes), man.WellFormed → man.InWidths →
      keyring.get man.keyId = some key → ∃ blob, man.serialize c key = .ok blob ∧
        parseManifest c keyring (some blob) = .ok man) ∧
    ∀ (blob : Bytes) (man : EpochManifest) (key : Bytes),
      parseManifest c keyring (some blob) = .ok man → keyring.get man.keyId = some key →
        (man.serialize c key = .ok blob ↔ CanonicalBytes blob) := by
  constructor
  · intro man key wf widths known
    obtain ⟨blob, written⟩ := serialize_of_inWidths c key widths
    exact ⟨blob, written, parseManifest_serialize wf known written⟩
  · intro blob man key parsed known
    exact serialize_parseManifest_iff parsed known

/-- The first manifest through both directions. -/
theorem manifest_canonical_iff_first : ∃ blob,
    parseManifest stdCrypto firstKeyring (some blob) = .ok (firstManifest 7) ∧
      CanonicalBytes blob := by
  have wf : (firstManifest 7).WellFormed :=
    ⟨by decide, by decide, by decide, by decide, by decide, by decide, by decide,
      by intro kind; cases kind <;> decide, by decide, by decide⟩
  have widths : (firstManifest 7).InWidths :=
    ⟨by decide, by decide, by intro kind; cases kind <;> decide, by decide⟩
  have known : firstKeyring.get (firstManifest 7).keyId = some (zeros 32) := rfl
  obtain ⟨both, back⟩ := manifest_canonical_iff stdCrypto firstKeyring
  obtain ⟨blob, written, parsed⟩ := both (firstManifest 7) (zeros 32) wf widths known
  exact ⟨blob, parsed, (back blob (firstManifest 7) (zeros 32) parsed known).mp written⟩

def verifiedManifestBlob : Bytes :=
  match (firstManifest 7).body with
  | .ok body => body.set 38 1 ++ EpochManifest.mac stdCrypto (zeros 32) (body.set 38 1)
  | .error _ => []

private theorem verifiedManifestBlob_parses :
    parseManifest stdCrypto firstKeyring (some verifiedManifestBlob) = .ok (firstManifest 7) := by
  apply eq_ok_of_yields
  decide +kernel

/-- A lineage byte that the writer never writes is read, and lost. -/
theorem parseManifest_forgets_lineage :
    ¬ ∀ (c : Crypto) (keyring : Keyring) (blob : Bytes) (man : EpochManifest) (key : Bytes),
      parseManifest c keyring (some blob) = .ok man → keyring.get man.keyId = some key →
        man.serialize c key = .ok blob := by
  intro always
  have written := always stdCrypto firstKeyring verifiedManifestBlob (firstManifest 7) (zeros 32)
    verifiedManifestBlob_parses rfl
  have canonical := (serialize_parseManifest_iff verifiedManifestBlob_parses rfl).mp written
  exact absurd canonical.lineage (by decide +kernel)

end ProofRay.Engine
