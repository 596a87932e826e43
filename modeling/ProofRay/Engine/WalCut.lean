/- A log file cut anywhere behind its header is the file of the same writer at an earlier
   moment, with a torn tail. -/

import ProofRay.Engine.Primitives
import ProofRay.Engine.Replay
import ProofRay.Engine.WalScan
import ProofRay.Engine.WalWriter

namespace ProofRay.Engine

open Lib.Guard
open Lib.Struct (Field pack Exact)
open ScanState (between)
open WalWriter (append createNew sealSegment)
open ReducerState (applyFrame applyOne feedLegacyLoop)

section

variable {c : Crypto} {key : Bytes} {scopeId segmentId : Int}

variable {w : WalWriter} {fs : List Frame} {tail : Bytes} {firstSeq keyId : Int} {digest : Bytes}
  {seq : Int}

variable {calls : List AppendCall} {header : WalHeaderInfo} {required : Bool} {lastSeq : Int}
  {body : Bytes} {f : Frame}

theorem scanLoop_scans (declaredSeal : Option SegmentSeal)
    (run : Scans c key scopeId segmentId seq body fs) (before tail : Bytes) (frames : List Frame)
    (fuel : Nat) :
    scanLoop c key scopeId segmentId declaredSeal (before ++ (body ++ tail)) (fs.length + fuel)
        (.between frames seq before.length) =
      scanLoop c key scopeId segmentId declaredSeal (before ++ (body ++ tail)) fuel
        (.between (frames ++ fs) (seq + fs.length) (before ++ body).length) := by
  induction run generalizing before frames with
  | nil seq => simp
  | @cons seq frame rest f fs declared accepted _ ih =>
    have long := (frameLength_bounds declared).1
    unfold minFrame at long
    have inside : before.length < (before ++ (frame ++ rest ++ tail)).length := by
      simp only [List.length_append]
      omega
    have found := scanHead_frame declaredSeal before (rest ++ tail) (seq - 1) declared accepted
    rw [← List.append_assoc frame rest tail] at found
    have next : ScanState.next (.between frames seq before.length) f frame.length =
        .between (frames ++ [f]) (seq + 1) (before ++ frame).length := by
      simp only [ScanState.next, between, scanFrame_seq accepted, List.length_append]
      congr 1
      omega
    have step : scanLoop c key scopeId segmentId declaredSeal (before ++ (frame ++ rest ++ tail))
        ((f :: fs).length + fuel) (.between frames seq before.length) =
        scanLoop c key scopeId segmentId declaredSeal (before ++ (frame ++ rest ++ tail))
          (fs.length + fuel) (.between (frames ++ [f]) (seq + 1) (before ++ frame).length) := by
      rw [show (f :: fs).length + fuel = (fs.length + fuel) + 1 by simp only [List.length_cons]; omega,
        scanLoop]
      simp only [between, inside, if_true, found]
      exact congrArg _ next
    have deeper := ih (before ++ frame) (frames ++ [f])
    simp only [List.append_assoc] at deeper step ⊢
    rw [step, deeper]
    have count : seq + 1 + (fs.length : Int) = seq + ((f :: fs).length : Int) := by
      simp only [List.length_cons, Nat.cast_add, Nat.cast_one]
      omega
    rw [count]
    rfl

/-- What can stand at the end of a cut file: nothing, or a proper part of a frame or of a
footer. -/
inductive Torn : Bytes → Prop where
  | none : Torn []
  | frame {whole : Bytes} (declared : frameLength whole = some whole.length) {n : Nat}
      (inside : n < whole.length) : Torn (whole.take n)
  | footer {whole : Bytes} (magic : whole.take 5 = sealMagic)
      (size : whole.length = sealFooterBytes) {n : Nat} (inside : n < sealFooterBytes) :
      Torn (whole.take n)

theorem scanHead_torn (torn : Torn tail) (nonempty : tail ≠ []) (before : Bytes)
    (seq lastSeq : Int) :
    scanHead c key scopeId segmentId none (before ++ tail) before.length seq lastSeq =
      .tail tail.length := by
  have rest : (before ++ tail).drop before.length = tail := List.drop_left' rfl
  cases torn with
  | none => exact absurd rfl nonempty
  | @frame whole declared n inside =>
    have size : (whole.take n).length = n := by
      rw [List.length_take]
      omega
    have noSeal : ¬ (5 ≤ (whole.take n).length ∧ (whole.take n).take 5 = sealMagic) := by
      rintro ⟨five, magic⟩
      rw [List.take_take, Nat.min_eq_left (size ▸ five)] at magic
      exact take_ne_sealMagic declared magic
    simp only [scanHead, rest, noSeal, if_false]
    by_cases short : (whole.take n).length < 8
    · rw [if_pos short]
    · rw [if_neg short]
      have visible : frameLength (whole.take n) = some whole.length := by
        rw [← frameLength_append_right (by omega) (whole.drop n), List.take_append_drop]
        exact declared
      have less : (whole.take n).length < whole.length := by omega
      simp only [visible, less, if_true]
  | @footer whole magic size n inside =>
    have len : (whole.take n).length = n := by
      rw [List.length_take]
      omega
    simp only [scanHead, rest]
    by_cases five : 5 ≤ n
    · have probe : 5 ≤ (whole.take n).length ∧ (whole.take n).take 5 = sealMagic := by
        refine ⟨by rw [len]; exact five, ?_⟩
        rw [List.take_take, Nat.min_eq_left five]
        exact magic
      have short : (whole.take n).length < sealFooterBytes := by omega
      simp only [probe, and_self, if_true, scanSeal, rest, short]
    · have noSeal : ¬ (5 ≤ (whole.take n).length ∧ (whole.take n).take 5 = sealMagic) :=
        fun h => five (len ▸ h.1)
      have short : (whole.take n).length < 8 := by omega
      simp only [noSeal, if_false, short, if_true]

theorem Scans.length_le (run : Scans c key scopeId segmentId seq body fs) :
    fs.length ≤ body.length := by
  induction run with
  | nil => simp
  | cons declared _ _ ih =>
    have long := (frameLength_bounds declared).1
    unfold minFrame at long
    simp only [List.length_cons, List.length_append]
    omega

theorem scan_torn {head body tail : Bytes} (size : head.length = segHeaderSize + tagBytes)
    (authentic : scanHeader c key scopeId segmentId head = .ok header)
    (run : Scans c key scopeId segmentId header.firstSeq body fs) (torn : Torn tail) :
    scan c key required scopeId segmentId none (some (head ++ (body ++ tail))) =
      ⟨if tail = [] then .clean else .tailDropped, fs, header.firstSeq + fs.length - 1,
        (head ++ body).length, tail.length, false, some header⟩ := by
  have authentic' : scanHeader c key scopeId segmentId (head ++ (body ++ tail)) = .ok header := by
    rw [scanHeader_append (by omega), authentic]
  have few := run.length_le
  obtain ⟨fuel, enough⟩ : ∃ fuel, (head ++ (body ++ tail)).length = fs.length + (fuel + 1) := by
    refine ⟨(head ++ (body ++ tail)).length - fs.length - 1, ?_⟩
    simp only [List.length_append, size, segHeaderSize, tagBytes]
    omega
  have loop : scanLoop c key scopeId segmentId none (head ++ (body ++ tail))
      (head ++ (body ++ tail)).length
      ⟨[], header.firstSeq - 1, header.firstSeq, segHeaderSize + tagBytes⟩ =
      .ok (.between fs (header.firstSeq + fs.length) (head ++ body).length, tail.length, false) := by
    have consumed := scanLoop_scans none run head tail [] (fuel + 1)
    rw [← enough, size, List.nil_append] at consumed
    refine consumed.trans ?_
    rw [scanLoop]
    by_cases empty : tail = []
    · subst empty
      simp [between]
    · have nonempty : 0 < tail.length := List.length_pos_iff.mpr empty
      have inside : (head ++ body).length < (head ++ (body ++ tail)).length := by
        simp only [List.length_append]
        omega
      have found : scanHead c key scopeId segmentId none (head ++ (body ++ tail))
          (head ++ body).length (header.firstSeq + fs.length) (header.firstSeq + fs.length - 1) =
          .tail tail.length := by
        rw [← List.append_assoc]
        exact scanHead_torn torn empty (head ++ body) _ _
      simp only [between, inside, if_true, found]
  simp only [scan, authentic', loop, scanFinish, between]
  by_cases empty : tail = []
  · subst empty
    simp
  · have nonempty : 0 < tail.length := List.length_pos_iff.mpr empty
    have inside : (head ++ body).length < (head ++ (body ++ tail)).length := by
      simp only [List.length_append]
      omega
    simp only [inside, if_true, empty, if_false, Bool.false_eq_true]

def digest16 (digest : Bytes) : Bytes := (digest ++ zeros 16).take 16

theorem digest16_length (digest : Bytes) : (digest16 digest).length = 16 := by
  simp [digest16]

theorem digest16_self (exact : digest.length = 16) : digest16 digest = digest := by
  unfold digest16
  rw [← exact]
  exact List.take_left' rfl

private theorem encodeSegmentHeader_digest16 (c : Crypto) (key : Bytes)
    (scopeId segmentId firstSeq keyId segmentState : Int) (digest : Bytes) :
    encodeSegmentHeader c key scopeId segmentId firstSeq keyId segmentState (digest16 digest) =
      encodeSegmentHeader c key scopeId segmentId firstSeq keyId segmentState digest := by
  have same : Field.pack (.bytes 16) (digest16 digest) = Field.pack (.bytes 16) digest := by
    show some (digest16 (digest16 digest)) = some (digest16 digest)
    rw [digest16_self (digest16_length digest)]
  simp only [encodeSegmentHeader, structPack, pack, same]

theorem scanHeader_encodeSegmentHeader {digest header : Bytes}
    (h : encodeSegmentHeader c key scopeId segmentId firstSeq keyId stateActive digest =
      .ok header) :
    header.length = segHeaderSize + tagBytes ∧
      scanHeader c key scopeId segmentId header =
        .ok ⟨scopeId, segmentId, firstSeq, keyId, digest16 digest, walFormatVersion⟩ := by
  rw [← encodeSegmentHeader_digest16] at h
  simp only [encodeSegmentHeader, bind_eq_ok, pure_eq_ok] at h
  obtain ⟨fields, packed, rfl⟩ := h
  have size : fields.length = segHeaderSize := length_of_structPack packed
  have exact : Exact segHeaderFormat
      (walMagic, walFormatVersion, scopeId, segmentId, firstSeq, keyId, (maxPayload : Int),
        maxRecords, stateActive, digest16 digest, ()) :=
    ⟨rfl, digest16_length digest, trivial⟩
  have read := unpack_structPack packed exact []
  rw [List.append_nil] at read
  have length : (fields ++ c.tag key (ascii "WALSEGMENT" ++ fields)).length =
      segHeaderSize + tagBytes := by
    rw [List.length_append, size, c.length_tag]
  refine ⟨length, ?_⟩
  have front : (fields ++ c.tag key (ascii "WALSEGMENT" ++ fields)).take segHeaderSize = fields :=
    List.take_left' size
  have back : ((fields ++ c.tag key (ascii "WALSEGMENT" ++ fields)).drop segHeaderSize).take
      tagBytes = c.tag key (ascii "WALSEGMENT" ++ fields) := by
    rw [List.drop_left' size]
    exact List.take_of_length_le (le_of_eq (c.length_tag key _))
  simp only [scanHeader, front, back, read, SegHeader.ofRecord, length]
  rfl

/-- The file holds what the writer knows: its header, then frames that replay to its indexes
and end before its next sequence. -/
structure Faithful (c : Crypto) (w : WalWriter) : Prop where
  notSealed : w.isSealed = false
  recorded : ∃ head body fs, w.file = head ++ body ∧
    head.length = segHeaderSize + tagBytes ∧
    scanHeader c w.key w.scopeId w.segmentId head =
      .ok ⟨w.scopeId, w.segmentId, w.firstSeq, w.keyId, digest16 w.previousSegmentDigest,
        walFormatVersion⟩ ∧
    Scans c w.key w.scopeId w.segmentId w.firstSeq body fs ∧
    replayFrames c emptyBaseView (WalIndex.init, TxIdIndex.init) fs = some (w.index, w.txindex) ∧
    w.nextSeq = w.firstSeq + fs.length ∧ 0 ≤ w.firstSeq

theorem faithful_createNew (h : createNew c key scopeId segmentId firstSeq keyId digest = .ok w) :
    Faithful c w := by
  simp only [createNew, bind_eq_ok, pure_eq_ok] at h
  obtain ⟨header, encoded, rfl⟩ := h
  obtain ⟨size, authentic⟩ := scanHeader_encodeSegmentHeader encoded
  have nonneg : 0 ≤ firstSeq := by
    rw [← encodeSegmentHeader_digest16] at encoded
    simp only [encodeSegmentHeader, bind_eq_ok] at encoded
    obtain ⟨fields, packed, -⟩ := encoded
    have fits := fits_of_structPack packed ⟨rfl, digest16_length digest, trivial⟩
    exact fits.2.2.2.2.1.1
  refine ⟨rfl, header, [], [], by simp, size, authentic, .nil _, rfl, by simp, nonneg⟩

theorem createNew_identity (h : createNew c key scopeId segmentId firstSeq keyId digest = .ok w) :
    w.key = key ∧ w.scopeId = scopeId ∧ w.segmentId = segmentId ∧
      w.file.length = segHeaderSize + tagBytes := by
  simp only [createNew, bind_eq_ok, pure_eq_ok] at h
  obtain ⟨header, encoded, rfl⟩ := h
  exact ⟨rfl, rfl, rfl, (scanHeader_encodeSegmentHeader encoded).1⟩

/-- An append leaves the writer alone, or adds one complete frame that the reducer takes from
the indexes before to the indexes after. -/
theorem append_cases {w w' : WalWriter} {call : AppendCall} {r : AppendResult}
    (h : w.append c call = .ok (w', r)) :
    w' = w ∨ ∃ f bytes, encodeOf c w.key w.scopeId w.segmentId f = .ok bytes ∧
      f.seq = w.nextSeq ∧
      commandIsCanonical f.op f.factId f.factVersion f.value f.operationId ∧
      applyFrame c emptyBaseView (w.index, w.txindex) f = .ok (.ok (w'.index, w'.txindex)) ∧
      w' = { w with file := w.file ++ bytes, index := w'.index, txindex := w'.txindex
                    nextSeq := w.nextSeq + 1 } := by
  unfold append at h
  split at h
  · cases h
    exact .inl rfl
  · rename_i op _
    split at h
    · cases h
      exact .inl rfl
    · rename_i canonical
      split at h
      · cases h
      · simp only [bind_eq_ok] at h
        obtain ⟨digest, digested, h⟩ := h
        cases verdict : w.appendVerdict op call digest with
        | some answer =>
          rw [verdict] at h
          cases h
          exact .inl rfl
        | none =>
          rw [verdict] at h
          simp only [bind_eq_ok, pure_eq_ok, Prod.mk.injEq] at h
          obtain ⟨payload, packed, frame, encoded, rfl, -⟩ := h
          right
          refine ⟨⟨op, w.nextSeq, call.operationId, call.factId, call.factVersion, call.value⟩,
            frame, ?_, rfl, not_not.mp canonical, ?_, rfl⟩
          · simp only [encodeOf, packed, ok_bind]
            exact encoded
          · simp only [WalWriter.appendVerdict] at verdict
            cases known : w.txindex.check call.operationId digest with
            | dedupReplay => rw [known] at verdict; cases verdict
            | txidConflict => rw [known] at verdict; cases verdict
            | new =>
              rw [known] at verdict
              have accepted : preflight (w.index.get call.factId) op call.factVersion
                  call.value = .applied := by
                cases decision : preflight (w.index.get call.factId) op call.factVersion
                  call.value <;> simp_all
              have current : currentVersion w.index emptyBaseView call.factId =
                  some (w.index.get call.factId) := by
                unfold currentVersion
                cases w.index.get call.factId <;> rfl
              simp only [applyFrame, digested, ok_bind, ReducerState.applyDigested,
                known, current, accepted]
              rfl

private theorem canonicalFrame_of (seq : 0 ≤ f.seq ∧ f.seq < maxSeq)
    (canonical : commandIsCanonical f.op f.factId f.factVersion f.value f.operationId) :
    CanonicalFrame f := by
  simp only [commandIsCanonical, decide_eq_true_eq] at canonical
  obtain ⟨-, version, factNonneg, factBelow, put, delete⟩ := canonical
  refine ⟨?_, version, seq.1, seq.2, factNonneg, factBelow⟩
  constructor
  · intro isPut
    have inRange := put isPut
    cases value : f.value with
    | none => rw [value] at inRange; cases inRange
    | some v => rfl
  · intro isSome
    cases word : f.op with
    | put => rfl
    | delete => rw [delete word] at isSome; cases isSome

private theorem frameLength_of_scans {bytes : Bytes}
    (run : Scans c key scopeId segmentId seq bytes [f]) :
    frameLength bytes = some bytes.length := by
  generalize single : [f] = fs at run
  cases run with
  | nil => cases single
  | cons declared _ tail =>
    cases single
    cases tail with
    | nil => rwa [List.append_nil]

/-- A writer that went on from another: the same segment, more bytes, later sequences. -/
structure GrewFrom (w w' : WalWriter) : Prop where
  key : w'.key = w.key
  scopeId : w'.scopeId = w.scopeId
  segmentId : w'.segmentId = w.segmentId
  file : ∃ more, w'.file = w.file ++ more
  nextSeq : w.nextSeq ≤ w'.nextSeq

theorem GrewFrom.refl (w : WalWriter) : GrewFrom w w :=
  ⟨rfl, rfl, rfl, ⟨[], (List.append_nil _).symm⟩, le_refl _⟩

theorem GrewFrom.trans {w₁ w₂ w₃ : WalWriter} (first : GrewFrom w₁ w₂) (second : GrewFrom w₂ w₃) :
    GrewFrom w₁ w₃ := by
  obtain ⟨more₁, file₁⟩ := first.file
  obtain ⟨more₂, file₂⟩ := second.file
  exact ⟨second.key.trans first.key, second.scopeId.trans first.scopeId,
    second.segmentId.trans first.segmentId,
    ⟨more₁ ++ more₂, by rw [file₂, file₁, List.append_assoc]⟩, first.nextSeq.trans second.nextSeq⟩

theorem GrewFrom.length_le {w w' : WalWriter} (grew : GrewFrom w w') :
    w.file.length ≤ w'.file.length := by
  obtain ⟨more, file⟩ := grew.file
  rw [file, List.length_append]
  omega

theorem grewFrom_after (c : Crypto) (w : WalWriter) (call : AppendCall) :
    GrewFrom w (w.after c call) := by
  unfold WalWriter.after
  split
  · rename_i w' r h
    rcases append_cases h with rfl | ⟨f, bytes, -, -, -, -, next⟩
    · exact .refl _
    · rw [next]
      exact ⟨rfl, rfl, rfl, ⟨bytes, rfl⟩, by dsimp only; omega⟩
  · exact .refl w

theorem grewFrom_appendAll (c : Crypto) (w : WalWriter) (calls : List AppendCall) :
    GrewFrom w (w.appendAll c calls) := by
  induction calls generalizing w with
  | nil => exact .refl w
  | cons call calls ih => exact (grewFrom_after c w call).trans (ih (w.after c call))

theorem faithful_after (faithful : Faithful c w) (call : AppendCall)
    (bounded : (w.after c call).nextSeq ≤ maxSeq) :
    Faithful c (w.after c call) ∧
      ((w.after c call).file = w.file ∨
        ∃ frame, frameLength frame = some frame.length ∧
          (w.after c call).file = w.file ++ frame) := by
  cases h : w.append c call with
  | error e =>
    have same : w.after c call = w := by simp only [WalWriter.after, h]
    rw [same]
    exact ⟨faithful, .inl rfl⟩
  | ok out =>
    obtain ⟨w', r⟩ := out
    have same : w.after c call = w' := by simp only [WalWriter.after, h]
    rw [same] at bounded ⊢
    rcases append_cases h with rfl | ⟨f, bytes, encoded, seq, canonical, applied, next⟩
    · exact ⟨faithful, .inl rfl⟩
    · obtain ⟨head, body, fs, file, size, authentic, run, replay, count, nonneg⟩ :=
        faithful.recorded
      have nextSeq : w'.nextSeq = w.nextSeq + 1 := by rw [next]
      have inRange : 0 ≤ f.seq ∧ f.seq < maxSeq := by
        rw [seq]
        omega
      have added := Scans.encoded (canonicalFrame_of inRange canonical) encoded
      have declared := frameLength_of_scans added
      have file' : w'.file = w.file ++ bytes := by rw [next]
      refine ⟨?_, .inr ⟨bytes, declared, file'⟩⟩
      rw [seq, count] at added
      have more := run.append added
      have replayed : replayFrames c emptyBaseView (WalIndex.init, TxIdIndex.init) (fs ++ [f]) =
          some (w'.index, w'.txindex) := by
        rw [replayFrames_append, replay]
        simp only [Option.bind_some, replayFrames, applied]
      refine ⟨by rw [next]; exact faithful.notSealed, head, body ++ bytes, fs ++ [f], ?_, size, ?_,
        ?_, replayed, ?_, ?_⟩
      · rw [file', file, List.append_assoc]
      · rw [next]
        exact authentic
      · rw [next]
        exact more
      · rw [next]
        simp only [List.length_append, List.length_singleton, count]
        push_cast
        omega
      · rw [next]
        exact nonneg

theorem faithful_appendAll (faithful : Faithful c w) (calls : List AppendCall)
    (bounded : (w.appendAll c calls).nextSeq ≤ maxSeq) : Faithful c (w.appendAll c calls) := by
  induction calls generalizing w with
  | nil => exact faithful
  | cons call calls ih =>
    have grew := grewFrom_appendAll c (w.after c call) calls
    have within : (w.after c call).nextSeq ≤ maxSeq := grew.nextSeq.trans bounded
    exact ih (faithful_after faithful call within).1 bounded

theorem appendAll_append (c : Crypto) (w : WalWriter) (front back : List AppendCall) :
    w.appendAll c (front ++ back) = (w.appendAll c front).appendAll c back := by
  induction front generalizing w with
  | nil => rfl
  | cons call front ih => exact ih (w.after c call)

private theorem feedLegacyLoop_of_replay {b b' : Builders} {s : ReducerState}
    (builders : s.builders = some b) (replay : replayFrames c s.base b fs = some b') :
    ∃ last, feedLegacyLoop c none fs s =
      .ok ({ s with builders := some b', applied := s.applied + fs.length, lastApplied := last },
        none) := by
  induction fs generalizing b s with
  | nil =>
    cases replay
    refine ⟨s.lastApplied, ?_⟩
    simp only [feedLegacyLoop, ← builders]
    rfl
  | cons f fs ih =>
    simp only [replayFrames] at replay
    split at replay
    · rename_i b₁ applied
      let next : ReducerState :=
        { s with builders := some b₁, applied := s.applied + 1, lastApplied := f.seq }
      have step : applyOne c s f = .ok (next, none) := by
        simp only [applyOne, builders, applied, ok_bind]
        rfl
      obtain ⟨last, rest⟩ := ih (s := next) rfl replay
      refine ⟨last, ?_⟩
      simp only [feedLegacyLoop, Option.any_none, Bool.false_eq_true, if_false, step,
        ok_bind, rest, List.length_cons, next]
      rw [Nat.add_assoc, Nat.add_comm 1]
    · cases replay

theorem reduceFrames_of_replay {base : BaseView} (initialSeq : Int) {b : Builders}
    (replay : replayFrames c base (WalIndex.init, TxIdIndex.init) fs = some b) :
    ∃ last, reduceFrames c fs none base initialSeq = .ok ⟨.ok, b.1, b.2, fs.length, last⟩ := by
  let s₀ : ReducerState :=
    { ReducerState.start base initialSeq (1 <<< 62) unboundedReducerLimits with legacy := true }
  obtain ⟨last, fed⟩ := feedLegacyLoop_of_replay (s := s₀) rfl replay
  refine ⟨last, ?_⟩
  have fresh : s₀.applied + fs.length = fs.length := Nat.zero_add _
  rw [fresh] at fed
  show (feedLegacyLoop c none fs s₀ >>= _) >>= _ = _
  rw [fed]
  rfl

/-- What recovery answers when it accepts a file: the indexes, under one of the two good
classes. -/
structure Recovers (r : RecoveryResult) (w : WalWriter) : Prop where
  classification : r.classification = .scanned .clean ∨ r.classification = .scanned .tailDropped
  index : r.index = w.index
  txindex : r.txindex = w.txindex

/-- The writer that resumption builds from a file: the digest of the previous segment is read
back from the sixteen bytes of the header. -/
def WalWriter.reread (w : WalWriter) : WalWriter :=
  { w with previousSegmentDigest := digest16 w.previousSegmentDigest }

private theorem recover_of_scan {blob : Bytes} {required : Bool} {w : WalWriter} {fs : List Frame}
    {class' : ScanClass} {lastSeq : Int} {consumed dropped : Nat} {isSealed : Bool}
    {header : Option WalHeaderInfo}
    (scanned : scan c key required scopeId segmentId none (some blob) =
      ⟨class', fs, lastSeq, consumed, dropped, isSealed, header⟩)
    (good : class' = .clean ∨ class' = .tailDropped)
    (replay : replayFrames c emptyBaseView (WalIndex.init, TxIdIndex.init) fs =
      some (w.index, w.txindex)) :
    ∃ r, recover c (some blob) key required scopeId segmentId none none = .ok r ∧ Recovers r w := by
  obtain ⟨last, reduced⟩ := reduceFrames_of_replay 0 replay
  have accepted : ¬ (class' ≠ .clean ∧ class' ≠ .tailDropped) := by
    rintro ⟨notClean, notTorn⟩
    exact good.elim notClean notTorn
  refine ⟨⟨.scanned class', w.index, w.txindex, fs.length, last, dropped⟩, ?_, ?_, rfl, rfl⟩
  · simp only [recover, scanned, if_neg accepted, reduced, ok_bind]
    rfl
  · rcases good with rfl | rfl
    · exact .inl rfl
    · exact .inr rfl

private theorem scan_faithful (faithful : Faithful c w) (torn : Torn tail) (required : Bool) :
    ∃ fs, scan c w.key required w.scopeId w.segmentId none (some (w.file ++ tail)) =
        ⟨if tail = [] then .clean else .tailDropped, fs, w.nextSeq - 1, w.file.length, tail.length,
          false, some ⟨w.scopeId, w.segmentId, w.firstSeq, w.keyId,
            digest16 w.previousSegmentDigest, walFormatVersion⟩⟩ ∧
      replayFrames c emptyBaseView (WalIndex.init, TxIdIndex.init) fs =
        some (w.index, w.txindex) := by
  obtain ⟨head, body, fs, file, size, authentic, run, replay, count, -⟩ := faithful.recorded
  refine ⟨fs, ?_, replay⟩
  rw [file, List.append_assoc, scan_torn size authentic run torn, count]

theorem recover_torn (faithful : Faithful c w) (torn : Torn tail) (required : Bool) :
    ∃ r, recover c (some (w.file ++ tail)) w.key required w.scopeId w.segmentId none none = .ok r ∧
      Recovers r w := by
  obtain ⟨fs, scanned, replay⟩ := scan_faithful faithful torn required
  refine recover_of_scan scanned ?_ replay
  split
  · exact .inl rfl
  · exact .inr rfl

theorem resumeExisting_torn (faithful : Faithful c w) (torn : Torn tail) :
    resumeExisting c (w.file ++ tail) w.key w.scopeId w.segmentId none none = .ok w.reread := by
  obtain ⟨fs, scanned, replay⟩ := scan_faithful faithful torn true
  obtain ⟨last, reduced⟩ := reduceFrames_of_replay 0 replay
  have good : (if tail = [] then ScanClass.clean else .tailDropped) = .clean ∨
      (if tail = [] then ScanClass.clean else .tailDropped) = .tailDropped := by
    split
    · exact .inl rfl
    · exact .inr rfl
  have kept : (if (if tail = [] then ScanClass.clean else .tailDropped) = .tailDropped then
      (w.file ++ tail).take w.file.length else w.file ++ tail) = w.file := by
    by_cases empty : tail = []
    · simp [empty]
    · simp [empty]
  simp only [resumeExisting, scanned, require_of good, reduced, orThrow_some, ok_bind, kept]
  simp [require, WalWriter.reread, faithful.notSealed, pure, Except.pure]

theorem scanHead_sealFooter {lastSeq : Int} {before footer : Bytes} (seq : Int)
    (h : sealFooter c key scopeId segmentId lastSeq before.length
      ((c.sha256 before).take 16) = .ok footer) :
    footer.take 5 = sealMagic ∧ footer.length = sealFooterBytes ∧
      scanHead c key scopeId segmentId none (before ++ footer) before.length seq lastSeq =
        .footer := by
  simp only [sealFooter, bind_eq_ok, pure_eq_ok] at h
  obtain ⟨fields, packed, ids, packedIds, rfl⟩ := h
  have size : fields.length = sealSize := length_of_structPack packed
  have digestLength : ((c.sha256 before).take 16).length = 16 := by
    rw [List.length_take, c.sha256_length]
    rfl
  have read := unpack_structPack packed ⟨rfl, digestLength, trivial⟩ []
  rw [List.append_nil] at read
  have magic : fields.take 5 = sealMagic := congrArg Prod.fst read
  set tag := c.tag key (ascii "WALSEAL" ++ ids ++ fields) with tagEq
  have tagLength : tag.length = tagBytes := c.length_tag key _
  have magic' : (fields ++ tag).take 5 = sealMagic := by
    rw [List.take_append_of_le_length (by rw [size]; decide), magic]
  have length : (fields ++ tag).length = sealFooterBytes := by
    rw [List.length_append, size, tagLength]
    rfl
  refine ⟨magic', length, ?_⟩
  have rest : (before ++ (fields ++ tag)).drop before.length = fields ++ tag := List.drop_left' rfl
  have front : (fields ++ tag).take sealSize = fields := List.take_left' size
  have back : ((fields ++ tag).drop sealSize).take tagBytes = tag := by
    rw [List.drop_left' size]
    exact List.take_of_length_le (le_of_eq tagLength)
  have covered : (before ++ (fields ++ tag)).take before.length = before := List.take_left' rfl
  have probe : 5 ≤ (fields ++ tag).length ∧ (fields ++ tag).take 5 = sealMagic :=
    ⟨by rw [length]; decide, magic'⟩
  have whole : ¬ (fields ++ tag).length < sealFooterBytes := by omega
  unfold scanHead
  simp only [rest]
  rw [if_pos probe]
  unfold scanSeal
  simp only [rest]
  rw [if_neg whole]
  simp only [front, back, packedIds, read, SealFields.ofRecord, covered, length, ← tagEq]
  simp

theorem scan_sealFooter {head body footer : Bytes} {header : WalHeaderInfo} {fs : List Frame}
    (size : head.length = segHeaderSize + tagBytes)
    (authentic : scanHeader c key scopeId segmentId head = .ok header)
    (run : Scans c key scopeId segmentId header.firstSeq body fs)
    (sealed : sealFooter c key scopeId segmentId (header.firstSeq + fs.length - 1)
      (head ++ body).length ((c.sha256 (head ++ body)).take 16) = .ok footer) (required : Bool) :
    scan c key required scopeId segmentId none (some (head ++ body ++ footer)) =
      ⟨.clean, fs, header.firstSeq + fs.length - 1, (head ++ body ++ footer).length, 0, true,
        some header⟩ := by
  obtain ⟨-, length, found⟩ := scanHead_sealFooter (header.firstSeq + fs.length) sealed
  have few := run.length_le
  rw [List.append_assoc] at found ⊢
  obtain ⟨fuel, enough⟩ : ∃ fuel, (head ++ (body ++ footer)).length = fs.length + (fuel + 1) := by
    refine ⟨(head ++ (body ++ footer)).length - fs.length - 1, ?_⟩
    simp only [List.length_append, size, segHeaderSize, tagBytes]
    omega
  have inside : (head ++ body).length < (head ++ (body ++ footer)).length := by
    simp only [List.length_append, length, sealFooterBytes, sealSize, tagBytes]
    omega
  have authentic' := (scanHeader_append (by omega) (body ++ footer)).trans authentic
  have consumed := scanLoop_scans none run head footer [] (fuel + 1)
  rw [← enough, size, List.nil_append] at consumed
  have last : scanLoop c key scopeId segmentId none (head ++ (body ++ footer)) (fuel + 1)
      (.between fs (header.firstSeq + fs.length) (head ++ body).length) =
      .ok (⟨fs, header.firstSeq + fs.length - 1, header.firstSeq + fs.length,
        (head ++ (body ++ footer)).length⟩, 0, true) := by
    rw [scanLoop]
    simp only [between, inside, if_true, found]
  have loop := consumed.trans last
  simp only [between] at loop
  simp only [scan, authentic', loop, scanFinish, if_true]

private theorem scan_sealed {w w' : WalWriter} (faithful : Faithful c w)
    (h : w.sealSegment c = .ok w') (required : Bool) :
    ∃ fs header, scan c w.key required w.scopeId w.segmentId none (some w'.file) =
        ⟨.clean, fs, w.nextSeq - 1, w'.file.length, 0, true, some header⟩ ∧
      replayFrames c emptyBaseView (WalIndex.init, TxIdIndex.init) fs =
        some (w.index, w.txindex) := by
  obtain ⟨head, body, fs, file, size, authentic, run, replay, count, -⟩ := faithful.recorded
  simp only [sealSegment, bind_eq_ok, pure_eq_ok] at h
  obtain ⟨footer, sealed, rfl⟩ := h
  rw [count, file] at sealed
  have scanned := scan_sealFooter size authentic run sealed required
  rw [← count, ← file] at scanned
  exact ⟨fs, _, scanned, replay⟩

theorem recover_sealed {w w' : WalWriter} (faithful : Faithful c w)
    (h : w.sealSegment c = .ok w') (required : Bool) :
    ∃ r, recover c (some w'.file) w.key required w.scopeId w.segmentId none none = .ok r ∧
      Recovers r w := by
  obtain ⟨fs, header, scanned, replay⟩ := scan_sealed faithful h required
  exact recover_of_scan scanned (.inl rfl) replay

theorem resumeExisting_sealed {w w' : WalWriter} (faithful : Faithful c w)
    (h : w.sealSegment c = .ok w') :
    resumeExisting c w'.file w.key w.scopeId w.segmentId none none =
      .error (.walError "segmento SEALED não pode ser retomado") := by
  obtain ⟨fs, header, scanned, -⟩ := scan_sealed faithful h true
  simp only [resumeExisting, scanned]
  rfl

/-- The last moment of a run at which the file had at most `n` bytes. -/
def LastWithin (c : Crypto) (w : WalWriter) (calls : List AppendCall) (n k : Nat) : Prop :=
  k ≤ calls.length ∧ (w.appendAll c (calls.take k)).file.length ≤ n ∧
    ∀ j ≤ calls.length, (w.appendAll c (calls.take j)).file.length ≤ n → j ≤ k

theorem exists_lastWithin (c : Crypto) (calls : List AppendCall) {n : Nat} (low : w.file.length ≤ n)
    : ∃ k, LastWithin c w calls n k := by
  let fits (j : Nat) : Prop := (w.appendAll c (calls.take j)).file.length ≤ n
  have initially : fits 0 := low
  refine ⟨Nat.findGreatest fits calls.length, Nat.findGreatest_le _,
    Nat.findGreatest_spec (Nat.zero_le _) initially, ?_⟩
  intro j inside within
  exact Nat.le_findGreatest inside within

private theorem appendAll_take_succ (c : Crypto) (w : WalWriter) {k : Nat}
    (inside : k < calls.length) :
    w.appendAll c (calls.take (k + 1)) = (w.appendAll c (calls.take k)).after c calls[k] := by
  rw [List.take_add_one, List.getElem?_eq_getElem inside, Option.toList_some, appendAll_append]
  rfl

theorem cut_eq {w : WalWriter} (faithful : Faithful c w) {calls : List AppendCall}
    (bounded : (w.appendAll c calls).nextSeq ≤ maxSeq) {file : Bytes} {n k : Nat}
    (last : LastWithin c w calls n k)
    (written : file = (w.appendAll c calls).file ∨ ∃ w', (w.appendAll c calls).sealSegment c =
      .ok w' ∧ file = w'.file ∧ n < file.length) (within : n ≤ file.length) :
    ∃ tail, Torn tail ∧ file.take n = (w.appendAll c (calls.take k)).file ++ tail := by
  obtain ⟨inside, low, latest⟩ := last
  set moment := w.appendAll c (calls.take k) with momentEq
  have rest : w.appendAll c calls = moment.appendAll c (calls.drop k) := by
    rw [momentEq, ← appendAll_append, List.take_append_drop]
  by_cases more : k < calls.length
  · -- the call after the moment wrote a frame that the cut does not hold
    have next := appendAll_take_succ c w more
    have beyond : n < (moment.after c calls[k]).file.length := by
      by_contra fits
      have later := latest (k + 1) more (by rw [next]; exact not_lt.mp fits)
      omega
    have onward : w.appendAll c calls =
        (moment.after c calls[k]).appendAll c (calls.drop (k + 1)) := by
      rw [← next, ← appendAll_append, List.take_append_drop]
    have grew := grewFrom_appendAll c (moment.after c calls[k]) (calls.drop (k + 1))
    rw [← onward] at grew
    obtain ⟨suffix, extended⟩ : ∃ suffix, file = (moment.after c calls[k]).file ++ suffix := by
      obtain ⟨suffix, extended⟩ := grew.file
      rcases written with rfl | ⟨w', sealed, rfl, -⟩
      · exact ⟨suffix, extended⟩
      · simp only [sealSegment, bind_eq_ok, pure_eq_ok] at sealed
        obtain ⟨footer, -, rfl⟩ := sealed
        exact ⟨suffix ++ footer, by rw [← List.append_assoc, ← extended]⟩
    have boundedNow : moment.nextSeq ≤ maxSeq := by
      have onwards := grewFrom_appendAll c moment (calls.drop k)
      rw [← rest] at onwards
      exact onwards.nextSeq.trans bounded
    have faithfulNow : Faithful c moment := faithful_appendAll faithful (calls.take k) boundedNow
    rcases (faithful_after faithfulNow calls[k] (grew.nextSeq.trans bounded)).2 with
      same | ⟨frame, declared, file'⟩
    · rw [same] at beyond
      omega
    · rw [file', List.length_append] at beyond
      refine ⟨frame.take (n - moment.file.length), .frame declared (by omega), ?_⟩
      rw [extended, file', List.append_assoc, List.take_append, List.take_of_length_le low,
        List.take_append_of_le_length (by omega)]
  · -- the cut lies behind the last frame
    have all : k = calls.length := by omega
    have final : moment = w.appendAll c calls := by rw [momentEq, all, List.take_length]
    rw [final] at low ⊢
    rcases written with rfl | ⟨w', sealed, rfl, short⟩
    · have whole : n = (w.appendAll c calls).file.length := by omega
      exact ⟨[], .none, by rw [whole, List.take_length, List.append_nil]⟩
    · simp only [sealSegment, bind_eq_ok, pure_eq_ok] at sealed
      obtain ⟨footer, sealed, rfl⟩ := sealed
      obtain ⟨magic, size, -⟩ := scanHead_sealFooter (w.appendAll c calls).nextSeq sealed
      simp only [List.length_append, size] at short
      refine ⟨footer.take (n - (w.appendAll c calls).file.length), .footer magic size (by omega), ?_⟩
      rw [List.take_append, List.take_of_length_le low]

/-- A log file cut anywhere behind its header: recovery answers with the indexes after the
calls whose frames lie inside the cut (all of them when nothing is cut off), and resumption
continues from that moment.  Only a complete sealed file is not resumed. -/
theorem recover_cut {firstSeq keyId : Int} {digest : Bytes} {w : WalWriter}
    (created : createNew c key scopeId segmentId firstSeq keyId digest = .ok w)
    (calls : List AppendCall) (bounded : (w.appendAll c calls).nextSeq ≤ maxSeq) {file : Bytes}
    (written : file = (w.appendAll c calls).file ∨
      ∃ w', (w.appendAll c calls).sealSegment c = .ok w' ∧ file = w'.file)
    (required : Bool) {n : Nat} (low : segHeaderSize + tagBytes ≤ n) (within : n ≤ file.length) :
    ∃ k, LastWithin c w calls n k ∧ (n = file.length → k = calls.length) ∧
      (∃ r, recover c (some (file.take n)) key required scopeId segmentId none none = .ok r ∧
        Recovers r (w.appendAll c (calls.take k))) ∧
      resumeExisting c (file.take n) key scopeId segmentId none none =
        if n = file.length ∧ file ≠ (w.appendAll c calls).file then
          .error (.walError "segmento SEALED não pode ser retomado")
        else .ok (w.appendAll c (calls.take k)).reread := by
  have faithful := faithful_createNew created
  obtain ⟨keyEq, scopeEq, segmentEq, size⟩ := createNew_identity created
  obtain ⟨k, last⟩ := exists_lastWithin c calls (w := w) (n := n) (by omega)
  have uncut : n = file.length → k = calls.length := by
    intro whole
    have grown : (w.appendAll c calls).file.length ≤ n := by
      rcases written with rfl | ⟨w', sealed, rfl⟩
      · exact whole.ge
      · simp only [sealSegment, bind_eq_ok, pure_eq_ok] at sealed
        obtain ⟨footer, -, rfl⟩ := sealed
        rw [whole, List.length_append]
        omega
    have reached := last.2.2 calls.length (le_refl _) (by rwa [List.take_length])
    exact le_antisymm last.1 reached
  refine ⟨k, last, uncut, ?_⟩
  have grew := grewFrom_appendAll c w (calls.take k)
  have later := grewFrom_appendAll c (w.appendAll c (calls.take k)) (calls.drop k)
  rw [← appendAll_append, List.take_append_drop] at later
  have moment := faithful_appendAll faithful (calls.take k) (later.nextSeq.trans bounded)
  by_cases complete : n = file.length ∧ file ≠ (w.appendAll c calls).file
  · rw [if_pos complete]
    obtain ⟨whole, notOpen⟩ := complete
    obtain ⟨w', sealed, rfl⟩ : ∃ w', (w.appendAll c calls).sealSegment c = .ok w' ∧
        file = w'.file := written.resolve_left notOpen
    have end' := faithful_appendAll faithful calls bounded
    have identity := grewFrom_appendAll c w calls
    have recovered := recover_sealed end' sealed required
    have refused := resumeExisting_sealed end' sealed
    rw [identity.key, identity.scopeId, identity.segmentId, keyEq, scopeEq, segmentEq]
      at recovered refused
    rw [whole, List.take_length, uncut whole, List.take_length]
    exact ⟨recovered, refused⟩
  · rw [if_neg complete]
    have written' : file = (w.appendAll c calls).file ∨ ∃ w', (w.appendAll c calls).sealSegment c =
        .ok w' ∧ file = w'.file ∧ n < file.length := by
      by_cases isOpen : file = (w.appendAll c calls).file
      · exact .inl isOpen
      · obtain ⟨w', sealed, same⟩ := written.resolve_left isOpen
        refine .inr ⟨w', sealed, same, lt_of_le_of_ne within ?_⟩
        intro whole
        exact complete ⟨whole, isOpen⟩
    obtain ⟨tail, torn, cut⟩ := cut_eq faithful bounded last written' within
    have recovered := recover_torn moment torn required
    have resumed := resumeExisting_torn moment torn
    rw [grew.key, grew.scopeId, grew.segmentId, keyEq, scopeEq, segmentEq] at recovered resumed
    rw [cut]
    exact ⟨recovered, resumed⟩

end

theorem createNew_first : ∃ w, createNew stdCrypto [] 1 1 1 0 (zeros 16) = .ok w ∧
    w.nextSeq = 1 := by
  obtain ⟨fields, packed⟩ := structPack_of_fits segHeaderFormat
    (walMagic, walFormatVersion, 1, 1, 1, 0, (maxPayload : Int), maxRecords, stateActive,
      zeros 16, ()) (by decide)
  unfold createNew encodeSegmentHeader
  rw [packed]
  exact ⟨_, rfl, rfl⟩

theorem nextSeq_after_le (c : Crypto) (w : WalWriter) (call : AppendCall) :
    (w.after c call).nextSeq ≤ w.nextSeq + 1 := by
  unfold WalWriter.after
  split
  · rename_i w' r h
    rcases append_cases h with rfl | ⟨f, bytes, -, -, -, -, next⟩
    · omega
    · rw [next]
  · omega

/-- A put on the first segment, and the file after it uncut. -/
theorem recover_cut_firstPut : ∃ w call,
    createNew stdCrypto [] 1 1 1 0 (zeros 16) = .ok w ∧
    (∃ r, recover stdCrypto (some (w.after stdCrypto call).file) [] true 1 1 none none = .ok r ∧
      Recovers r (w.after stdCrypto call)) ∧
    resumeExisting stdCrypto (w.after stdCrypto call).file [] 1 1 none none =
      .ok (w.after stdCrypto call).reread := by
  obtain ⟨w, created, first⟩ := createNew_first
  let call : AppendCall := ⟨.known .put, 5, 1, some 9, zeros 16⟩
  have bounded : (w.appendAll stdCrypto [call]).nextSeq ≤ maxSeq := by
    have step := nextSeq_after_le stdCrypto w call
    rw [first] at step
    exact step.trans (by decide)
  have long : segHeaderSize + tagBytes ≤ (w.appendAll stdCrypto [call]).file.length := by
    obtain ⟨head, body, -, file, size, -⟩ := (faithful_createNew created).recorded
    have grew := (grewFrom_appendAll stdCrypto w [call]).length_le
    rw [file, List.length_append, size] at grew
    omega
  obtain ⟨k, -, uncut, recovered, resumed⟩ :=
    recover_cut created [call] bounded (.inl rfl) true long (le_refl _)
  obtain rfl : k = 1 := uncut rfl
  rw [List.take_length] at recovered resumed
  rw [if_neg fun complete => complete.2 rfl] at resumed
  exact ⟨w, call, created, recovered, resumed⟩

theorem sealSegment_ok (c : Crypto) {w : WalWriter}
    (seq : 0 ≤ w.nextSeq - 1 ∧ w.nextSeq - 1 < 18446744073709551616)
    (size : (w.file.length : Int) < 18446744073709551616)
    (scope : 0 ≤ w.scopeId ∧ w.scopeId < 4294967296)
    (segment : 0 ≤ w.segmentId ∧ w.segmentId < 4294967296) : ∃ w', w.sealSegment c = .ok w' := by
  have digestLength : ((c.sha256 w.file).take 16).length = 16 := by
    rw [List.length_take, c.sha256_length]
    rfl
  have seqFits : 0 ≤ w.nextSeq - 1 ∧ w.nextSeq - 1 < 256 ^ 8 := by omega
  have sizeFits : 0 ≤ (w.file.length : Int) ∧ (w.file.length : Int) < 256 ^ 8 := by omega
  have scopeFits : 0 ≤ w.scopeId ∧ w.scopeId < 256 ^ 4 := by omega
  have segmentFits : 0 ≤ w.segmentId ∧ w.segmentId < 256 ^ 4 := by omega
  obtain ⟨fields, packed⟩ := structPack_of_fits sealFormat
    (sealMagic, w.nextSeq - 1, (w.file.length : Int), (c.sha256 w.file).take 16, ())
    ⟨rfl, seqFits, sizeFits, digestLength, trivial⟩
  obtain ⟨ids, packedIds⟩ := structPack_of_fits [.u32, .u32] (w.scopeId, w.segmentId, ())
    ⟨scopeFits, segmentFits, trivial⟩
  simp only [sealSegment, sealFooter, packed, packedIds, ok_bind]
  exact ⟨_, rfl⟩

/-- A sealed segment is complete and recovers, yet it is not resumed. -/
theorem resumeExisting_sealed_first : ∃ w w',
    createNew stdCrypto [] 1 1 1 0 (zeros 16) = .ok w ∧
    w.sealSegment stdCrypto = .ok w' ∧
    resumeExisting stdCrypto w'.file [] 1 1 none none =
      .error (.walError "segmento SEALED não pode ser retomado") := by
  obtain ⟨w, created, first⟩ := createNew_first
  have faithful := faithful_createNew created
  obtain ⟨keyEq, scopeEq, segmentEq, size⟩ : w.key = [] ∧ w.scopeId = 1 ∧ w.segmentId = 1 ∧
      w.file.length = segHeaderSize + tagBytes := createNew_identity created
  obtain ⟨w', sealed⟩ := sealSegment_ok stdCrypto (w := w) (by omega)
    (by rw [size]; decide) (by omega) (by omega)
  have refused := resumeExisting_sealed faithful sealed
  rw [keyEq, scopeEq, segmentEq] at refused
  exact ⟨w, w', created, sealed, refused⟩

end ProofRay.Engine
