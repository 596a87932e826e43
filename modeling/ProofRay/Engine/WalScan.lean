/- The scanner accepts exactly the authenticated headers followed by complete frames: `scan` on
   unsealed segments, and what it makes of a torn tail. -/

import ProofRay.Engine.WalCodec

namespace ProofRay.Engine

open Lib.Guard

section

variable {c : Crypto} {key : Bytes} {scopeId segmentId : Int}

def ScanState.between (frames : List Frame) (seq : Int) (off : Nat) : ScanState :=
  ⟨frames, seq - 1, seq, off⟩

variable {blob : Bytes} {declaredSeal : Option SegmentSeal} {seq : Int} {f : Frame} {off : Nat}

variable {classification : ScanClass} {header : WalHeaderInfo} {fs : List Frame} {required : Bool}
  {st : ScanState} {frame : Bytes} {fuel : Nat}

theorem scanFrame_seq (h : scanFrame c key scopeId segmentId frame seq = some f) : f.seq = seq := by
  simp only [scanFrame] at h
  split at h
  · rename_i checks
    simp only [frameTuple] at h
    obtain ⟨op, -, rfl⟩ := Option.map_eq_some_iff.mp h
    exact checks.2.2.2.2.2.1
  · cases h

theorem scanHead_frame (declaredSeal : Option SegmentSeal) (before : Bytes) (rest : Bytes)
    (lastSeq : Int) (declared : frameLength frame = some frame.length)
    (accepted : scanFrame c key scopeId segmentId frame seq = some f) :
    scanHead c key scopeId segmentId declaredSeal (before ++ (frame ++ rest)) before.length seq lastSeq =
      .frame f frame.length := by
  have bounds := frameLength_bounds declared
  have long : minFrame ≤ frame.length := bounds.1
  unfold minFrame at long
  have declared' : frameLength (frame ++ rest) = some frame.length := by
    rw [frameLength_append_right (by omega), declared]
  have noSeal : ¬ (5 ≤ (frame ++ rest).length ∧ (frame ++ rest).take 5 = sealMagic) :=
    fun h => take_ne_sealMagic declared' h.2
  have notShort : ¬ (frame ++ rest).length < 8 := by
    simp only [List.length_append]
    omega
  have notTorn : ¬ (frame ++ rest).length < frame.length := by
    simp only [List.length_append]
    omega
  have front : (frame ++ rest).take frame.length = frame := List.take_left' rfl
  simp only [scanHead, List.drop_left', noSeal, notShort, notTorn, declared', front, accepted,
    if_false]

theorem scanLoop_of_scans (declaredSeal : Option SegmentSeal) {rest : Bytes}
    (run : Scans c key scopeId segmentId seq rest fs) (before : Bytes) (frames : List Frame)
    (fuel : Nat) (enough : rest.length ≤ fuel) :
    scanLoop c key scopeId segmentId declaredSeal (before ++ rest) fuel
        (.between frames seq before.length) =
      .ok (.between (frames ++ fs) (seq + fs.length) (before ++ rest).length, 0, false) := by
  induction run generalizing before frames fuel with
  | nil seq =>
    cases fuel with
    | zero => simp [scanLoop]
    | succ fuel => simp [scanLoop, ScanState.between]
  | @cons seq frame rest f fs declared accepted tail ih =>
    have long := (frameLength_bounds declared).1
    unfold minFrame at long
    simp only [List.length_append] at enough
    obtain ⟨fuel, rfl⟩ : ∃ k, fuel = k + 1 := ⟨fuel - 1, by omega⟩
    have inside : before.length < (before ++ (frame ++ rest)).length := by
      simp only [List.length_append]
      omega
    have found := scanHead_frame declaredSeal before rest (seq - 1) declared accepted
    have next := ih (before ++ frame) (frames ++ [f]) fuel (by omega)
    rw [List.append_assoc, List.append_assoc, List.length_append] at next
    simp only [scanLoop, ScanState.between, inside, if_true, found, ScanState.next,
      scanFrame_seq accepted]
    have shift : seq + 1 - 1 = seq := by omega
    simp only [ScanState.between, shift, List.singleton_append] at next
    have count : seq + 1 + (fs.length : Int) = seq + ((f :: fs).length : Int) := by
      simp only [List.length_cons, Nat.cast_add, Nat.cast_one]
      omega
    rw [next, count]

theorem scanHead_eq_frame {seq lastSeq : Int} {n : Nat}
    (h : scanHead c key scopeId segmentId declaredSeal blob off seq lastSeq = .frame f n) :
    ∃ frame rest, blob.drop off = frame ++ rest ∧ frame.length = n ∧
      frameLength frame = some frame.length ∧
      scanFrame c key scopeId segmentId frame seq = some f := by
  simp only [scanHead] at h
  split at h
  · simp only [scanSeal] at h
    repeat' split at h
    all_goals cases h
  · split at h
    · cases h
    · split at h
      · cases h
      · rename_i total declared
        split at h
        · cases h
        · rename_i complete
          split at h
          · cases h
          · rename_i g accepted
            cases h
            have whole := List.take_append_drop n (blob.drop off)
            have size : ((blob.drop off).take n).length = n := by
              rw [List.length_take]
              omega
            have long := (frameLength_bounds declared).1
            unfold minFrame at long
            refine ⟨(blob.drop off).take n, (blob.drop off).drop n, whole.symm, size, ?_, accepted⟩
            rw [size, ← frameLength_append_right (by omega) ((blob.drop off).drop n), whole]
            exact declared

theorem scans_of_scanLoop {declaredSeal : Option SegmentSeal} {blob : Bytes} {fuel : Nat}
    (frames : List Frame) {seq : Int} {off : Nat} {st : ScanState} {bytes : Nat}
    (inside : off ≤ blob.length) (enough : blob.length ≤ off + fuel)
    (h : scanLoop c key scopeId segmentId declaredSeal blob fuel (.between frames seq off) =
      .ok (st, bytes, false)) (complete : ¬ st.off < blob.length) :
    ∃ fs, Scans c key scopeId segmentId seq (blob.drop off) fs ∧
      st = .between (frames ++ fs) (seq + fs.length) blob.length := by
  induction fuel generalizing frames seq off with
  | zero =>
    have exhausted : off = blob.length := by omega
    subst exhausted
    simp only [scanLoop, Except.ok.injEq, Prod.mk.injEq] at h
    obtain ⟨rfl, -⟩ := h
    exact ⟨[], by simpa using Scans.nil seq, by simp [ScanState.between]⟩
  | succ fuel ih =>
    rw [scanLoop] at h
    split at h
    · rename_i more
      simp only [ScanState.between] at h more
      split at h
      · rename_i f total found
        obtain ⟨frame, rest, split, size, declared, accepted⟩ := scanHead_eq_frame found
        have len := congrArg List.length split
        simp only [List.length_drop, List.length_append] at len
        have long := (frameLength_bounds declared).1
        unfold minFrame at long
        have seqEq := scanFrame_seq accepted
        have next : ScanState.next ⟨frames, seq - 1, seq, off⟩ f total =
            .between (frames ++ [f]) (seq + 1) (off + total) := by
          simp only [ScanState.next, ScanState.between, seqEq]
          congr 1
          omega
        rw [next] at h
        obtain ⟨fs, run, final⟩ := ih (frames ++ [f]) (by omega) (by omega) h
        have tail : blob.drop (off + total) = rest := by
          rw [← List.drop_drop, split, ← size, List.drop_left']
          rfl
        rw [tail] at run
        refine ⟨f :: fs, ?_, ?_⟩
        · rw [split]
          exact Scans.cons declared accepted run
        · rw [final]
          simp only [ScanState.between, List.append_assoc, List.singleton_append,
            List.length_cons, Nat.cast_add, Nat.cast_one]
          congr 1 <;> omega
      · cases h
        exact absurd more complete
      · cases h
      · cases h
      · cases h
    · rename_i exhausted
      simp only [ScanState.between, not_lt] at exhausted
      have exhausted : off = blob.length := by omega
      subst exhausted
      cases h
      exact ⟨[], by simpa using Scans.nil seq, by simp [ScanState.between]⟩

theorem scanHeader_length (h : scanHeader c key scopeId segmentId blob = .ok header) :
    segHeaderSize + tagBytes ≤ blob.length := by
  simp only [scanHeader, bind_eq_ok, require_eq_ok] at h
  obtain ⟨-, long, -⟩ := h
  exact long

theorem scanHeader_append (long : segHeaderSize + tagBytes ≤ blob.length) (rest : Bytes) :
    scanHeader c key scopeId segmentId (blob ++ rest) =
      scanHeader c key scopeId segmentId blob := by
  have enough : segHeaderSize + tagBytes ≤ (blob ++ rest).length := by
    rw [List.length_append]
    omega
  have front : (blob ++ rest).take segHeaderSize = blob.take segHeaderSize :=
    List.take_append_of_le_length (by omega)
  have tag : ((blob ++ rest).drop segHeaderSize).take tagBytes =
      (blob.drop segHeaderSize).take tagBytes := by
    rw [List.drop_append_of_le_length (by omega), List.take_append_of_le_length]
    rw [List.length_drop]
    omega
  simp only [scanHeader, front, tag, require_of long, require_of enough]

private theorem scanHead_fail {seq lastSeq : Int}
    (h : scanHead c key scopeId segmentId declaredSeal blob off seq lastSeq = .fail classification)
    : classification ≠ .clean := by
  simp only [scanHead, scanSeal] at h
  repeat' split at h
  all_goals cases h
  all_goals simp

private theorem scanLoop_error {r : ScanResult}
    (h : scanLoop c key scopeId segmentId declaredSeal blob fuel st = .error r) :
    r.classification ≠ .clean := by
  induction fuel generalizing st with
  | zero => cases h
  | succ fuel ih =>
    rw [scanLoop] at h
    split at h
    · split at h
      · exact ih h
      · cases h
      · cases h
      · cases h
        simp
      · rename_i found
        cases h
        exact scanHead_fail found
    · cases h

private theorem scanHeader_error
    (h : scanHeader c key scopeId segmentId blob = .error classification) :
    classification ≠ .clean := by
  intro same
  subst same
  simp only [scanHeader, require] at h
  repeat' split at h
  all_goals simp_all

theorem scan_of_scans (authentic : scanHeader c key scopeId segmentId blob = .ok header)
    (run : Scans c key scopeId segmentId header.firstSeq
      (blob.drop (segHeaderSize + tagBytes)) fs) :
    scan c key required scopeId segmentId none (some blob) =
      ⟨.clean, fs, header.firstSeq + fs.length - 1, blob.length, 0, false, some header⟩ := by
  have long := scanHeader_length authentic
  have whole := List.take_append_drop (segHeaderSize + tagBytes) blob
  have size : (blob.take (segHeaderSize + tagBytes)).length = segHeaderSize + tagBytes := by
    rw [List.length_take]
    omega
  have loop := scanLoop_of_scans none run
    (blob.take (segHeaderSize + tagBytes)) [] blob.length (by simp)
  rw [whole, size, List.nil_append] at loop
  simp only [scan, authentic]
  rw [show (⟨[], header.firstSeq - 1, header.firstSeq, segHeaderSize + tagBytes⟩ : ScanState) =
    .between [] header.firstSeq (segHeaderSize + tagBytes) from rfl, loop]
  simp [scanFinish, ScanState.between]

theorem scans_of_scan
    (clean : (scan c key required scopeId segmentId none (some blob)).classification = .clean)
    (notSealed : (scan c key required scopeId segmentId none (some blob)).isSealed = false) :
    ∃ header, scanHeader c key scopeId segmentId blob = .ok header ∧
      ∃ fs, Scans c key scopeId segmentId header.firstSeq
        (blob.drop (segHeaderSize + tagBytes)) fs ∧
      scan c key required scopeId segmentId none (some blob) =
        ⟨.clean, fs, header.firstSeq + fs.length - 1, blob.length, 0, false, some header⟩ := by
  cases authentic : scanHeader c key scopeId segmentId blob with
  | error classification =>
    simp only [scan, authentic] at clean
    exact absurd clean (scanHeader_error authentic)
  | ok header =>
    refine ⟨header, rfl, ?_⟩
    have long := scanHeader_length authentic
    have result : ∀ st bytes isSealed,
        scanLoop c key scopeId segmentId none blob blob.length
          ⟨[], header.firstSeq - 1, header.firstSeq, segHeaderSize + tagBytes⟩ =
            .ok (st, bytes, isSealed) →
        scan c key required scopeId segmentId none (some blob) =
          scanFinish c none blob header st bytes isSealed := by
      intro st bytes isSealed loop
      simp only [scan, authentic, loop]
    cases loop : scanLoop c key scopeId segmentId none blob blob.length
        ⟨[], header.firstSeq - 1, header.firstSeq, segHeaderSize + tagBytes⟩ with
    | error r =>
      simp only [scan, authentic, loop] at clean
      exact absurd clean (scanLoop_error loop)
    | ok out =>
      obtain ⟨st, bytes, isSealed⟩ := out
      rw [result st bytes isSealed loop] at clean notSealed
      cases isSealed with
      | true => simp [scanFinish] at notSealed
      | false =>
        have complete : ¬ st.off < blob.length := by
          intro torn
          simp [scanFinish, torn] at clean
        obtain ⟨fs, run, final⟩ := scans_of_scanLoop [] long (by omega) loop complete
        exact ⟨fs, run, scan_of_scans authentic run⟩

/-- A scan without a footer calls a segment clean exactly when it is an authentic header and whole
frames numbered from the first one; it then answers with these frames and the length of the file. -/
theorem scan_clean_iff (c : Crypto) (key : Bytes) (required : Bool) (scopeId segmentId : Int)
    (blob : Bytes) (r : ScanResult) :
    scan c key required scopeId segmentId none (some blob) = r ∧ r.classification = .clean ∧
        r.isSealed = false ↔
      ∃ header fs, scanHeader c key scopeId segmentId blob = .ok header ∧
        Scans c key scopeId segmentId header.firstSeq (blob.drop (segHeaderSize + tagBytes)) fs ∧
        r = ⟨.clean, fs, header.firstSeq + fs.length - 1, blob.length, 0, false, some header⟩ := by
  constructor
  · rintro ⟨rfl, clean, notSealed⟩
    obtain ⟨header, authentic, fs, run, answer⟩ := scans_of_scan clean notSealed
    exact ⟨header, fs, authentic, run, answer⟩
  · rintro ⟨header, fs, authentic, run, rfl⟩
    exact ⟨scan_of_scans authentic run, rfl, rfl⟩

end

end ProofRay.Engine
