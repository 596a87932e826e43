/- Loading what replacements wrote: what was acknowledged is loaded again when each of its pages
   fits a frame. -/

import ProofRay.Host.Chain
import ProofRay.Host.RecordStore

namespace ProofRay.Host

open Engine (Bytes Crypto)
open Lib.Guard

variable {c : Crypto}

def pageOf (records : List Bytes) (cursor : Nat) : SidecarPage :=
  let rows := (records.drop cursor).take pageSize
  ⟨rows.map Lib.Base64.encode, rows.length < pageSize⟩

variable {db : Database}

theorem loadSidecarPage_of_chain (chain : db.Chain c) (cursor : Nat) :
    loadSidecarPage db cursor pageSize = .ok (pageOf db.payloads cursor) := by
  have sorted : (db.sidecar.rows.drop cursor).Pairwise fun a b => a.sequence ≤ b.sequence := by
    have places : (db.sidecar.rows.map SidecarRow.sequence).Pairwise (· < ·) := by
      rw [Chained.sequences chain]
      exact List.pairwise_lt_range' _
    exact ((List.pairwise_map.mp places).imp fun below => le_of_lt below).sublist
      (List.drop_sublist _ _)
  unfold loadSidecarPage
  rw [require_of (by decide), Chained.filter_gt chain]
  simp only [ok_bind, sorted.insertionSort_eq]
  rw [pageOf, Database.payloads, ← List.map_drop, ← List.map_take, List.map_map, List.length_map]
  rfl

theorem ne_nil_of_chain (chain : db.Chain c) {payload : Bytes} (member : payload ∈ db.payloads) :
    payload ≠ [] := by
  rintro rfl
  obtain ⟨row, there, same⟩ := List.mem_map.mp member
  obtain ⟨front, behind, rows⟩ := List.append_of_mem there
  unfold Database.Chain at chain
  rw [rows] at chain
  obtain ⟨v, valid, -⟩ := (chained_append.mp chain).2.1
  rw [same] at valid
  simp only [validateSidecarRecord, bind_eq_ok, orThrow_eq_ok] at valid
  obtain ⟨text, decoded, value, read, -⟩ := valid
  cases decoded
  cases read

def Fits (token : Token) (records : List Bytes) (cursor : Nat) : Prop :=
  (requestFrame token (.load cursor pageSize)).length ≤ maxFrameBytes ∧
    (responseFrame token (.page (pageOf records cursor))).length ≤ maxFrameBytes

theorem callHost_load (chain : db.Chain c) (token : Token) (cursor : Nat) :
    (Fits token db.payloads cursor ∧
      callHost c token db (.load cursor pageSize) = (.ok (.page (pageOf db.payloads cursor)), db)) ∨
    (¬Fits token db.payloads cursor ∧
      ∃ failure, (callHost c token db (.load cursor pageSize)).1 = .error failure) := by
  have handled : handleHostRequest c db (.load cursor pageSize) =
      .ok (.page (pageOf db.payloads cursor), db) := by
    rw [handleHostRequest, loadSidecarPage_of_chain chain]
    rfl
  unfold callHost
  by_cases request : (requestFrame token (.load cursor pageSize)).length ≤ maxFrameBytes
  · rw [if_pos request, handled]
    dsimp only
    by_cases response :
        (responseFrame token (.page (pageOf db.payloads cursor))).length ≤ maxFrameBytes
    · rw [if_pos response]
      exact .inl ⟨⟨request, response⟩, rfl⟩
    · rw [if_neg response]
      exact .inr ⟨fun both => response both.2, _, rfl⟩
  · rw [if_neg request]
    exact .inr ⟨fun both => request both.1, _, rfl⟩

theorem mapM_decode_encode (records : List Bytes) (failure : CallFailure) :
    (records.map Lib.Base64.encode).mapM (fun item => orThrow (Lib.Base64.decode item) failure) =
      .ok records := by
  induction records with
  | nil => rfl
  | cons record records ih =>
    rw [List.map_cons, List.mapM_cons, Lib.Base64.decode_encode, ih]
    rfl

def AllFit (token : Token) (records : List Bytes) (cursor : Nat) : Prop :=
  ∀ k, cursor + pageSize * k ≤ records.length → Fits token records (cursor + pageSize * k)

theorem allFit_iff {token : Token} {records : List Bytes} {cursor : Nat}
    (within : cursor + pageSize ≤ records.length) :
    AllFit token records cursor ↔
      Fits token records cursor ∧ AllFit token records (cursor + pageSize) := by
  constructor
  · intro all
    refine ⟨by simpa using all 0 (by omega), fun k inside => ?_⟩
    have later := all (k + 1) (by rw [Nat.mul_succ]; omega)
    rwa [Nat.mul_succ, Nat.add_comm (pageSize * k), ← Nat.add_assoc] at later
  · rintro ⟨first, later⟩ k inside
    cases k with
    | zero => simpa using first
    | succ k =>
      rw [Nat.mul_succ, Nat.add_comm (pageSize * k), ← Nat.add_assoc] at inside ⊢
      exact later k inside

theorem loadPages_of_fits (chain : db.Chain c) (token : Token) {fuel cursor : Nat}
    (within : cursor ≤ db.payloads.length) (enough : db.payloads.length - cursor < fuel) :
    (AllFit token db.payloads cursor ∧
      loadPages c token db fuel cursor = .ok (db.payloads.drop cursor)) ∨
    (¬AllFit token db.payloads cursor ∧
      ∃ failure, loadPages c token db fuel cursor = .error failure) := by
  induction fuel generalizing cursor with
  | zero => omega
  | succ fuel ih =>
    have positive : 0 < pageSize := by decide
    rw [loadPages]
    rcases callHost_load chain token cursor with ⟨fits, answered⟩ | ⟨large, failure, failed⟩
    · rw [answered]
      dsimp only
      have rows : (pageOf db.payloads cursor).records.mapM (fun item =>
          orThrow (Lib.Base64.decode item) (CallFailure.store
            "host returned invalid sidecar bytes")) =
          .ok ((db.payloads.drop cursor).take pageSize) := mapM_decode_encode _ _
      have solid : ∀ row ∈ (db.payloads.drop cursor).take pageSize, row ≠ [] := fun row member =>
        ne_nil_of_chain chain (List.mem_of_mem_drop (List.mem_of_mem_take member))
      rw [rows, ok_bind, require_of solid, ok_bind]
      by_cases complete : db.payloads.length - cursor < pageSize
      · have short : ((db.payloads.drop cursor).take pageSize).length < pageSize := by
          rw [List.length_take, List.length_drop]
          omega
        have all : (db.payloads.drop cursor).take pageSize = db.payloads.drop cursor :=
          List.take_of_length_le (by rw [List.length_drop]; omega)
        refine .inl ⟨fun k inside => ?_, ?_⟩
        · obtain rfl : k = 0 := by
            rcases Nat.eq_zero_or_pos k with zero | positive'
            · exact zero
            · have := Nat.le_mul_of_pos_right pageSize positive'
              omega
          simpa using fits
        · rw [if_pos (by simpa [pageOf] using short), all]
          rfl
      · have full : ((db.payloads.drop cursor).take pageSize).length = pageSize := by
          rw [List.length_take, List.length_drop]
          omega
        have some_row : (db.payloads.drop cursor).take pageSize ≠ [] := by
          intro none
          rw [none] at full
          cases full
        rw [if_neg (by simp [pageOf, full]), require_of some_row, ok_bind, full]
        have apart : AllFit token db.payloads cursor ↔
            AllFit token db.payloads (cursor + pageSize) := by
          rw [allFit_iff (by omega)]
          exact and_iff_right fits
        rcases @ih (cursor + pageSize) (by omega) (by omega) with
          ⟨all, later⟩ | ⟨large, failure, failed⟩
        · refine .inl ⟨apart.mpr all, ?_⟩
          rw [later, ok_bind, ← List.drop_drop, List.take_append_drop]
          rfl
        · rw [failed]
          exact .inr ⟨fun all => large (apart.mp all), failure, rfl⟩
    · rw [failed]
      refine .inr ⟨fun all => large ?_, failure, rfl⟩
      simpa using all 0 (by simpa using within)

end ProofRay.Host
