/- Records that the ledger writes, as the store of the host keeps them. -/

import ProofRay.Host.Chain
import ProofRay.Host.SameLedger

namespace ProofRay.Host

open Engine (Bytes Crypto)
open Lib (Dict Spelled)
open Lib.Guard
open Sidecar (SidecarRecord genesis)

variable {c : Crypto}

def validated (r : SidecarRecord) : ValidatedSidecarRecord :=
  let message := messageParts (.ofString r.sourceId)
  ⟨r.sequence, r.previousSha256, r.recordSha256, r.bytes, message.map fun parts => parts.2,
    message.map fun parts => .ofString "conversation:" ++ parts.1 ++ .ofString ":" ++ parts.2⟩

@[simp] theorem payload_validated (r : SidecarRecord) :
    (validated r).row.canonicalPayload = r.bytes := by
  simp only [validated, ValidatedSidecarRecord.row]

theorem messageId_validated (r : SidecarRecord) : (validated r).messageId =
    (messageParts (.ofString r.sourceId)).map fun parts => parts.2 := by
  simp only [validated]

theorem textField_sourceId (r : SidecarRecord) :
    textField (without "record_sha256" (jsonFields r)) "source_id" =
      some (.ofString r.sourceId) := by
  rw [without_jsonFields, textField, field_ofFields]
  simp [SidecarRecord.unsigned, Sidecar.asFields, Dict.lookupEntry, Spelled.ofJson, asText]

theorem validate_bytes {r : SidecarRecord} (signed : r.recordSha256 = r.hash c)
    (ints : r.json.Ints InInt64) :
    validateSidecarRecord c r.bytes r.sequence r.previousSha256 = .ok (validated r) := by
  obtain ⟨v, accepted, digest⟩ := accepts_of_ints signed ints
  obtain ⟨text, fields, unsigned, decoded, read, -, -, rfl⟩ :=
    (validateSidecarRecord_eq_ok c).mp accepted
  rw [utf8Decode_bytes] at decoded
  cases decoded
  rw [read_bytes] at read
  cases read
  have named : textSha256 c unsigned = r.recordSha256 := digest
  rw [accepted, textField_sourceId, named]
  rfl

variable {previous : String} {n : Nat}

theorem validateRecords_bytes {rs : List SidecarRecord}
    (chained : Sidecar.Chained c (n + 1) previous rs) (ints : ∀ r ∈ rs, r.json.Ints InInt64) :
    validateRecords c n previous (rs.map SidecarRecord.bytes) = .ok (rs.map validated) := by
  induction rs generalizing n previous with
  | nil => rfl
  | cons r rs ih =>
    obtain ⟨place, rfl, signed, rest⟩ := chained
    have first := validate_bytes signed (ints r List.mem_cons_self)
    rw [place] at first
    have later := ih rest fun r member => ints r (List.mem_cons_of_mem _ member)
    have held : (validated r).recordSha256 = r.recordSha256 := rfl
    rw [List.map_cons, validateRecords, first, ok_bind, held, later]
    rfl

theorem validateRecords_append {payloads payloads' : List Bytes}
    {vs : List ValidatedSidecarRecord} :
    validateRecords c n previous (payloads ++ payloads') = .ok vs ↔ ∃ front behind,
      validateRecords c n previous payloads = .ok front ∧
      validateRecords c (n + payloads.length)
        (lastDigest previous (front.map ValidatedSidecarRecord.row)) payloads' = .ok behind ∧
      vs = front ++ behind := by
  induction payloads generalizing n previous vs with
  | nil => simp [validateRecords, lastDigest]
  | cons payload payloads ih =>
    have place : n + (payload :: payloads).length = n + 1 + payloads.length := by
      rw [List.length_cons]
      omega
    simp only [List.cons_append, validateRecords, bind_eq_ok, pure_eq_ok, ih, place]
    constructor
    · rintro ⟨v, first, -, ⟨front, behind, later, last, rfl⟩, rfl⟩
      refine ⟨v :: front, behind, ⟨v, first, front, later, rfl⟩, ?_, rfl⟩
      rw [List.map_cons, lastDigest_cons]
      exact last
    · rintro ⟨-, behind, ⟨v, first, front, later, rfl⟩, last, rfl⟩
      rw [List.map_cons, lastDigest_cons] at last
      exact ⟨v, first, front ++ behind, ⟨front, behind, later, last, rfl⟩, rfl⟩

theorem validateRecords_behind {db : Database} (chain : db.Chain c) {p : Nat}
    {rs rs' : List SidecarRecord} (chained : Sidecar.Chained c 1 genesis (rs ++ rs'))
    (ints : ∀ r ∈ rs ++ rs', r.json.Ints InInt64)
    (payloads : db.payloads.take p = rs.map SidecarRecord.bytes)
    (within : p ≤ db.sidecar.rows.length) :
    validateRecords c p (lastDigest firstDigest (db.sidecar.rows.take p))
      (rs'.map SidecarRecord.bytes) = .ok (rs'.map validated) := by
  have valid : validateRecords c 0 firstDigest ((rs ++ rs').map SidecarRecord.bytes) =
      .ok ((rs ++ rs').map validated) := validateRecords_bytes chained ints
  rw [List.map_append, List.map_append] at valid
  obtain ⟨front, behind, first, last, same⟩ := validateRecords_append.mp valid
  obtain ⟨held, rows⟩ := chained_of_validateRecords first
  have length : front.length = rs.length := by
    have lengths := congrArg List.length held
    simpa using lengths
  obtain ⟨rfl, rfl⟩ := List.append_inj same (by rw [List.length_map, length])
  have table : db.sidecar.rows.take p =
      (rs.map validated).map ValidatedSidecarRecord.row := by
    refine (Chained.take chain p).unique rows ?_
    rw [List.map_take, show db.sidecar.rows.map SidecarRow.canonicalPayload = db.payloads from rfl,
      payloads, List.map_map, List.map_map]
    exact List.map_congr_left fun r _ => (payload_validated r).symm
  have place : rs.length = p := by
    have lengths := congrArg List.length table
    rw [List.length_take_of_le within, List.length_map, List.length_map] at lengths
    exact lengths.symm
  rw [table, ← place]
  rw [List.length_map, Nat.zero_add] at last
  exact last

end ProofRay.Host
