/- Replacements that are staged: what the chunks of a transaction join to, and what the requests of
   an exchange leave in the staging tables. -/

import ProofRay.Host.Chain
import ProofRay.Host.RecordStore

namespace ProofRay.Host

open Engine (Bytes Crypto)
open Lib (Table)
open Lib.Guard
open Lib.Base64 (encode letter)

variable {c : Crypto}

private theorem dartLetters_of_plain {text : List Char}
    (plain : ∀ c ∈ text, c ≠ '%' ∧ c ≠ '-' ∧ c ≠ '_') : dartLetters text = text := by
  induction text with
  | nil => rfl
  | cons c text ih =>
    obtain ⟨percent, minus, line⟩ := plain c List.mem_cons_self
    have rest := ih fun d member => plain d (List.mem_cons_of_mem c member)
    rw [dartLetters.eq_def]
    split <;> simp_all

theorem plain_letter : ∀ {n : Nat}, n < 64 →
    letter n ≠ '%' ∧ letter n ≠ '-' ∧ letter n ≠ '_' := by
  decide

theorem mem_encode {bytes : Bytes} {c : Char} (member : c ∈ encode bytes) :
    c = '=' ∨ ∃ n < 64, c = letter n := by
  induction bytes using Lib.Base64.encode.induct with
  | case1 => cases member
  | case2 a =>
    have below := a.toNat_lt
    simp only [encode, List.mem_cons, List.not_mem_nil, or_false] at member
    rcases member with rfl | rfl | rfl | rfl
    · exact .inr ⟨_, by omega, rfl⟩
    · exact .inr ⟨_, by omega, rfl⟩
    · exact .inl rfl
    · exact .inl rfl
  | case3 a b =>
    have below := a.toNat_lt
    have below' := b.toNat_lt
    simp only [encode, List.mem_cons, List.not_mem_nil, or_false] at member
    rcases member with rfl | rfl | rfl | rfl
    · exact .inr ⟨_, by omega, rfl⟩
    · exact .inr ⟨_, by omega, rfl⟩
    · exact .inr ⟨_, by omega, rfl⟩
    · exact .inl rfl
  | case4 a b d rest ih =>
    have below := a.toNat_lt
    have below' := b.toNat_lt
    have below'' := d.toNat_lt
    simp only [encode, List.mem_cons] at member
    rcases member with rfl | rfl | rfl | rfl | later
    · exact .inr ⟨_, by omega, rfl⟩
    · exact .inr ⟨_, by omega, rfl⟩
    · exact .inr ⟨_, by omega, rfl⟩
    · exact .inr ⟨_, by omega, rfl⟩
    · exact ih later

theorem base64Decode_encode (bytes : Bytes) : base64Decode (encode bytes) = some bytes := by
  have plain : ∀ c ∈ encode bytes, c ≠ '%' ∧ c ≠ '-' ∧ c ≠ '_' := by
    intro c member
    rcases mem_encode member with rfl | ⟨n, below, rfl⟩
    · decide
    · exact plain_letter below
  rw [base64Decode, dartLetters_of_plain plain, Lib.Base64.decode_encode]

theorem replaceSidecarSuffix_encode (db : Database) (p : Nat) (digest : String)
    (records : List Bytes) :
    replaceSidecarSuffix c db p digest (records.map encode) =
      replaceRecords c db p digest records := by
  have decoded : (records.map encode).mapM (fun record =>
      orThrow (base64Decode record) Refusal.unreadable) = .ok records := by
    induction records with
    | nil => rfl
    | cons record records ih =>
      rw [List.map_cons, List.mapM_cons, base64Decode_encode, ih]
      rfl
  rw [replaceSidecarSuffix, decoded]
  rfl

theorem commonPrefix_spec (l l' : List Bytes) :
    commonPrefix l l' ≤ l.length ∧ l'.take (commonPrefix l l') = l.take (commonPrefix l l') := by
  induction l generalizing l' with
  | nil => simp [commonPrefix]
  | cons a l ih =>
    cases l' with
    | nil => simp [commonPrefix]
    | cons b l' =>
      unfold commonPrefix
      split
      · rename_i same
        obtain ⟨within, shared⟩ := ih l'
        exact ⟨Nat.succ_le_succ within, by rw [List.take_succ_cons, List.take_succ_cons, shared, same]⟩
      · simp

variable {parts : List (List (List Char))}

theorem chunks_spec {active items : List (List Char)} {activeBytes : Nat}
    (cut : chunks active activeBytes items = some parts) :
    parts.flatten = active ++ items ∧ ∀ part ∈ parts, part ≠ [] := by
  induction items generalizing active activeBytes parts with
  | nil =>
    simp only [chunks, Option.some.injEq] at cut
    subst cut
    split
    · rename_i none
      simp [none]
    · rename_i filled
      simp [filled]
  | cons item items ih =>
    unfold chunks at cut
    split at cut
    · cases cut
    · split at cut
      · rename_i full
        obtain ⟨later, rest, rfl⟩ := Option.map_eq_some_iff.mp cut
        obtain ⟨joined, filled⟩ := ih rest
        refine ⟨by rw [List.flatten_cons, joined, List.singleton_append], ?_⟩
        exact List.forall_mem_cons.mpr ⟨full.1, filled⟩
      · obtain ⟨joined, filled⟩ := ih cut
        exact ⟨by rw [joined, List.append_assoc, List.singleton_append], filled⟩

/-- The rows of one transaction are its plan and some of its chunks. -/
structure Agrees (db : Database) (plan : ReplacementPlan) (parts : List (List (List Char))) :
    Prop where
  plans : ∀ other ∈ db.plans.rows, other.transactionId = plan.transactionId → other = plan
  chunks : ∀ chunk ∈ db.chunks.rows, chunk.transactionId = plan.transactionId →
    parts[chunk.chunkIndex]? = some chunk.encodedRecords

variable {records : List (List Char)} {plan : ReplacementPlan} {db db' : Database}

theorem settlePlan_eq_ok {existing : Option ReplacementPlan}
    (settled : settlePlan existing db plan = .ok db') :
    db' = { db with plans := db'.plans } ∧
      ∀ other ∈ db'.plans.rows, other ∈ db.plans.rows ∨ other = plan := by
  cases existing with
  | none =>
    simp only [settlePlan, bind_eq_ok, orThrow_eq_ok, Table.insert_eq_some_iff, pure_eq_ok] at settled
    obtain ⟨plans, ⟨-, rows⟩, rfl⟩ := settled
    refine ⟨rfl, fun other member => ?_⟩
    have there : other ∈ plans.rows := member
    rwa [rows, List.mem_append, List.mem_singleton] at there
  | some other =>
    simp only [settlePlan, bind_eq_ok, require_eq_ok, pure_eq_ok] at settled
    obtain ⟨-, -, rfl⟩ := settled
    exact ⟨rfl, fun _ member => .inl member⟩

theorem settleChunk_eq_ok {existing : Option ReplacementChunk} {chunk : ReplacementChunk}
    (settled : settleChunk existing db chunk = .ok db') :
    db' = { db with chunks := db'.chunks } ∧
      ∀ other ∈ db'.chunks.rows, other ∈ db.chunks.rows ∨ other = chunk := by
  cases existing with
  | none =>
    simp only [settleChunk, bind_eq_ok, require_eq_ok, orThrow_eq_ok, Table.insert_eq_some_iff,
      pure_eq_ok] at settled
    obtain ⟨-, -, chunks, ⟨-, rows⟩, rfl⟩ := settled
    refine ⟨rfl, fun other member => ?_⟩
    have there : other ∈ chunks.rows := member
    rwa [rows, List.mem_append, List.mem_singleton] at there
  | some other =>
    simp only [settleChunk, bind_eq_ok, require_eq_ok, pure_eq_ok] at settled
    obtain ⟨-, -, rfl⟩ := settled
    exact ⟨rfl, fun _ member => .inl member⟩

private theorem take_of_getElem? {α : Type} {l : List α} {m : Nat} {r : List α}
    (length : r.length = m) (each : ∀ i < m, l[i]? = r[i]?) : r = l.take m := by
  refine List.ext_getElem? fun i => ?_
  rw [List.getElem?_take]
  split
  · rename_i inside
    exact (each i inside).symm
  · rename_i outside
    exact List.getElem?_eq_none_iff.mpr (by omega)

theorem joinChunks_of_agrees {db : Database} (agrees : Agrees db plan parts)
    (filled : ∀ part ∈ parts, part ≠ []) (total : plan.totalRecords = parts.flatten.length)
    (joined : joinChunks plan (chunksOf db plan.transactionId) = .ok records) :
    records = parts.flatten := by
  simp only [joinChunks, bind_eq_ok, require_eq_ok, pure_eq_ok] at joined
  obtain ⟨-, contiguous, -, length, rfl⟩ := joined
  generalize rows : chunksOf db plan.transactionId = chunks at contiguous length ⊢
  have held : ∀ chunk ∈ chunks, parts[chunk.chunkIndex]? = some chunk.encodedRecords := by
    intro chunk member
    rw [← rows, chunksOf, (List.perm_insertionSort _ _).mem_iff, List.mem_filter] at member
    exact agrees.chunks chunk member.1 (of_decide_eq_true member.2)
  have front : chunks.map ReplacementChunk.encodedRecords = parts.take chunks.length := by
    refine take_of_getElem? (List.length_map _) fun i inside => ?_
    have index : (chunks.map ReplacementChunk.chunkIndex)[i]? = some i := by
      rw [contiguous, List.getElem?_range inside]
    rw [List.getElem?_map, Option.map_eq_some_iff] at index
    obtain ⟨chunk, there, place⟩ := index
    rw [List.getElem?_map, there, Option.map_some, ← held chunk (List.mem_of_getElem? there), place]
  rw [List.flatMap_def, front] at length ⊢
  have rest : (parts.drop chunks.length).flatten.length = 0 := by
    have whole := congrArg (fun l => l.flatten.length) (List.take_append_drop chunks.length parts)
    simp only [List.flatten_append, List.length_append] at whole
    omega
  have none : parts.drop chunks.length = [] := by
    refine List.eq_nil_iff_forall_not_mem.mpr fun part member => ?_
    have empty := List.flatten_eq_nil_iff.mp (List.length_eq_zero_iff.mp rest) part member
    exact filled part (List.mem_of_mem_drop member) empty
  have all := List.take_append_drop chunks.length parts
  rw [none, List.append_nil] at all
  rw [all]

theorem stagedReplacement_of_agrees {db : Database} {plan other : ReplacementPlan}
    (agrees : Agrees db plan parts) (filled : ∀ part ∈ parts, part ≠ [])
    (total : plan.totalRecords = parts.flatten.length)
    (read : stagedReplacement db plan.transactionId = .ok (other, records)) :
    other = plan ∧ records = parts.flatten := by
  simp only [stagedReplacement, bind_eq_ok, require_eq_ok, orThrow_eq_ok, pure_eq_ok,
    Prod.mk.injEq] at read
  obtain ⟨-, -, other, found, records, joined, rfl, rfl⟩ := read
  obtain ⟨member, same⟩ := (db.plans.find_eq_some_iff).mp found
  obtain rfl := agrees.plans other member same
  exact ⟨rfl, joinChunks_of_agrees agrees filled total joined⟩

end ProofRay.Host
