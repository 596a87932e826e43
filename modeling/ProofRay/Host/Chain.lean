/- The sidecar table as a chain, each record checked behind the one before it.  A replacement makes
   it the prefix and the new records. -/

import ProofRay.Host.Store

namespace ProofRay.Host

open Engine (Bytes Crypto)
open Lib (Table Text)
open Lib.Guard
open Sidecar (hexSha256)
open ValidatedSidecarRecord (messageId)

/-- `List<String>.filled(64, '0').join()`. -/
def firstDigest : String := String.ofList (List.replicate 64 '0')

def Chained (c : Crypto) : Nat → String → List SidecarRow → Prop
  | _, _, [] => True
  | n, previous, row :: rows =>
    (∃ v, validateSidecarRecord c row.canonicalPayload (n + 1) previous = .ok v ∧ v.row = row) ∧
      Chained c (n + 1) row.recordSha256 rows

def Database.Chain (c : Crypto) (db : Database) : Prop := Chained c 0 firstDigest db.sidecar.rows

def lastDigest (previous : String) (rows : List SidecarRow) : String :=
  (rows.getLast?.map SidecarRow.recordSha256).getD previous

variable {c : Crypto}

theorem lastDigest_cons (previous : String) (row : SidecarRow) (rows : List SidecarRow) :
    lastDigest previous (row :: rows) = lastDigest row.recordSha256 rows := by
  unfold lastDigest
  cases rows with
  | nil => rfl
  | cons row' rows =>
    rw [List.getLast?_cons_cons, List.getLast?_eq_some_getLast (List.cons_ne_nil row' rows)]
    rfl

variable {previous : String} {n : Nat} {p : Nat} {vs : List ValidatedSidecarRecord}
  {v : ValidatedSidecarRecord} {records : List Bytes} {digest : String}

theorem chained_append {rows rows' : List SidecarRow} :
    Chained c n previous (rows ++ rows') ↔
      Chained c n previous rows ∧ Chained c (n + rows.length) (lastDigest previous rows) rows' := by
  induction rows generalizing n previous with
  | nil => simp [Chained, lastDigest]
  | cons row rows ih =>
    rw [List.cons_append, Chained, Chained, ih, lastDigest_cons, List.length_cons, and_assoc,
      Nat.add_right_comm, Nat.add_assoc]

theorem fields_of_validate {payload : Bytes}
    (valid : validateSidecarRecord c payload n previous = .ok v) :
    v.sequence = n ∧ v.previousSha256 = previous ∧ v.payload = payload := by
  simp only [validateSidecarRecord, bind_eq_ok, orThrow_eq_ok, require_eq_ok, pure_eq_ok] at valid
  obtain ⟨_, -, _, -, _, -, _, -, -, -, -, -, -, -, _, -, _, -, -, -, _, -, -, -, rfl⟩ := valid
  exact ⟨rfl, rfl, rfl⟩

theorem Chained.sequences {rows : List SidecarRow} (chained : Chained c n previous rows) :
    rows.map SidecarRow.sequence = List.range' (n + 1) rows.length := by
  induction rows generalizing n previous with
  | nil => rfl
  | cons row rows ih =>
    obtain ⟨⟨v, valid, same⟩, rest⟩ := chained
    have place : row.sequence = n + 1 := by
      rw [← same]
      exact (fields_of_validate valid).1
    rw [List.map_cons, ih rest, place, List.length_cons, List.range'_succ]

theorem Chained.above {rows : List SidecarRow} (chained : Chained c n previous rows)
    {row : SidecarRow} (member : row ∈ rows) :
    n < row.sequence ∧ row.sequence ≤ n + rows.length := by
  have place : row.sequence ∈ rows.map SidecarRow.sequence := List.mem_map_of_mem member
  rw [chained.sequences, List.mem_range'_1] at place
  omega

theorem Chained.take {rows : List SidecarRow} (chained : Chained c n previous rows) (p : Nat) :
    Chained c n previous (rows.take p) := by
  rw [← List.take_append_drop p rows] at chained
  exact (chained_append.mp chained).1

theorem Chained.parted {rows : List SidecarRow} (chained : Chained c 0 previous rows) (p : Nat) :
    (∀ row ∈ rows.take p, row.sequence ≤ p) ∧ ∀ row ∈ rows.drop p, p < row.sequence := by
  rw [← List.take_append_drop p rows] at chained
  obtain ⟨front, behind⟩ := chained_append.mp chained
  constructor
  · intro row member
    have below := (front.above member).2
    have length := List.length_take_le p rows
    omega
  · intro row member
    have above := (behind.above member).1
    have some_row := List.length_pos_of_mem member
    rw [List.length_drop] at some_row
    rw [List.length_take] at above
    omega

theorem Chained.filter_le {rows : List SidecarRow} (chained : Chained c 0 previous rows) (p : Nat) :
    (rows.filter fun row => decide (row.sequence ≤ p)) = rows.take p := by
  obtain ⟨below, above⟩ := chained.parted p
  conv_lhs => rw [← List.take_append_drop p rows]
  rw [List.filter_append,
    List.filter_eq_self.mpr fun row member => decide_eq_true (below row member),
    List.filter_eq_nil_iff.mpr, List.append_nil]
  simpa using above

theorem Chained.filter_gt {rows : List SidecarRow} (chained : Chained c 0 previous rows) (p : Nat) :
    (rows.filter fun row => decide (p < row.sequence)) = rows.drop p := by
  obtain ⟨below, above⟩ := chained.parted p
  conv_lhs => rw [← List.take_append_drop p rows]
  rw [List.filter_append, List.filter_eq_nil_iff.mpr,
    List.filter_eq_self.mpr fun row member => decide_eq_true (above row member), List.nil_append]
  simpa using below

theorem Database.Chain.find {db : Database} (chain : db.Chain c) :
    db.sidecar.find (p + 1) = db.sidecar.rows[p]? := by
  have places := Chained.sequences chain
  cases there : db.sidecar.rows[p]? with
  | none =>
    refine (db.sidecar.find_eq_none_iff).mpr fun row member same => ?_
    have above := (Chained.above chain member).2
    have length := List.getElem?_eq_none_iff.mp there
    omega
  | some row =>
    refine (db.sidecar.find_eq_some_iff).mpr ⟨List.mem_of_getElem? there, ?_⟩
    have place : (db.sidecar.rows.map SidecarRow.sequence)[p]? = some row.sequence := by
      rw [List.getElem?_map, there, Option.map_some]
    rw [places, List.getElem?_range' (by
      exact (List.getElem?_eq_some_iff.mp there).1), Option.some.injEq] at place
    omega

def Guarded (c : Crypto) (db : Database) (commonPrefix : Nat) (commonPrefixSha256 : String) :
    Prop :=
  commonPrefix ≤ db.sidecar.rows.length ∧
    match commonPrefix with
    | 0 => commonPrefixSha256 = ""
    | p + 1 => ∃ row, db.sidecar.rows[p]? = some row ∧
        hexSha256 c row.canonicalPayload = commonPrefixSha256

theorem previousDigest_eq_ok {db : Database} (chain : db.Chain c) {digest previous : String}
    (within : p ≤ db.sidecar.rows.length) :
    previousDigest c db p digest = .ok previous ↔
      Guarded c db p digest ∧ previous = lastDigest firstDigest (db.sidecar.rows.take p) := by
  cases p with
  | zero =>
    simp only [previousDigest, Nat.lt_irrefl, if_false, bind_eq_ok, require_eq_ok, pure_eq_ok,
      Guarded, within, true_and]
    constructor
    · rintro ⟨_, empty, same⟩
      exact ⟨empty, same.symm⟩
    · rintro ⟨empty, same⟩
      exact ⟨(), empty, same.symm⟩
  | succ p =>
    have last {row : SidecarRow} (there : db.sidecar.rows[p]? = some row) :
        lastDigest firstDigest (db.sidecar.rows.take (p + 1)) = row.recordSha256 := by
      rw [lastDigest, List.take_add_one, there, Option.toList_some, List.getLast?_concat]
      rfl
    simp only [previousDigest, Nat.succ_pos, if_true, bind_eq_ok, orThrow_eq_ok, require_eq_ok,
      pure_eq_ok, chain.find, Guarded, within, true_and]
    constructor
    · rintro ⟨row, there, -, digest, rfl⟩
      exact ⟨⟨row, there, digest⟩, (last there).symm⟩
    · rintro ⟨⟨row, there, digest⟩, rfl⟩
      exact ⟨row, there, (), digest, (last there).symm⟩

theorem chained_of_validateRecords {payloads : List Bytes}
    (valid : validateRecords c n previous payloads = .ok vs) :
    vs.map ValidatedSidecarRecord.payload = payloads ∧
      Chained c n previous (vs.map ValidatedSidecarRecord.row) := by
  induction payloads generalizing n previous vs with
  | nil =>
    cases valid
    exact ⟨rfl, trivial⟩
  | cons payload payloads ih =>
    simp only [validateRecords, bind_eq_ok, pure_eq_ok] at valid
    obtain ⟨v, first, vs, later, rfl⟩ := valid
    obtain ⟨same, chained⟩ := ih later
    have held := (fields_of_validate first).2.2
    refine ⟨by rw [List.map_cons, same, held], ⟨v, ?_, rfl⟩, chained⟩
    show validateSidecarRecord c v.payload (n + 1) previous = .ok v
    rw [held, first]

theorem Chained.validateRecords {rows : List SidecarRow} (chained : Chained c n previous rows) :
    ∃ vs, validateRecords c n previous (rows.map SidecarRow.canonicalPayload) = .ok vs ∧
      vs.map ValidatedSidecarRecord.row = rows := by
  induction rows generalizing n previous with
  | nil => exact ⟨[], rfl, rfl⟩
  | cons row rows ih =>
    obtain ⟨⟨v, first, same⟩, rest⟩ := chained
    obtain ⟨vs, later, others⟩ := ih rest
    have digest : v.recordSha256 = row.recordSha256 := congrArg SidecarRow.recordSha256 same
    refine ⟨v :: vs, ?_, by rw [List.map_cons, same, others]⟩
    simp only [List.map_cons, Host.validateRecords, bind_eq_ok, pure_eq_ok]
    exact ⟨v, first, vs, by rw [digest, later], rfl⟩

theorem Chained.unique {rows rows' : List SidecarRow} (chained : Chained c n previous rows)
    (chained' : Chained c n previous rows')
    (same : rows.map SidecarRow.canonicalPayload = rows'.map SidecarRow.canonicalPayload) :
    rows = rows' := by
  obtain ⟨vs, valid, rfl⟩ := chained.validateRecords
  obtain ⟨vs', valid', rfl⟩ := chained'.validateRecords
  rw [same, valid', Except.ok.injEq] at valid
  rw [valid]

def Staged (db : Database) (v : ValidatedSidecarRecord) : Prop :=
  ∀ id, v.messageId = some id →
    (db.messages.find id).map Message.memorySourceId = some v.memorySourceId

def recalled (ids : List Text) (m : Message) : Message :=
  if m.id ∈ ids then { m with memoryEligible := true } else m

def forgotten (ids : List Text) (m : Message) : Message :=
  if m.id ∈ ids then { m with memoryEligible := false } else m

def ingested (ids : List Text) (o : OutboxOperation) : OutboxOperation :=
  if ∃ id ∈ ids, o.id = Text.ofString "ingest:" ++ id then { o with state := "memory_committed" }
  else o

/-- What the statements of a replacement leave of a database. -/
structure Wrote (db db' : Database) (rows : List SidecarRow) (cited lost : List Text) : Prop where
  sidecar : db'.sidecar.rows = rows
  messages : db'.messages.rows = db.messages.rows.map fun m => forgotten lost (recalled cited m)
  outbox : db'.outbox.rows = db.outbox.rows.map (ingested cited)
  conversations : db'.conversations = db.conversations
  plans : db'.plans = db.plans
  chunks : db'.chunks = db.chunks

@[simp] theorem id_recalled (ids : List Text) (m : Message) : (recalled ids m).id = m.id := by
  unfold recalled
  split <;> rfl

@[simp] theorem id_forgotten (ids : List Text) (m : Message) : (forgotten ids m).id = m.id := by
  unfold forgotten
  split <;> rfl

@[simp] theorem id_ingested (ids : List Text) (o : OutboxOperation) :
    (ingested ids o).id = o.id := by
  unfold ingested
  split <;> rfl

@[simp] theorem source_recalled (ids : List Text) (m : Message) :
    (recalled ids m).memorySourceId = m.memorySourceId := by
  unfold recalled
  split <;> rfl

@[simp] theorem source_forgotten (ids : List Text) (m : Message) :
    (forgotten ids m).memorySourceId = m.memorySourceId := by
  unfold forgotten
  split <;> rfl

@[simp] theorem forgotten_nil (m : Message) : forgotten [] m = m := by simp [forgotten]

@[simp] theorem recalled_nil (m : Message) : recalled [] m = m := by simp [recalled]

@[simp] theorem ingested_nil (o : OutboxOperation) : ingested [] o = o := by simp [ingested]

theorem recalled_append (ids ids' : List Text) (m : Message) :
    recalled (ids ++ ids') m = recalled ids' (recalled ids m) := by
  by_cases first : m.id ∈ ids <;> by_cases second : m.id ∈ ids' <;> simp [recalled, first, second]

theorem ingested_append (ids ids' : List Text) (o : OutboxOperation) :
    ingested (ids ++ ids') o = ingested ids' (ingested ids o) := by
  by_cases first : ∃ id ∈ ids, o.id = Text.ofString "ingest:" ++ id <;>
    by_cases second : ∃ id ∈ ids', o.id = Text.ofString "ingest:" ++ id <;>
    simp [ingested, first, second, List.mem_append, or_and_right, exists_or]

theorem forgotten_cons (id : Text) (ids : List Text) (m : Message) :
    forgotten (id :: ids) m = forgotten ids (forgotten [id] m) := by
  by_cases first : m.id = id <;> by_cases second : m.id ∈ ids <;>
    simp [forgotten, first, second]

section Wrote

variable {db db' db'' : Database} {rows rows' : List SidecarRow} {cited cited' lost : List Text}

theorem Wrote.unique (left : Wrote db db' rows cited lost) (right : Wrote db db'' rows cited lost) :
    db' = db'' :=
  Database.ext (left.conversations.trans right.conversations.symm)
    (Table.ext (left.messages.trans right.messages.symm))
    (Table.ext (left.outbox.trans right.outbox.symm))
    (Table.ext (left.sidecar.trans right.sidecar.symm)) (left.plans.trans right.plans.symm)
    (left.chunks.trans right.chunks.symm)

theorem Wrote.source (wrote : Wrote db db' rows cited lost) (id : Text) :
    (db'.messages.find id).map Message.memorySourceId =
      (db.messages.find id).map Message.memorySourceId := by
  rw [Table.find, wrote.messages, List.find?_map, Option.map_map, Table.find]
  have keys : (fun m : Message => decide (m.id = id)) ∘
      (fun m => forgotten lost (recalled cited m)) = fun m => decide (m.id = id) := by
    funext m
    simp
  have sources : Message.memorySourceId ∘ (fun m => forgotten lost (recalled cited m)) =
      Message.memorySourceId := by
    funext m
    simp
  rw [keys, sources]

theorem Wrote.staged_iff (wrote : Wrote db db' rows cited lost) (v : ValidatedSidecarRecord) :
    Staged db' v ↔ Staged db v := by
  unfold Staged
  simp only [wrote.source]

theorem Wrote.trans_iff (first : Wrote db db' rows cited []) :
    Wrote db db'' rows' (cited ++ cited') [] ↔ Wrote db' db'' rows' cited' [] := by
  have messages : db'.messages.rows.map (fun m => forgotten [] (recalled cited' m)) =
      db.messages.rows.map fun m => forgotten [] (recalled (cited ++ cited') m) := by
    rw [first.messages, List.map_map]
    exact List.map_congr_left fun m _ => by simp [recalled_append]
  have outbox : db'.outbox.rows.map (ingested cited') =
      db.outbox.rows.map (ingested (cited ++ cited')) := by
    rw [first.outbox, List.map_map]
    exact List.map_congr_left fun o _ => by simp [ingested_append]
  exact ⟨fun wrote => ⟨wrote.sidecar, wrote.messages.trans messages.symm,
      wrote.outbox.trans outbox.symm, wrote.conversations.trans first.conversations.symm,
      wrote.plans.trans first.plans.symm, wrote.chunks.trans first.chunks.symm⟩,
    fun wrote => ⟨wrote.sidecar, wrote.messages.trans messages, wrote.outbox.trans outbox,
      wrote.conversations.trans first.conversations, wrote.plans.trans first.plans,
      wrote.chunks.trans first.chunks⟩⟩

end Wrote

private theorem map_eq_self_of {α : Type} {f : α → α} {l : List α} (same : ∀ a, f a = a) :
    l = l.map f := by
  rw [show f = id from funext same, List.map_id]

theorem rows_setEligible_true (messages : Table Message.id) (id : Text) :
    (setEligible messages id true).rows = messages.rows.map (recalled [id]) :=
  List.map_congr_left fun m _ => by simp [recalled]

theorem rows_setEligible_false (messages : Table Message.id) (id : Text) :
    (setEligible messages id false).rows = messages.rows.map (forgotten [id]) :=
  List.map_congr_left fun m _ => by simp [forgotten]

theorem insertRecord_of_staged {db : Database}
    (below : ∀ row ∈ db.sidecar.rows, row.sequence < v.sequence) (staged : Staged db v) :
    ∃ db', insertRecord db v = .ok db' ∧
      Wrote db db' (db.sidecar.rows ++ [v.row]) v.messageId.toList [] := by
  have fresh : db.sidecar.find v.row.sequence = none :=
    (db.sidecar.find_eq_none_iff).mpr fun row member => ne_of_lt (below row member)
  obtain ⟨sidecar, inserted, rows⟩ := db.sidecar.exists_insert fresh
  unfold insertRecord citeMessage
  rw [inserted]
  cases named : v.messageId with
  | none =>
    exact ⟨{ db with sidecar }, rfl, rows, map_eq_self_of (by simp), map_eq_self_of (by simp), rfl,
      rfl, rfl⟩
  | some id =>
    refine ⟨{ db with
      sidecar
      outbox := setState db.outbox (.ofString "ingest:" ++ id) "memory_committed"
      messages := setEligible db.messages id true }, ?_, rows, ?_, ?_, rfl, rfl, rfl⟩
    · simp only [orThrow, ok_bind]
      rw [require_of (staged id named)]
      rfl
    · exact (rows_setEligible_true db.messages id).trans
        (List.map_congr_left fun m _ => by simp)
    · exact List.map_congr_left fun o _ => by simp [ingested]

theorem staged_of_insertRecord {db db' : Database} (inserted : insertRecord db v = .ok db') :
    Staged db v := by
  intro id named
  unfold insertRecord citeMessage at inserted
  rw [named] at inserted
  simp only [bind_eq_ok, require_eq_ok] at inserted
  obtain ⟨_, -, -, source, -⟩ := inserted
  exact source

theorem insertRecords_eq_ok {db db' : Database} (below : ∀ row ∈ db.sidecar.rows, row.sequence ≤ n)
    (chained : Chained c n previous (vs.map ValidatedSidecarRecord.row)) :
    vs.foldlM insertRecord db = .ok db' ↔ (∀ v ∈ vs, Staged db v) ∧
      Wrote db db' (db.sidecar.rows ++ vs.map ValidatedSidecarRecord.row)
        (vs.filterMap messageId) [] := by
  induction vs generalizing db n previous with
  | nil =>
    have kept : Wrote db db (db.sidecar.rows ++ []) [] [] :=
      ⟨by simp, map_eq_self_of (by simp), map_eq_self_of (by simp), rfl, rfl, rfl⟩
    constructor
    · rintro ⟨⟩
      exact ⟨nofun, kept⟩
    · rintro ⟨-, wrote⟩
      exact congrArg Except.ok (kept.unique wrote)
  | cons v vs ih =>
    have place : v.sequence = n + 1 := by
      obtain ⟨⟨v', valid, same⟩, -⟩ := chained
      have place : v'.sequence = v.sequence := congrArg SidecarRow.sequence same
      rw [← place]
      exact (fields_of_validate valid).1
    have first : ∀ row ∈ db.sidecar.rows, row.sequence < v.sequence := fun row member => by
      have := below row member
      omega
    have messages : (v :: vs).filterMap messageId =
        v.messageId.toList ++ vs.filterMap messageId := by
      cases named : v.messageId <;> simp [named]
    rw [List.foldlM_cons, bind_eq_ok, messages]
    have step {db₁ : Database} (wrote : Wrote db db₁ (db.sidecar.rows ++ [v.row])
        v.messageId.toList []) :
        vs.foldlM insertRecord db₁ = .ok db' ↔ (∀ v ∈ vs, Staged db v) ∧
          Wrote db₁ db' (db.sidecar.rows ++ (v :: vs).map ValidatedSidecarRecord.row)
            (vs.filterMap messageId) [] := by
      have behind : ∀ row ∈ db₁.sidecar.rows, row.sequence ≤ n + 1 := by
        intro row member
        rw [wrote.sidecar, List.mem_append, List.mem_singleton] at member
        rcases member with old | rfl
        · exact Nat.le_succ_of_le (below row old)
        · exact le_of_eq place
      rw [ih behind chained.2, wrote.sidecar, List.append_assoc]
      simp only [wrote.staged_iff]
      rfl
    constructor
    · rintro ⟨db₁, inserted, later⟩
      have staged := staged_of_insertRecord inserted
      obtain ⟨db₂, inserted', wrote⟩ := insertRecord_of_staged first staged
      obtain rfl := Except.ok.inj (inserted.symm.trans inserted')
      obtain ⟨others, wrote'⟩ := (step wrote).mp later
      exact ⟨List.forall_mem_cons.mpr ⟨staged, others⟩, wrote.trans_iff.mpr wrote'⟩
    · rintro ⟨staged, wrote⟩
      obtain ⟨staged, others⟩ := List.forall_mem_cons.mp staged
      obtain ⟨db₁, inserted, first'⟩ := insertRecord_of_staged first staged
      exact ⟨db₁, inserted, (step first').mpr ⟨others, first'.trans_iff.mp wrote⟩⟩

theorem rows_forget (messages : Table Message.id) (ids : List Text) :
    (ids.foldl (fun messages id => setEligible messages id false) messages).rows =
      messages.rows.map (forgotten ids) := by
  induction ids generalizing messages with
  | nil => exact map_eq_self_of (by simp)
  | cons id ids ih =>
    rw [List.foldl_cons, ih, rows_setEligible_false, List.map_map]
    exact List.map_congr_left fun m _ => (forgotten_cons id ids m).symm

def lostMessageIds (db : Database) (commonPrefix : Nat) (vs : List ValidatedSidecarRecord) :
    List Text :=
  (removedMessageIds db commonPrefix).filter fun id =>
    id ∉ vs.filterMap messageId

/-- A replacement goes through when its guard holds, its records are checked behind the prefix and
their messages are staged; the table is then the prefix and the new records. -/
theorem replaceRecords_eq_ok {db db' : Database} (chain : db.Chain c) :
    replaceRecords c db p digest records = .ok db' ↔ ∃ vs, Guarded c db p digest ∧
      validateRecords c p (lastDigest firstDigest (db.sidecar.rows.take p)) records = .ok vs ∧
      (∀ v ∈ vs, Staged db v) ∧
      Wrote db db' (db.sidecar.rows.take p ++ vs.map ValidatedSidecarRecord.row)
        (vs.filterMap messageId) (lostMessageIds db p vs) := by
  unfold replaceRecords
  simp only [bind_eq_ok, require_eq_ok, pure_eq_ok]
  have rows : (db.sidecar.delete fun row => decide (p < row.sequence)).rows =
      db.sidecar.rows.take p := by
    rw [← Chained.filter_le chain]
    exact List.filter_congr fun row _ => by simp [← decide_not]
  have below : ∀ row ∈ (db.sidecar.delete fun row => decide (p < row.sequence)).rows,
      row.sequence ≤ p := by
    intro row member
    rw [rows] at member
    have above := (Chained.above (Chained.take chain p) member).2
    have length := List.length_take_le p db.sidecar.rows
    omega
  have settle {vs : List ValidatedSidecarRecord} {inserted : Database}
      (wrote : Wrote { db with sidecar := db.sidecar.delete fun row => decide (p < row.sequence) }
        inserted (db.sidecar.rows.take p ++ vs.map ValidatedSidecarRecord.row)
        (vs.filterMap messageId) []) :
      Wrote db { inserted with
        messages := (lostMessageIds db p vs).foldl
          (fun messages id => setEligible messages id false) inserted.messages }
        (db.sidecar.rows.take p ++ vs.map ValidatedSidecarRecord.row)
        (vs.filterMap messageId) (lostMessageIds db p vs) := by
    refine ⟨wrote.sidecar, ?_, wrote.outbox, wrote.conversations, wrote.plans, wrote.chunks⟩
    rw [rows_forget, wrote.messages, List.map_map]
    exact List.map_congr_left fun m _ => by simp
  constructor
  · rintro ⟨-, within, previous, guard, vs, valid, inserted, through, rfl⟩
    obtain ⟨guarded, rfl⟩ := (previousDigest_eq_ok chain within).mp guard
    obtain ⟨staged, wrote⟩ :=
      (insertRecords_eq_ok below (chained_of_validateRecords valid).2).mp through
    rw [rows] at wrote
    exact ⟨vs, guarded, valid, staged, settle wrote⟩
  · rintro ⟨vs, guarded, valid, staged, wrote⟩
    have chained := (chained_of_validateRecords valid).2
    have guard := (previousDigest_eq_ok chain guarded.1).mpr ⟨guarded, rfl⟩
    let cited := vs.filterMap messageId
    let inserted : Database :=
      { db' with messages := db.messages.update (recalled cited) (id_recalled cited) }
    have inner : Wrote { db with sidecar := db.sidecar.delete fun row => decide (p < row.sequence) }
        inserted (db.sidecar.rows.take p ++ vs.map ValidatedSidecarRecord.row) cited [] :=
      ⟨wrote.sidecar, List.map_congr_left fun m _ => by simp, wrote.outbox, wrote.conversations,
        wrote.plans, wrote.chunks⟩
    rw [← rows] at inner
    have through := (@insertRecords_eq_ok c _ p vs { db with sidecar := _ } inserted below
      chained).mpr ⟨staged, inner⟩
    rw [rows] at inner
    exact ⟨(), guarded.1, _, guard, vs, valid, inserted, through, (settle inner).unique wrote⟩

theorem exists_replaceRecords {db : Database} (chain : db.Chain c) (guarded : Guarded c db p digest)
    (valid : validateRecords c p (lastDigest firstDigest (db.sidecar.rows.take p)) records = .ok vs)
    (staged : ∀ v ∈ vs, Staged db v) : ∃ db', replaceRecords c db p digest records = .ok db' := by
  have chained : Chained c 0 firstDigest
      (db.sidecar.rows.take p ++ vs.map ValidatedSidecarRecord.row) := by
    rw [chained_append, List.length_take_of_le guarded.1, Nat.zero_add]
    exact ⟨Chained.take chain p, (chained_of_validateRecords valid).2⟩
  have distinct : ((db.sidecar.rows.take p ++ vs.map ValidatedSidecarRecord.row).map
      SidecarRow.sequence).Nodup := by
    rw [chained.sequences]
    exact List.nodup_range'
  let cited := vs.filterMap messageId
  let db' : Database := { db with
    sidecar := ⟨_, distinct⟩
    messages := (db.messages.update (recalled cited) (id_recalled cited)).update
      (forgotten (lostMessageIds db p vs)) (id_forgotten _)
    outbox := db.outbox.update (ingested cited) (id_ingested cited) }
  have wrote : Wrote db db' (db.sidecar.rows.take p ++ vs.map ValidatedSidecarRecord.row) cited
      (lostMessageIds db p vs) :=
    ⟨rfl, List.map_map, rfl, rfl, rfl, rfl⟩
  exact ⟨db', (replaceRecords_eq_ok chain).mpr ⟨vs, guarded, valid, staged, wrote⟩⟩

/-- What a replacement leaves of the table, in the terms of its records. -/
structure Replaced (c : Crypto) (db db' : Database) (commonPrefix : Nat)
    (records : List Bytes) : Prop where
  chain : db'.Chain c
  payloads : db'.payloads = db.payloads.take commonPrefix ++ records
  conversations : db'.conversations = db.conversations
  plans : db'.plans = db.plans
  chunks : db'.chunks = db.chunks

theorem replaced_of_replaceRecords {db db' : Database} (chain : db.Chain c)
    (replaced : replaceRecords c db p digest records = .ok db') :
    Guarded c db p digest ∧ Replaced c db db' p records := by
  obtain ⟨vs, guarded, valid, -, wrote⟩ := (replaceRecords_eq_ok chain).mp replaced
  obtain ⟨payloads, chained⟩ := chained_of_validateRecords valid
  refine ⟨guarded, ?_, ?_, wrote.conversations, wrote.plans, wrote.chunks⟩
  · unfold Database.Chain
    rw [wrote.sidecar, chained_append, List.length_take_of_le guarded.1, Nat.zero_add]
    exact ⟨Chained.take chain p, chained⟩
  · have held : (vs.map ValidatedSidecarRecord.row).map SidecarRow.canonicalPayload = records := by
      rw [List.map_map, ← payloads]
      rfl
    rw [Database.payloads, wrote.sidecar, List.map_append, held, List.map_take]
    rfl

end ProofRay.Host
