/- What a fresh store loads of a table that acknowledged replacements built: the last records, when
   each page of them fits a frame. -/

import ProofRay.Host.Frames
import ProofRay.Host.Written

namespace ProofRay.Host

open Engine (Bytes Crypto stdCrypto)
open Lib (Json Machine Table)
open Lib.Guard
open Sidecar (SidecarRecord isSha256 noteLedger noteAuthority)
open Lib.Base64 (encode)
open Lib.Json (compact number quote)

variable {c : Crypto} {token : Token}

def Roomy (records : List Bytes) : Prop :=
  ∀ k, pageSize * k ≤ records.length →
    loadBytes (pageSize * k) ≤ maxFrameBytes ∧
      pageBytes ((records.drop (pageSize * k)).take pageSize) ≤ maxFrameBytes

theorem allFit_iff_roomy (token : Token) (records : List Bytes) :
    AllFit token records 0 ↔ Roomy records := by
  simp only [AllFit, Fits, Roomy, Nat.zero_add, length_loadRequest, length_pageResponse]

theorem load_of_chain {db : Database} (chain : db.Chain c) (token : Token) :
    (Roomy db.payloads ∧ load c token db none = .ok db.payloads) ∨
      (¬Roomy db.payloads ∧ ∃ failure, load c token db none = .error failure) := by
  have enough : db.payloads.length - 0 < db.sidecar.rows.length + 1 := by
    simp [Database.payloads]
  have loaded := loadPages_of_fits chain token (Nat.zero_le _) enough
  rwa [allFit_iff_roomy, List.drop_zero] at loaded

/-- No replacement is staged. -/
structure Quiet (db : Database) : Prop where
  plans : db.plans.rows = []
  chunks : db.chunks.rows = []

/-- What a call finds: a chain with nothing staged, and a view that is the table. -/
structure Held (c : Crypto) (db : Database) (view : Option (List Bytes)) : Prop where
  chain : db.Chain c
  quiet : Quiet db
  view : ∀ records, view = some records → records = db.payloads

/-- What is staged between two requests of an exchange: its plan and some of its chunks. -/
structure Exchanging (before db : Database) (plan : ReplacementPlan)
    (parts : List (List (List Char))) : Prop where
  plans : ∀ row ∈ db.plans.rows, row = plan
  chunks : ∀ chunk ∈ db.chunks.rows, chunk.transactionId = plan.transactionId ∧
    parts[chunk.chunkIndex]? = some chunk.encodedRecords
  sidecar : db.sidecar = before.sidecar

variable {db db' : Database} {parts : List (List (List Char))} {plan : ReplacementPlan}
  {response : HostResponse} {records : List Bytes}

variable {request : HostRequest}

theorem handle_of_callHost (called : callHost c token db request = (.ok response, db')) :
    handleHostRequest c db request = .ok (response, db') := by
  unfold callHost at called
  by_cases fits : (requestFrame token request).length ≤ maxFrameBytes
  · rw [if_pos fits] at called
    cases handled : handleHostRequest c db request with
    | error refusal =>
      rw [handled] at called
      cases called
    | ok answer =>
      rw [handled] at called
      obtain ⟨response', after⟩ := answer
      dsimp only at called
      by_cases fits' : (responseFrame token response').length ≤ maxFrameBytes
      · rw [if_pos fits'] at called
        cases called
        rfl
      · rw [if_neg fits'] at called
        cases called
  · rw [if_neg fits] at called
    cases called

theorem callAll_cons {requests : List HostRequest} :
    callAll c token db (request :: requests) = (.ok (), db') ↔
      ∃ response middle, callHost c token db request = (.ok response, middle) ∧
        callAll c token middle requests = (.ok (), db') := by
  rw [callAll]
  rcases callHost c token db request with ⟨answer, middle⟩
  cases answer with
  | error failure => simp
  | ok response => simp

theorem callAll_append {requests requests' : List HostRequest} :
    callAll c token db (requests ++ requests') = (.ok (), db') ↔
      ∃ middle, callAll c token db requests = (.ok (), middle) ∧
        callAll c token middle requests' = (.ok (), db') := by
  induction requests generalizing db with
  | nil => simp [callAll]
  | cons request requests ih =>
    simp only [List.cons_append, callAll_cons, ih]
    constructor
    · rintro ⟨response, next, called, middle, first, second⟩
      exact ⟨middle, ⟨response, next, called, first⟩, second⟩
    · rintro ⟨middle, ⟨response, next, called, first⟩, second⟩
      exact ⟨response, next, called, middle, first, second⟩

theorem Exchanging.chunk {before db db' : Database} {plan : ReplacementPlan}
    {parts : List (List (List Char))} (exchanging : Exchanging before db plan parts)
    {part : List (List Char)} {i : Nat} (place : parts[i]? = some part) {response : HostResponse}
    (called : callHost c token db (.replaceChunk ⟨plan.transactionId, i, part⟩) =
      (.ok response, db')) : Exchanging before db' plan parts := by
  have handled := handle_of_callHost called
  simp only [handleHostRequest, stageSidecarReplacementChunk, bind_eq_ok, require_eq_ok,
    pure_eq_ok, Prod.mk.injEq] at handled
  obtain ⟨after, ⟨-, -, settled⟩, -, rfl⟩ := handled
  obtain ⟨rest, chunks⟩ := settleChunk_eq_ok settled
  refine ⟨?_, fun chunk member => ?_, ?_⟩
  · rw [rest]
    exact exchanging.plans
  · rcases chunks chunk member with old | rfl
    · exact exchanging.chunks chunk old
    · exact ⟨rfl, place⟩
  · rw [rest]
    exact exchanging.sidecar

theorem Exchanging.chunks_all {before db db' : Database} {plan : ReplacementPlan}
    {parts : List (List (List Char))} (exchanging : Exchanging before db plan parts)
    {pieces : List (List (List Char) × Nat)}
    (places : ∀ piece ∈ pieces, parts[piece.2]? = some piece.1)
    (called : callAll c token db
      (pieces.map fun piece => .replaceChunk ⟨plan.transactionId, piece.2, piece.1⟩) =
        (.ok (), db')) : Exchanging before db' plan parts := by
  induction pieces generalizing db with
  | nil =>
    cases called
    exact exchanging
  | cons piece pieces ih =>
    obtain ⟨response, middle, first, later⟩ := callAll_cons.mp called
    obtain ⟨place, places⟩ := List.forall_mem_cons.mp places
    exact ih (exchanging.chunk place first) places later

theorem Exchanging.agrees {before db : Database} (exchanging : Exchanging before db plan parts) :
    Agrees db plan parts :=
  ⟨fun row member _ => exchanging.plans row member,
    fun chunk member _ => (exchanging.chunks chunk member).2⟩

theorem Exchanging.commit {before db db' : Database} (exchanging : Exchanging before db plan parts)
    (chain : before.Chain c) (filled : ∀ part ∈ parts, part ≠ [])
    (total : plan.totalRecords = parts.flatten.length) (joined : parts.flatten = records.map encode)
    (called : callHost c token db (.replaceCommit plan.transactionId) = (.ok response, db')) :
    db'.Chain c ∧ Quiet db' ∧ db'.payloads = before.payloads.take plan.commonPrefix ++ records := by
  have handled := handle_of_callHost called
  simp only [handleHostRequest, commitSidecarReplacement, bind_eq_ok, pure_eq_ok,
    Prod.mk.injEq] at handled
  obtain ⟨after, ⟨⟨other, encoded⟩, read, replaced, committed, rfl⟩, -, rfl⟩ := handled
  obtain ⟨rfl, rfl⟩ := stagedReplacement_of_agrees exchanging.agrees filled total read
  rw [joined, replaceSidecarSuffix_encode] at committed
  have chain' : db.Chain c := by
    unfold Database.Chain
    rw [exchanging.sidecar]
    exact chain
  obtain ⟨-, done⟩ := replaced_of_replaceRecords chain' committed
  refine ⟨done.chain, ⟨?_, ?_⟩, ?_⟩
  · refine List.eq_nil_iff_forall_not_mem.mpr fun row member => ?_
    obtain ⟨there, other⟩ := (Table.mem_delete _).mp member
    rw [done.plans] at there
    rw [exchanging.plans row there] at other
    simp at other
  · refine List.eq_nil_iff_forall_not_mem.mpr fun chunk member => ?_
    obtain ⟨there, other⟩ := (Table.mem_delete _).mp member
    rw [done.chunks] at there
    simp [(exchanging.chunks chunk there).1] at other
  · show replaced.payloads = _
    rw [done.payloads, Database.payloads, exchanging.sidecar]
    rfl

theorem held_of_exchange {current records : List Bytes} (held : Held c db (some current))
    (raised : (exchange c current records).raises = none)
    (called : callAll c token db (exchange c current records).requests = (.ok (), db')) :
    Held c db' (some records) := by
  have view := held.view current rfl
  obtain ⟨within, shared⟩ := commonPrefix_spec current records
  have whole : db.payloads.take (commonPrefix current records) ++
      records.drop (commonPrefix current records) = records := by
    rw [← view, ← shared, List.take_append_drop]
  unfold exchange at raised called
  dsimp only at raised called
  split at called
  · obtain ⟨response, after, first, last⟩ := callAll_cons.mp called
    cases last
    have handled := handle_of_callHost first
    simp only [handleHostRequest, replaceSidecarSuffix_encode, bind_eq_ok, pure_eq_ok,
      Prod.mk.injEq] at handled
    obtain ⟨after, replaced, -, rfl⟩ := handled
    obtain ⟨-, done⟩ := replaced_of_replaceRecords held.chain replaced
    refine ⟨done.chain, ⟨?_, ?_⟩, fun records same => ?_⟩
    · rw [done.plans, held.quiet.plans]
    · rw [done.chunks, held.quiet.chunks]
    · cases same
      rw [done.payloads, whole]
  · rename_i large
    rw [if_neg large] at raised
    cases cut : chunks [] 0 ((records.drop (commonPrefix current records)).map encode) with
    | none =>
      rw [cut] at raised
      cases raised
    | some parts =>
      rw [cut] at called
      obtain ⟨joined, filled⟩ := chunks_spec cut
      rw [List.nil_append] at joined
      dsimp only at called
      generalize id : transactionId c _ _ _ = transaction at called
      rw [List.cons_append] at called
      obtain ⟨response, begun, first, later⟩ := callAll_cons.mp called
      obtain ⟨staged, chunked, last⟩ := callAll_append.mp later
      obtain ⟨answer, after, committed, done⟩ := callAll_cons.mp last
      cases done
      have handled := handle_of_callHost first
      simp only [handleHostRequest, beginSidecarReplacement, bind_eq_ok, require_eq_ok,
        pure_eq_ok, Prod.mk.injEq] at handled
      obtain ⟨begun, ⟨-, -, settled⟩, -, rfl⟩ := handled
      obtain ⟨rest, plans⟩ := settlePlan_eq_ok settled
      have opened : Exchanging db begun ⟨transaction, commonPrefix current records,
          prefixDigest c current (commonPrefix current records),
          ((records.drop (commonPrefix current records)).map encode).length⟩ parts := by
        refine ⟨fun row member => ?_, ?_, by rw [rest]⟩
        · have there := plans row member
          rw [held.quiet.plans] at there
          simpa using there
        · rw [rest]
          simp [held.quiet.chunks]
      have places : ∀ piece ∈ parts.zipIdx, parts[piece.2]? = some piece.1 := fun piece member =>
        List.mem_zipIdx_iff_getElem?.mp member
      obtain ⟨chain, quiet, payloads⟩ := (opened.chunks_all places chunked).commit held.chain
        filled (by rw [joined]) joined committed
      refine ⟨chain, quiet, fun records same => ?_⟩
      cases same
      rw [payloads, whole]

theorem held_of_replace {view view' : Option (List Bytes)} (held : Held c db view)
    (acknowledged : replace c token db view records = (.ok (), db', view')) :
    Held c db' view' ∧ view' = some records := by
  unfold replace at acknowledged
  cases loaded : load c token db view with
  | error failure =>
    rw [loaded] at acknowledged
    cases acknowledged
  | ok current =>
    rw [loaded] at acknowledged
    dsimp only at acknowledged
    have same : current = db.payloads := by
      cases view with
      | some records' =>
        cases loaded
        exact held.view current rfl
      | none =>
        rcases load_of_chain held.chain token with ⟨-, fresh⟩ | ⟨-, failure, failed⟩
        · exact Except.ok.inj (loaded.symm.trans fresh)
        · cases loaded.symm.trans failed
    have fresh : Held c db (some current) :=
      ⟨held.chain, held.quiet, fun records known => by cases known; exact same⟩
    rcases called : callAll c token db (exchange c current records).requests with ⟨answer, after⟩
    rw [called] at acknowledged
    cases answer with
    | error failure => cases acknowledged
    | ok done =>
      cases raised : (exchange c current records).raises with
      | some message =>
        rw [raised] at acknowledged
        cases acknowledged
      | none =>
        rw [raised] at acknowledged
        cases acknowledged
        exact ⟨held_of_exchange fresh raised called, rfl⟩

/-- What happens to a store and its database: a replacement, with the request ids it draws, a new
store on the same table, and statements of the app on the other tables. -/
inductive StoreEvent where
  | replace (token : Token) (records : List Bytes)
  | restart
  | work (conversations : Table Conversation.id) (messages : Table Message.id)
      (outbox : Table OutboxOperation.id)

/-- A database and the view of the store on it. -/
structure StoreState where
  db : Database
  view : Option (List Bytes)

def StoreState.new : StoreState := ⟨.empty, none⟩

def storeMachine (c : Crypto) : Machine StoreState StoreEvent (Except CallFailure Unit) where
  step s
    | .replace token records =>
      let (answer, db, view) := replace c token s.db s.view records
      some (⟨db, view⟩, answer)
    | .restart => some ({ s with view := none }, .ok ())
    | .work conversations messages outbox =>
      some ({ s with db := { s.db with conversations, messages, outbox } }, .ok ())

def lastReplaced (records : List Bytes) : List StoreEvent → List Bytes
  | [] => records
  | .replace _ records :: events => lastReplaced records events
  | _ :: events => lastReplaced records events

variable {s s' : StoreState}

theorem held_of_step {event : StoreEvent} (held : Held c s.db s.view)
    (stepped : (storeMachine c).step s event = some (s', .ok ())) :
    Held c s'.db s'.view ∧ s'.db.payloads = lastReplaced s.db.payloads [event] := by
  cases event with
  | replace token records =>
    rcases replaced : replace c token s.db s.view records with ⟨answer, db, view⟩
    simp only [storeMachine, replaced, Option.some.injEq, Prod.mk.injEq] at stepped
    obtain ⟨rfl, rfl⟩ := stepped
    obtain ⟨after, rfl⟩ := held_of_replace held replaced
    exact ⟨after, (after.view records rfl).symm⟩
  | restart =>
    cases stepped
    exact ⟨⟨held.chain, held.quiet, nofun⟩, rfl⟩
  | work conversations messages outbox =>
    cases stepped
    exact ⟨⟨held.chain, ⟨held.quiet.plans, held.quiet.chunks⟩, held.view⟩, rfl⟩

theorem lastReplaced_cons (records : List Bytes) (event : StoreEvent) (events : List StoreEvent) :
    lastReplaced records (event :: events) =
      lastReplaced (lastReplaced records [event]) events := by
  cases event <;> rfl

theorem held_of_run {events : List StoreEvent} {reports : List (Except CallFailure Unit)}
    (held : Held c s.db s.view) (ran : (storeMachine c).run s events = some (s', reports))
    (acknowledged : ∀ report ∈ reports, report = .ok ()) :
    Held c s'.db s'.view ∧ s'.db.payloads = lastReplaced s.db.payloads events := by
  induction events generalizing s reports with
  | nil =>
    cases ran
    exact ⟨held, rfl⟩
  | cons event events ih =>
    obtain ⟨next, report, rest, stepped, onward, rfl⟩ := (storeMachine c).run_cons_eq_some.mp ran
    obtain ⟨rfl, later⟩ := List.forall_mem_cons.mp acknowledged
    obtain ⟨held', payloads⟩ := held_of_step held stepped
    rw [lastReplaced_cons, ← payloads]
    exact ih held' onward later

theorem held_new (c : Crypto) : Held c StoreState.new.db StoreState.new.view :=
  ⟨trivial, ⟨rfl, rfl⟩, nofun⟩

/-- After any run of acknowledged replacements a fresh store loads the last records exactly when
each page of them fits a frame, and fails when one does not. -/
theorem load_of_acknowledged_iff (c : Crypto) (token : Token) {s : StoreState}
    {events : List StoreEvent} {reports : List (Except CallFailure Unit)}
    (ran : (storeMachine c).run .new events = some (s, reports))
    (acknowledged : ∀ report ∈ reports, report = .ok ()) :
    (load c token s.db none = .ok (lastReplaced [] events) ↔ Roomy (lastReplaced [] events)) ∧
      (¬Roomy (lastReplaced [] events) → ∃ failure, load c token s.db none = .error failure) := by
  obtain ⟨held, payloads⟩ := held_of_run (held_new c) ran acknowledged
  have last : s.db.payloads = lastReplaced [] events := payloads
  rw [← last]
  rcases load_of_chain held.chain token with ⟨roomy, loaded⟩ | ⟨full, failure, failed⟩
  · exact ⟨⟨fun _ => roomy, fun _ => loaded⟩, fun full => absurd roomy full⟩
  · refine ⟨⟨fun loaded => ?_, fun roomy => absurd roomy full⟩, fun _ => ⟨failure, failed⟩⟩
    cases failed.symm.trans loaded

theorem commonPrefix_append (l l' : List Bytes) : commonPrefix l (l ++ l') = l.length := by
  induction l with
  | nil => cases l' <;> rfl
  | cons a l ih => rw [List.cons_append, commonPrefix, if_pos rfl, ih, List.length_cons]

theorem guarded_prefixDigest (db : Database) : Guarded c db db.sidecar.rows.length
    (prefixDigest c db.payloads db.sidecar.rows.length) := by
  refine ⟨le_rfl, ?_⟩
  generalize length : db.sidecar.rows.length = p
  cases p with
  | zero => rfl
  | succ p =>
    have inside : p < db.sidecar.rows.length := by omega
    refine ⟨db.sidecar.rows[p], List.getElem?_eq_getElem inside, ?_⟩
    have there : db.payloads[p]? = some db.sidecar.rows[p].canonicalPayload := by
      rw [Database.payloads, List.getElem?_map, List.getElem?_eq_getElem inside, Option.map_some]
    rw [prefixDigest, there, Option.getD_some]

theorem quote_prefixDigest (c : Crypto) (current : List Bytes) (p : Nat) :
    Ascii (quote (prefixDigest c current p)) ∧ (quote (prefixDigest c current p)).length ≤ 66 := by
  cases p with
  | zero =>
    show Ascii (quote "") ∧ (quote "").length ≤ 66
    decide
  | succ p =>
    obtain ⟨ascii, length⟩ :=
      quote_of_isSha256 (Sidecar.isSha256_hexSha256 c ((current[p]?).getD []))
    exact ⟨ascii, le_of_eq length⟩

theorem exists_replace {db : Database} {view : Option (List Bytes)} {rs : List SidecarRecord}
    {r : SidecarRecord} (chain : db.Chain c) (loaded : load c token db view = .ok db.payloads)
    (payloads : db.payloads = rs.map SidecarRecord.bytes)
    (chained : Sidecar.Chained c 1 Sidecar.genesis (rs ++ [r]))
    (ints : ∀ r' ∈ rs ++ [r], r'.json.Ints InInt64) (unnamed : (validated r).messageId = none)
    (small : 4 * ((r.bytes.length + 2) / 3) ≤ directSuffixBase64Bytes)
    (few : (number rs.length).length ≤ 400000) :
    ∃ db', replace c token db view ((rs ++ [r]).map SidecarRecord.bytes) =
      (.ok (), db', some ((rs ++ [r]).map SidecarRecord.bytes)) := by
  have count : db.sidecar.rows.length = rs.length := by
    have lengths := congrArg List.length payloads
    simpa [Database.payloads] using lengths
  have records : (rs ++ [r]).map SidecarRecord.bytes = db.payloads ++ [r.bytes] := by
    rw [payloads, List.map_append]
    rfl
  have valid := validateRecords_behind chain chained ints
    (by rw [← payloads, ← count]; exact List.take_of_length_le (by simp [Database.payloads]))
    (le_of_eq count.symm)
  have guarded := guarded_prefixDigest (c := c) db
  rw [count] at guarded
  obtain ⟨db', replaced⟩ := exists_replaceRecords chain guarded valid fun v member id named => by
    obtain rfl := List.mem_singleton.mp member
    rw [unnamed] at named
    cases named
  obtain ⟨ascii, digest⟩ := quote_prefixDigest c db.payloads rs.length
  have asked : (requestFrame token (.replaceSuffix rs.length (prefixDigest c db.payloads rs.length)
      ([r.bytes].map encode))).length ≤ maxFrameBytes := by
    rw [length_suffixRequest token _ ascii]
    have bytes : recordsBytes [r.bytes] = 4 * ((r.bytes.length + 2) / 3) + 4 := by
      simp [recordsBytes]
    unfold suffixBytes maxFrameBytes
    unfold directSuffixBase64Bytes at small
    omega
  have answered : (responseFrame token .committed).length ≤ maxFrameBytes := by
    have ascii : Ascii (compact HostResponse.committed.payload) := by decide
    rw [length_responseFrame token ascii]
    decide
  refine ⟨db', ?_⟩
  have exchanged : exchange c db.payloads (db.payloads ++ [r.bytes]) =
      ⟨[.replaceSuffix rs.length (prefixDigest c db.payloads rs.length)
        ([r.bytes].map encode)], none⟩ := by
    have shared : commonPrefix db.payloads (db.payloads ++ [r.bytes]) = rs.length := by
      rw [commonPrefix_append, payloads, List.length_map]
    have behind : (db.payloads ++ [r.bytes]).drop rs.length = [r.bytes] := by
      have length : rs.length = (rs.map SidecarRecord.bytes).length := List.length_map _ |>.symm
      rw [payloads, length, List.drop_left]
    unfold exchange
    simp only [shared, behind]
    rw [if_pos (by simpa [Lib.Base64.length_encode] using small)]
  have called : callHost c token db (.replaceSuffix rs.length
      (prefixDigest c db.payloads rs.length) ([r.bytes].map encode)) =
        (.ok .committed, db') := by
    unfold callHost
    rw [if_pos asked, handleHostRequest, replaceSidecarSuffix_encode]
    rw [List.map_singleton] at replaced
    rw [replaced]
    exact if_pos answered
  rw [replace, loaded, records]
  simp only [exchanged, callAll, called]

/-- A batch with a text of `n` letters. -/
def longBatch (n : Nat) : Sidecar.CausalAdapterBatch Unit :=
  ⟨"doc", String.ofList (List.replicate n 'x'), "s", []⟩

def longRecord (c : Crypto) (after : List SidecarRecord) (n : Nat) : SidecarRecord :=
  noteLedger.newRecord c after noteAuthority (longBatch n) ⟨[], []⟩

theorem ints_longRecord (c : Crypto) (after : List SidecarRecord) (n : Nat)
    (few : after.length < 100) : (longRecord c after n).json.Ints InInt64 := by
  have place : InInt64 ((after.length : Int) + 1) := by
    constructor <;> omega
  simp [longRecord, Sidecar.DurableAuthorizedSidecarMemory.newRecord, SidecarRecord.signed,
    SidecarRecord.json, Json.Ints, place]

private theorem recordKeys : (Ascii (quote "adapter_id") ∧
      Ascii (quote "authority_sha256") ∧ Ascii (quote "completeness_claims") ∧
      Ascii (quote "content") ∧ Ascii (quote "facts") ∧
      Ascii (quote "previous_sha256") ∧ Ascii (quote "record_sha256") ∧
      Ascii (quote "schema") ∧ Ascii (quote "scope") ∧ Ascii (quote "sequence") ∧
      Ascii (quote "source_id") ∧ Ascii (quote "source_sha256")) ∧
    ((quote "adapter_id").length = 12 ∧ (quote "authority_sha256").length = 18 ∧
      (quote "completeness_claims").length = 21 ∧ (quote "content").length = 9 ∧
      (quote "facts").length = 7 ∧ (quote "previous_sha256").length = 17 ∧
      (quote "record_sha256").length = 15 ∧ (quote "schema").length = 8 ∧
      (quote "scope").length = 7 ∧ (quote "sequence").length = 10 ∧
      (quote "source_id").length = 11 ∧ (quote "source_sha256").length = 15) := by
  decide

private theorem noteValues : (Ascii (quote "notes") ∧
      Ascii (quote SidecarRecord.schema) ∧ Ascii (quote "s") ∧
      Ascii (quote "doc")) ∧
    ((quote "notes").length = 7 ∧ (quote SidecarRecord.schema).length = 37 ∧
      (quote "s").length = 3 ∧ (quote "doc").length = 5) := by
  decide

theorem length_longRecord (c : Crypto) (after : List SidecarRecord) (n : Nat)
    (digest : isSha256 (Sidecar.ledgerHead after) = true) :
    (longRecord c after n).bytes.length = 497 + n + (number (after.length + 1 : Nat)).length := by
  have json : (longRecord c after n).json = .obj [
      ("adapter_id", .str "notes"),
      ("authority_sha256", .str (noteAuthority.sha256 c)),
      ("completeness_claims", .arr []),
      ("content", .str (String.ofList (List.replicate n 'x'))),
      ("facts", .arr []),
      ("previous_sha256", .str (Sidecar.ledgerHead after)),
      ("record_sha256", .str (longRecord c after n).recordSha256),
      ("schema", .str SidecarRecord.schema),
      ("scope", .str "s"),
      ("sequence", .int (after.length + 1 : Nat)),
      ("source_id", .str "doc"),
      ("source_sha256", .str ((longBatch n).sourceSha256 c))] := rfl
  have content : Bare (List.replicate n 'x') := by
    refine bare_iff.mpr fun c member => ?_
    obtain rfl := List.eq_of_mem_replicate member
    decide
  have digests : isSha256 (noteAuthority.sha256 c) = true ∧
      isSha256 (longRecord c after n).recordSha256 = true ∧
      isSha256 ((longBatch n).sourceSha256 c) = true :=
    ⟨Sidecar.isSha256_digest c _ _, Sidecar.isSha256_hexSha256 c _, Sidecar.isSha256_hexSha256 c _⟩
  obtain ⟨authority, authority'⟩ := quote_of_isSha256 digests.1
  obtain ⟨previous, previous'⟩ := quote_of_isSha256 digest
  obtain ⟨record, record'⟩ := quote_of_isSha256 digests.2.1
  obtain ⟨source, source'⟩ := quote_of_isSha256 digests.2.2
  have place := ascii_number (after.length + 1)
  obtain ⟨keys, keys'⟩ := recordKeys
  obtain ⟨values, values'⟩ := noteValues
  have marks : '\x7b'.toNat < 128 ∧ '\x7d'.toNat < 128 ∧ ','.toNat < 128 ∧ ':'.toNat < 128 ∧
      Ascii ['[', ']'] := by decide
  rw [text_bytes, json, length_encode_of_ascii]
  · simp only [compact, Json.compactFields, List.length_append, List.length_cons,
      List.length_nil, authority', previous', record', source', keys', values',
      length_quote content, List.length_replicate]
    omega
  · simp only [compact, Json.compactFields, List.cons_append, ascii_cons, ascii_append,
      ascii_quote content, authority, previous, record, source, keys, values, marks, place,
      ascii_nil, and_self]

def zeroToken : Token :=
  ⟨List.replicate 32 '0', by decide, fun c member => by
    rw [List.eq_of_mem_replicate member]
    decide⟩

def longRecords (c : Crypto) (n : Nat) : List SidecarRecord :=
  [longRecord c [] n, longRecord c [longRecord c [] n] n]

def longEvents (c : Crypto) (n : Nat) : List StoreEvent :=
  [.replace zeroToken [(longRecord c [] n).bytes],
    .replace zeroToken ((longRecords c n).map SidecarRecord.bytes)]

theorem length_longRecords (c : Crypto) (n : Nat) :
    ∀ r ∈ longRecords c n, r.bytes.length = 498 + n := by
  have first := length_longRecord c [] n (by decide)
  have second := length_longRecord c [longRecord c [] n] n (Sidecar.isSha256_hexSha256 c _)
  have digits : (number (1 : Nat)).length = 1 ∧ (number (2 : Nat)).length = 1 := by
    decide
  have one : number (([] : List SidecarRecord).length + 1 : Nat) = number (1 : Nat) := rfl
  have two : number ([longRecord c [] n].length + 1 : Nat) = number (2 : Nat) := rfl
  rw [one, digits.1] at first
  rw [two, digits.2] at second
  simp only [longRecords, List.forall_mem_cons, first, second]
  refine ⟨by omega, by omega, nofun⟩

theorem roomy_of_short (short : records.length < pageSize)
    (fits : pageBytes records ≤ maxFrameBytes) : Roomy records := by
  intro k inside
  have zero : k = 0 := by
    rcases Nat.eq_zero_or_pos k with zero | positive
    · exact zero
    · have := Nat.le_mul_of_pos_right pageSize positive
      omega
  subst zero
  refine ⟨by decide, ?_⟩
  rw [Nat.mul_zero, List.drop_zero, List.take_of_length_le (le_of_lt short)]
  exact fits

theorem run_longEvents (c : Crypto) {n : Nat} (small : n ≤ 460000) : ∃ s,
    (storeMachine c).run .new (longEvents c n) = some (s, [.ok (), .ok ()]) := by
  have lengths := length_longRecords c n
  simp only [longRecords, List.forall_mem_cons] at lengths
  have bounded : 4 * ((498 + n + 2) / 3) ≤ directSuffixBase64Bytes := by
    unfold directSuffixBase64Bytes
    omega
  have unnamed (after : List SidecarRecord) :
      (validated (longRecord c after n)).messageId = none := by
    rw [messageId_validated, show (longRecord c after n).sourceId = "doc" from rfl,
      show messageParts (.ofString "doc") = none by decide, Option.map_none]
  have loaded : load c zeroToken Database.empty none = .ok [] := by
    have chain : Database.empty.Chain c := trivial
    have roomy : Roomy Database.empty.payloads := roomy_of_short (by decide) (by decide)
    rcases load_of_chain chain zeroToken with ⟨-, loaded⟩ | ⟨full, -⟩
    · exact loaded
    · exact absurd roomy full
  have chained : Sidecar.Chained c 1 Sidecar.genesis [longRecord c [] n] :=
    Sidecar.chained_newRecord noteLedger noteAuthority (longBatch n) ⟨[], []⟩
      (show Sidecar.Chained c 1 Sidecar.genesis [] from trivial)
  have chained' : Sidecar.Chained c 1 Sidecar.genesis (longRecords c n) :=
    Sidecar.chained_newRecord noteLedger noteAuthority (longBatch n) ⟨[], []⟩ chained
  obtain ⟨db, first⟩ : ∃ db, replace c zeroToken .empty none [(longRecord c [] n).bytes] =
      (.ok (), db, some [(longRecord c [] n).bytes]) :=
    @exists_replace c zeroToken .empty none [] _ trivial loaded rfl chained
      (List.forall_mem_singleton.mpr (ints_longRecord c [] n (by decide))) (unnamed [])
      (by rw [lengths.1]; exact bounded) (by decide)
  obtain ⟨held, -⟩ := held_of_replace (held_new c) first
  have payloads : db.payloads = [(longRecord c [] n).bytes] := (held.view _ rfl).symm
  have again : load c zeroToken db (some [(longRecord c [] n).bytes]) = .ok db.payloads := by
    rw [payloads]
    rfl
  obtain ⟨db', second⟩ : ∃ db', replace c zeroToken db (some [(longRecord c [] n).bytes])
      ((longRecords c n).map SidecarRecord.bytes) =
        (.ok (), db', some ((longRecords c n).map SidecarRecord.bytes)) :=
    @exists_replace c zeroToken db _ [longRecord c [] n] (longRecord c [longRecord c [] n] n)
      held.chain again payloads chained'
      (List.forall_mem_cons.mpr ⟨ints_longRecord c [] n (by decide),
        List.forall_mem_singleton.mpr (ints_longRecord c _ n (Nat.lt_of_sub_eq_succ rfl))⟩)
      (unnamed _) (by rw [lengths.2.1]; exact bounded)
      (show (number (1 : Nat)).length ≤ 400000 by decide)
  refine ⟨⟨db', some ((longRecords c n).map SidecarRecord.bytes)⟩, ?_⟩
  refine ((storeMachine c).run_cons_eq_some).mpr
    ⟨⟨db, some [(longRecord c [] n).bytes]⟩, .ok (), [.ok ()], ?_, ?_, rfl⟩
  · simp only [storeMachine, StoreState.new]
    rw [first]
  · refine ((storeMachine c).run_cons_eq_some).mpr ⟨_, .ok (), [], ?_, rfl, rfl⟩
    simp only [storeMachine]
    rw [second]

theorem pageBytes_longRecords (c : Crypto) (n : Nat) :
    pageBytes ((longRecords c n).map SidecarRecord.bytes) = 8 * ((500 + n) / 3) + 182 := by
  have lengths := length_longRecords c n
  simp only [longRecords, List.forall_mem_cons] at lengths
  have short : ((longRecords c n).map SidecarRecord.bytes).length < pageSize := by
    show 2 < pageSize
    decide
  rw [pageBytes, if_pos short]
  simp only [longRecords, List.map_cons, List.map_nil, recordsBytes, lengths.1, lengths.2.1,
    List.sum_cons, List.sum_nil, if_neg (List.cons_ne_nil _ _)]
  omega

/-- Two notes of 400000 letters are acknowledged and can not be loaded again. -/
theorem not_load_of_acknowledged : ∃ s, (storeMachine stdCrypto).run .new
      (longEvents stdCrypto 400000) = some (s, [.ok (), .ok ()]) ∧
    ∃ failure, load stdCrypto zeroToken s.db none = .error failure := by
  obtain ⟨s, ran⟩ := run_longEvents stdCrypto (show 400000 ≤ 460000 by decide)
  have acknowledged : ∀ report ∈ [(.ok () : Except CallFailure Unit), .ok ()], report = .ok () := by
    simp
  obtain ⟨held, payloads⟩ := held_of_run (held_new stdCrypto) ran acknowledged
  refine ⟨s, ran, ?_⟩
  rcases load_of_chain held.chain zeroToken with ⟨roomy, -⟩ | ⟨-, failed⟩
  · have first := (roomy 0 (Nat.zero_le _)).2
    rw [Nat.mul_zero, List.drop_zero, payloads] at first
    rw [show lastReplaced StoreState.new.db.payloads (longEvents stdCrypto 400000) =
      (longRecords stdCrypto 400000).map SidecarRecord.bytes from rfl] at first
    rw [List.take_of_length_le (show 2 ≤ pageSize by decide), pageBytes_longRecords] at first
    unfold maxFrameBytes at first
    omega
  · exact failed

/-- Two short notes are loaded again. -/
theorem load_of_acknowledged_notes : ∃ s, (storeMachine stdCrypto).run .new
      (longEvents stdCrypto 1) = some (s, [.ok (), .ok ()]) ∧
    load stdCrypto zeroToken s.db none =
      .ok ((longRecords stdCrypto 1).map SidecarRecord.bytes) := by
  obtain ⟨s, ran⟩ := run_longEvents stdCrypto (show 1 ≤ 460000 by decide)
  have roomy : Roomy ((longRecords stdCrypto 1).map SidecarRecord.bytes) := by
    refine roomy_of_short (show 2 < pageSize by decide) ?_
    rw [pageBytes_longRecords]
    decide
  exact ⟨s, ran, (load_of_acknowledged_iff stdCrypto zeroToken ran (by simp)).1.mpr roomy⟩

end ProofRay.Host
