/- What the facade remembers of its facts and what its store holds, and when the two agree. -/

import ProofRay.Engine.SnapshotGrowth
import ProofRay.Memory.Facade

namespace ProofRay.Memory

open Engine
open Lib (Dict Machine)
open Lib.Guard

variable {c : Crypto}

namespace Store

variable {s : Store}

theorem get_materializeState (factId : Int) : s.materializeState.get factId = s.current factId := by
  unfold materializeState current
  cases found : s.index.get factId with
  | some fact =>
    exact Dict.get_update_of_mem s.index.state.nodup ((Dict.get_eq_some_iff _ _ _).mp found)
  | none =>
    rw [Dict.get_update_of_not_mem ((Dict.get_eq_none_iff _ _).mp found), Dict.get_filterKeys,
      found]
    rfl

variable {cmd : CommitCommand} {s' : Store}

theorem current_compacted {key : Bytes} (done : s.compacted c key = .ok (.ok s')) :
    s'.current = s.current := by
  funext factId
  unfold compacted at done
  simp only at done
  split at done
  · cases done
  · simp only [bind_eq_ok] at done
    obtain ⟨merged, -, done⟩ := done
    cases merged with
    | error why => cases done
    | ok retry =>
      cases done
      exact get_materializeState factId

theorem currentVersion_view (factId : Int) :
    currentVersion s.index s.base.view factId = some (s.current factId) := by
  unfold currentVersion current Base.view
  cases s.index.get factId with
  | some fact => rfl
  | none =>
    simp only
    cases s.base.facts.get factId <;> rfl

theorem submit_cases {status : Status} {seq : Option Int}
    (done : s.submit c cmd = .ok ((status, seq), s')) :
    (s.classify c cmd = .ok (.answer status seq) ∧ status ≠ .applied ∧ s' = s) ∨
    ∃ op digest, s.classify c cmd = .ok (.write op digest) ∧ status = .applied ∧
      cmd.op = .known op ∧
      ∀ factId, s'.current factId =
        if cmd.factId = factId then some ⟨cmd.factVersion, op, cmd.value⟩
        else s.current factId := by
  unfold submit at done
  simp only [bind_eq_ok] at done
  obtain ⟨verdict, classified, done⟩ := done
  cases verdict with
  | answer status' seq' =>
    cases done
    exact .inl ⟨classified, (classifyCommand_answer classified).1, rfl⟩
  | write op digest =>
    cases done
    refine .inr ⟨op, digest, classified, rfl, ?_⟩
    obtain ⟨known, -, -, -, -, -, cur, inForce, applied⟩ :=
      classifyCommand_eq_write_iff.mp classified
    refine ⟨known, fun factId => ?_⟩
    rw [currentVersion_view, Option.some.injEq] at inForce
    subst inForce
    -- the log decides alike, whether it holds the fact or not
    have alone : preflight (s.index.get cmd.factId) op cmd.factVersion cmd.value = .applied := by
      unfold current at applied
      cases found : s.index.get cmd.factId with
      | none => rfl
      | some fact =>
        rw [found] at applied
        exact applied
    simp only [current, WalIndex.apply_of_preflight alone, WalIndex.get, Dict.get_set]
    by_cases same : cmd.factId = factId
    · simp only [same, if_true]
    · simp only [same, if_false]

theorem classify_of_submit_error {e : PyError} (failed : s.submit c cmd = .error e) :
    s.classify c cmd = .error e := by
  unfold submit at failed
  rw [bind_eq_error] at failed
  rcases failed with failed | ⟨verdict, -, failed⟩
  · exact failed
  · cases verdict <;> cases failed

def count (s : Store) (kind : Kind) : Nat :=
  (s.materializeState.items.filter fun e => Kind.of e.2.op = kind).length

end Store

def kindOf : ModelRead → Option Kind
  | .notFound => none
  | .deleted => some .deleted
  | .value _ => some .live

namespace HorizonMemory

variable {m : HorizonMemory}

/-- The facts remembered as live or as deleted are those the published state has as present or as
deleted. -/
def Matches (m : HorizonMemory) : Prop :=
  ∀ factId, m.seen.get factId = kindOf (m.store.read factId)

/-- What the audit has to say of a store that is in order. -/
structure AuditAgrees (m : HorizonMemory) : Prop where
  seen : m.Matches
  terminal : (m.audit m.scopeId).findings = []
  live : (m.audit m.scopeId).liveFacts = m.store.count .live
  deleted : (m.audit m.scopeId).deletedFacts = m.store.count .deleted

theorem kindOf_read (s : Store) (factId : Int) :
    kindOf (s.read factId) = (s.current factId).map fun f => Kind.of f.op := by
  unfold Store.read
  cases s.current factId with
  | none => rfl
  | some fact =>
    obtain ⟨version, op, value⟩ := fact
    cases op <;> rfl

theorem Matches.count (h : m.Matches) (kind : Kind) : m.count kind = m.store.count kind := by
  have perm : ((m.seen.items.filter fun e => e.2 = kind).map Prod.fst).Perm
      ((m.store.materializeState.items.filter fun e => Kind.of e.2.op = kind).map Prod.fst) := by
    rw [List.perm_ext_iff_of_nodup
      (m.seen.nodup.sublist (List.filter_sublist.map Prod.fst))
      (m.store.materializeState.nodup.sublist (List.filter_sublist.map Prod.fst))]
    intro factId
    have seen : factId ∈ (m.seen.items.filter fun e => e.2 = kind).map Prod.fst ↔
        m.seen.get factId = some kind := by
      simp only [List.mem_map, List.mem_filter, decide_eq_true_eq, Prod.exists,
        exists_and_right, exists_eq_right, Dict.get_eq_some_iff]
    have held : factId ∈ (m.store.materializeState.items.filter
        fun e => Kind.of e.2.op = kind).map Prod.fst ↔
          (m.store.current factId).map (fun f => Kind.of f.op) = some kind := by
      simp only [List.mem_map, List.mem_filter, decide_eq_true_eq, Prod.exists,
        exists_and_right, exists_eq_right, Option.map_eq_some_iff,
        ← Store.get_materializeState, Dict.get_eq_some_iff]
    rw [seen, held, h factId, kindOf_read]
  have := perm.length_eq
  rwa [List.length_map, List.length_map] at this

theorem Matches.agrees (h : m.Matches) : m.AuditAgrees where
  seen := h
  terminal := by
    rw [audit, if_neg (not_not.mpr rfl)]
    refine List.filterMap_eq_nil_iff.mpr fun e member => if_neg fun wrong => wrong.2 ?_
    have known := (Dict.get_eq_some_iff _ _ _).mpr (show (e.1, e.2) ∈ m.seen.items from member)
    rw [wrong.1, h] at known
    cases shown : m.store.read e.1 with
    | deleted => rfl
    | notFound =>
      rw [shown] at known
      cases known
    | value v =>
      rw [shown] at known
      cases known
  live := by
    rw [audit, if_neg (not_not.mpr rfl)]
    exact h.count .live
  deleted := by
    rw [audit, if_neg (not_not.mpr rfl)]
    exact h.count .deleted

def submitted (m : HorizonMemory) : Call → Option CommitCommand
  | .put .decided scope factId version value operationId =>
    if scope = m.scopeId ∧ 0 ≤ value ∧ value ≤ 255 then
      (m.command .put factId version (some value) operationId).toOption
    else none
  | .delete .decided scope factId version operationId =>
    if scope = m.scopeId then
      (m.command .delete factId version none operationId).toOption
    else none
  | _ => none

def arriving (m : HorizonMemory) : Call → Option CommitCommand
  | .arrive n => m.pending[n]?
  | _ => none

def Stands (m : HorizonMemory) (cmd : CommitCommand) : Prop :=
  ∀ op, cmd.op = .known op → kindOf (m.store.read cmd.factId) = some (Kind.of op)

/-- A receipt is replayed only for an operation that still stands, and what arrives late changes no
fact from live to deleted, or the other way, and brings no new one. -/
structure Faithful (c : Crypto) (m : HorizonMemory) (call : Call) : Prop where
  replayed : ∀ cmd seq, m.submitted call = some cmd →
    m.store.classify c cmd = .ok (.answer .dedupReplay seq) → m.Stands cmd
  late : ∀ cmd op digest, m.arriving call = some cmd →
    m.store.classify c cmd = .ok (.write op digest) → m.Stands cmd

theorem Matches.congr {m' : HorizonMemory} (store : m'.store = m.store) (seen : m'.seen = m.seen) :
    m'.Matches ↔ m.Matches := by
  rw [Matches, Matches, store, seen]

theorem writeState_replay {status : Status} (unwritten : status ≠ .applied) :
    (writeState status = .applied ∨ writeState status = .dedupReplay) ↔ status = .dedupReplay := by
  cases status <;> simp_all [writeState]

variable {factId version : Int} {op : Op} {value : Option Int}

variable {cmd : CommitCommand} {opid digest : Bytes}

theorem matches_write (h : m.Matches) {operationId : Option Bytes}
    (made : m.command op factId version value operationId = .ok cmd) :
    ∃ result next, m.write c .decided op factId version value operationId = .ok (result, next) ∧
      (next.Matches ↔ ∀ seq, m.store.classify c cmd = .ok (.answer .dedupReplay seq) →
        m.Stands cmd) := by
  have shape : cmd.op = .known op ∧ cmd.factId = factId := by
    unfold command at made
    simp only [bind_eq_ok, pure_eq_ok] at made
    obtain ⟨opid, -, rfl⟩ := made
    exact ⟨rfl, rfl⟩
  unfold write
  rw [made]
  simp only [ok_bind]
  cases submitted : m.store.submit c cmd with
  | error e =>
    refine ⟨_, _, rfl, ?_⟩
    rw [Matches.congr rfl rfl]
    refine iff_of_true h fun seq replayed => ?_
    rw [Store.classify_of_submit_error submitted] at replayed
    cases replayed
  | ok outcome =>
    obtain ⟨⟨status, seq⟩, store⟩ := outcome
    refine ⟨_, _, rfl, ?_⟩
    rcases Store.submit_cases submitted with ⟨answered, unwritten, rfl⟩ |
      ⟨op', digest, classified, rfl, known, inForce⟩
    · -- nothing is written; only a replay is remembered
      by_cases replay : status = .dedupReplay
      · subst replay
        constructor
        · intro agrees seq' _ op' known
          have remembered := agrees factId
          rw [if_pos ((writeState_replay unwritten).mpr rfl), Dict.get_set_self] at remembered
          rw [shape.1] at known
          cases known
          rw [shape.2]
          exact remembered.symm
        · intro stands other
          show (if _ then m.seen.set factId (Kind.of op) else m.seen).get other = _
          rw [if_pos ((writeState_replay unwritten).mpr rfl), Dict.get_set]
          split
          · rename_i same
            rw [← same, ← shape.2]
            exact (stands seq answered op shape.1).symm
          · exact h other
      · refine iff_of_true ?_ fun seq' replayed => ?_
        · intro other
          show (if _ then m.seen.set factId (Kind.of op) else m.seen).get other = _
          rw [if_neg fun told => replay ((writeState_replay unwritten).mp told)]
          exact h other
        · rw [answered] at replayed
          cases replayed
          exact absurd rfl replay
    · -- what is written is remembered as it is now
      refine iff_of_true ?_ fun seq' replayed => ?_
      · intro other
        show (if _ then m.seen.set factId (Kind.of op) else m.seen).get other =
          kindOf (store.read other)
        rw [shape.1] at known
        cases known
        rw [if_pos (.inl rfl), Dict.get_set]
        rw [kindOf_read, inForce other, shape.2]
        split
        · rfl
        · rw [h other, kindOf_read]
      · rw [classified] at replayed
        cases replayed

theorem toOption_eq_some {x : Except PyError CommitCommand} :
    x.toOption = some cmd ↔ x = .ok cmd := by
  cases x <;> simp [Except.toOption]

theorem matches_answered_write (h : m.Matches) (fate : Fate) (op : Op) (factId version : Int)
    (value : Option Int) (operationId : Option Bytes) :
    (m.answered .wrote (m.write c fate op factId version value operationId)).1.Matches ↔
      ∀ cmd seq, fate = .decided →
        (m.command op factId version value operationId).toOption = some cmd →
        m.store.classify c cmd = .ok (.answer .dedupReplay seq) → m.Stands cmd := by
  simp only [toOption_eq_some]
  cases made : m.command op factId version value operationId with
  | error e =>
    have raised : m.write c fate op factId version value operationId = .error e := by
      rw [write, made]
      rfl
    rw [raised]
    refine iff_of_true h fun cmd seq _ same => ?_
    cases same
  | ok cmd =>
    cases fate with
    | failed =>
      have told : (m.answered .wrote (m.write c .failed op factId version value operationId)).1 =
          { m with
            opidCounter := if operationId.isSome then m.opidCounter else m.opidCounter + 1
            pending := m.pending ++ [cmd] } := by
        rw [write, made]
        rfl
      rw [told, Matches.congr rfl rfl]
      refine iff_of_true h fun _ _ decided => ?_
      cases decided
    | decided =>
      obtain ⟨result, next, written, kept⟩ := matches_write (c := c) h made
      rw [written]
      show next.Matches ↔ _
      rw [kept]
      constructor
      · intro stands cmd' seq _ same
        cases same
        exact stands seq
      · intro stands seq
        exact stands cmd seq rfl rfl

theorem faithful_of_quiet {call : Call} (submits : m.submitted call = none)
    (arrives : m.arriving call = none) : Faithful c m call := by
  constructor
  · intro cmd seq submitted
    rw [submits] at submitted
    cases submitted
  · intro cmd op digest arriving
    rw [arrives] at arriving
    cases arriving

theorem matches_put (h : m.Matches) (fate : Fate) (scope factId version value : Int)
    (operationId : Option Bytes) :
    (m.call c (.put fate scope factId version value operationId)).1.Matches ↔
      Faithful c m (.put fate scope factId version value operationId) := by
  show (m.answered .wrote (m.put c fate scope factId version value operationId)).1.Matches ↔ _
  by_cases own : scope = m.scopeId ∧ 0 ≤ value ∧ value ≤ 255
  · have passed : m.put c fate scope factId version value operationId =
        m.write c fate .put factId version (some value) operationId := by
      rw [put, if_neg (not_not.mpr own.1), require, if_pos own.2]
      rfl
    rw [passed, matches_answered_write h]
    constructor
    · intro stands
      refine ⟨fun cmd seq submits => ?_, fun cmd op digest arrives => (by cases arrives)⟩
      cases fate with
      | failed => cases submits
      | decided =>
        rw [submitted, if_pos own] at submits
        exact stands cmd seq rfl submits
    · intro faithful cmd seq decided made
      subst decided
      exact faithful.replayed cmd seq (by rw [submitted, if_pos own]; exact made)
  · have still : (m.answered .wrote
        (m.put c fate scope factId version value operationId)).1 = m := by
      by_cases foreign : scope = m.scopeId
      · rw [put, if_neg (not_not.mpr foreign), require, if_neg fun domain => own ⟨foreign, domain⟩]
        rfl
      · rw [put, if_pos foreign]
        rfl
    rw [still]
    refine iff_of_true h (faithful_of_quiet ?_ rfl)
    cases fate with
    | failed => rfl
    | decided => exact if_neg own

theorem matches_delete (h : m.Matches) (fate : Fate) (scope factId version : Int)
    (operationId : Option Bytes) :
    (m.call c (.delete fate scope factId version operationId)).1.Matches ↔
      Faithful c m (.delete fate scope factId version operationId) := by
  show (m.answered .wrote (m.delete c fate scope factId version operationId)).1.Matches ↔ _
  by_cases own : scope = m.scopeId
  · rw [delete, if_neg (not_not.mpr own)]
    show (m.answered .wrote (m.write c fate .delete factId version none operationId)).1.Matches ↔ _
    rw [matches_answered_write h]
    constructor
    · intro stands
      refine ⟨fun cmd seq submits => ?_, fun cmd op digest arrives => (by cases arrives)⟩
      cases fate with
      | failed => cases submits
      | decided =>
        rw [submitted, if_pos own] at submits
        exact stands cmd seq rfl submits
    · intro faithful cmd seq decided made
      subst decided
      exact faithful.replayed cmd seq (by rw [submitted, if_pos own]; exact made)
  · rw [delete, if_pos own]
    refine iff_of_true h (faithful_of_quiet ?_ rfl)
    cases fate with
    | failed => rfl
    | decided => exact if_neg own

theorem matches_compact (h : m.Matches) (fate : CompactFate) (scope : Int) :
    (m.call c (.compact fate scope)).1.Matches := by
  show (m.answered .compacted (m.compact c fate scope)).1.Matches
  have next {store : Store} (done : m.store.compacted c m.key = .ok (.ok store)) :
      ({ m with store } : HorizonMemory).Matches := by
    intro factId
    show m.seen.get factId = kindOf (store.read factId)
    rw [h factId, kindOf_read, kindOf_read, Store.current_compacted done]
  unfold compact
  split
  · exact h
  split
  · exact h
  cases fate with
  | failed state why => exact h
  | unactivated why =>
    cases done : m.store.compacted c m.key with
    | error e => exact h
    | ok outcome =>
      cases outcome with
      | error why => exact h
      | ok store => exact next done
  | decided =>
    cases done : m.store.compacted c m.key with
    | error e => exact h
    | ok outcome =>
      cases outcome with
      | error why => exact h
      | ok store => exact next done

theorem matches_arrive (h : m.Matches) (n : Nat) :
    (m.call c (.arrive n)).1.Matches ↔ Faithful c m (.arrive n) := by
  show (m.arrive c n).Matches ↔ _
  unfold arrive
  cases found : m.pending[n]? with
  | none => exact iff_of_true h (faithful_of_quiet rfl found)
  | some cmd =>
    simp only
    have only_late : Faithful c m (.arrive n) ↔ ∀ op digest,
        m.store.classify c cmd = .ok (.write op digest) → m.Stands cmd := by
      constructor
      · exact fun faithful op digest => faithful.late cmd op digest found
      · intro late
        refine ⟨fun cmd seq submits => (by cases submits), fun cmd' op digest arrives => ?_⟩
        rw [arriving, found] at arrives
        cases arrives
        exact late op digest
    rw [only_late]
    cases submitted : m.store.submit c cmd with
    | error e =>
      refine iff_of_true h fun op digest classified => ?_
      rw [Store.classify_of_submit_error submitted] at classified
      cases classified
    | ok outcome =>
      obtain ⟨⟨status, seq⟩, store⟩ := outcome
      rcases Store.submit_cases submitted with ⟨answered, -, rfl⟩ |
        ⟨op, digest, classified, -, known, inForce⟩
      · refine iff_of_true h fun op digest classified => ?_
        rw [answered] at classified
        cases classified
      · constructor
        · intro agrees _ _ _ op' known'
          rw [known] at known'
          cases known'
          have shown := agrees cmd.factId
          change m.seen.get cmd.factId = kindOf (store.read cmd.factId) at shown
          rw [kindOf_read store, inForce, if_pos rfl] at shown
          rw [← h, shown]
          rfl
        · intro stands other
          show m.seen.get other = kindOf (store.read other)
          rw [kindOf_read store, inForce, h other]
          split
          · rename_i same
            rw [← same, stands op digest classified op known]
            rfl
          · exact kindOf_read m.store other

theorem matches_call_iff (h : m.Matches) (call : Call) :
    (m.call c call).1.Matches ↔ Faithful c m call := by
  cases call with
  | put fate scope factId version value operationId =>
    exact matches_put h fate scope factId version value operationId
  | delete fate scope factId version operationId =>
    exact matches_delete h fate scope factId version operationId
  | compact fate scope =>
    exact iff_of_true (matches_compact h fate scope) (faithful_of_quiet rfl rfl)
  | audit scope => exact iff_of_true h (faithful_of_quiet rfl rfl)
  | arrive n => exact matches_arrive h n

theorem matches_create (scopeId : Nat) (key : Bytes) : (create scopeId key).Matches :=
  fun _ => rfl

/-- In the runs whose calls are all faithful, and in no others, the facade agrees with its store
all along: it remembers as live and as deleted what is present and deleted, its audits find no
deletion undone, and their counts are those of the generation. -/
theorem audit_agrees_iff (c : Crypto) (scopeId : Nat) (key : Bytes) (calls : List Call) :
    (machine c).Along (Faithful c) (create scopeId key) calls ↔
      ∀ n last answers, (machine c).run (create scopeId key) (calls.take n) =
        some (last, answers) → last.AuditAgrees := by
  rw [Machine.along_iff_invariant (I := Matches) ?_ (matches_create scopeId key)]
  · constructor
    · exact fun all n last answers ran => (all n last answers ran).agrees
    · exact fun all n last answers ran => (all n last answers ran).seen
  · intro m call h
    rw [← matches_call_iff h]
    constructor
    · intro kept next answer stepped
      have same : m.call c call = (next, answer) := Option.some.inj stepped
      rwa [same] at kept
    · exact fun all => all _ _ rfl

def wrote (m : HorizonMemory) (op : Op) (factId version : Int) (value : Option Int)
    (opid digest : Bytes) : HorizonMemory :=
  { m with
    store := { m.store with
      index := (m.store.index.apply factId version op value).2
      txindex := m.store.txindex.record opid digest (m.store.readSeq + 1)
      readSeq := m.store.readSeq + 1 }
    writer := true
    seen := m.seen.set factId (Kind.of op) }

theorem write_of_classify {op : Op} {factId version : Int} {value : Option Int}
    {opid digest : Bytes}
    (classified : m.store.classify c ⟨opid, .known op, factId, version, value, 0⟩ =
      .ok (.write op digest)) :
    m.write c .decided op factId version value (some opid) =
      .ok (⟨.applied, some (m.store.readSeq + 1)⟩,
        m.wrote op factId version value opid digest) := by
  have submitted : m.store.submit c ⟨opid, .known op, factId, version, value, 0⟩ =
      .ok ((.applied, some (m.store.readSeq + 1)),
        (m.wrote op factId version value opid digest).store) := by
    unfold Store.submit
    rw [classified]
    rfl
  unfold write
  rw [show m.command op factId version value (some opid) =
    .ok ⟨opid, .known op, factId, version, value, 0⟩ from rfl, ok_bind]
  simp only [submitted, writeState, true_or, or_true, if_true, Option.isSome_some]
  rfl

theorem write_of_replay {op : Op} {factId version : Int} {value seq : Option Int} {opid : Bytes}
    (classified : m.store.classify c ⟨opid, .known op, factId, version, value, 0⟩ =
      .ok (.answer .dedupReplay seq)) :
    m.write c .decided op factId version value (some opid) =
      .ok (⟨.dedupReplay, seq⟩,
        { m with writer := true, seen := m.seen.set factId (Kind.of op) }) := by
  have submitted : m.store.submit c ⟨opid, .known op, factId, version, value, 0⟩ =
      .ok ((.dedupReplay, seq), m.store) := by
    unfold Store.submit
    rw [classified]
    rfl
  unfold write
  rw [show m.command op factId version value (some opid) =
    .ok ⟨opid, .known op, factId, version, value, 0⟩ from rfl, ok_bind]
  simp only [submitted, writeState, or_true, if_true, Option.isSome_some]
  rfl

theorem classify_of_known {s : Store}
    (canonical : commandIsCanonical op factId version value opid = true)
    (domain : op = .put → isU8Value value = true)
    (digested : contentDigest c op factId version value = .ok digest)
    (known : s.txindex.check opid digest = .dedupReplay) :
    s.classify c ⟨opid, .known op, factId, version, value, 0⟩ =
      .ok (.answer .dedupReplay (s.txindex.getSeq opid)) := by
  have inside : ¬ (s.u8Domain = true ∧ op = .put ∧ ¬ isU8Value value = true) :=
    fun outside => outside.2.2 (domain outside.2.1)
  simp only [Store.classify, classifyCommand, canonical, not_true_eq_false, if_false,
    if_neg inside, digested, ok_bind, commandVerdict, known, classifyDedup]
  rfl

def retriedDelete : List Call :=
  [.delete .decided 1 7 1 (some (List.replicate 16 1)),
    .put .decided 1 7 2 5 (some (List.replicate 16 2)),
    .delete .decided 1 7 1 (some (List.replicate 16 1))]

/-- The fact is there, and the audit takes its deletion for undone. -/
theorem audit_not_agrees :
    ¬ ∀ (scopeId : Nat) (key : Bytes) (calls : List Call) (last : HorizonMemory)
      (answers : List Answer),
      (machine stdCrypto).run (create scopeId key) calls = some (last, answers) →
        last.AuditAgrees := by
  intro all
  obtain ⟨d, deletion⟩ : ∃ d, contentDigest stdCrypto .delete 7 1 none = .ok d :=
    contentDigest_ok stdCrypto .delete (by decide) (by decide) nofun
  obtain ⟨d', later⟩ : ∃ d, contentDigest stdCrypto .put 7 2 (some 5) = .ok d :=
    contentDigest_ok stdCrypto .put (by decide) (by decide) (by decide)
  let once := (create 1 []).wrote .delete 7 1 none (List.replicate 16 1) d
  let again := once.wrote .put 7 2 (some 5) (List.replicate 16 2) d'
  have first : (create 1 []).call stdCrypto (.delete .decided 1 7 1 (some (List.replicate 16 1))) =
      (once, .wrote ⟨.applied, some 1⟩) := by
    have written : (create 1 []).write stdCrypto .decided .delete 7 1 none
        (some (List.replicate 16 1)) = _ :=
      write_of_classify (classifyCommand_eq_write_iff.mpr
        ⟨rfl, by decide, nofun, deletion, rfl, rfl, _, rfl, rfl⟩)
    exact congrArg ((create 1 []).answered .wrote) written
  have second : once.call stdCrypto (.put .decided 1 7 2 5 (some (List.replicate 16 2))) =
      (again, .wrote ⟨.applied, some 2⟩) := by
    have written : once.write stdCrypto .decided .put 7 2 (some 5)
        (some (List.replicate 16 2)) = _ :=
      write_of_classify (classifyCommand_eq_write_iff.mpr
        ⟨rfl, by decide, nofun, later, rfl, rfl, _, rfl, rfl⟩)
    exact congrArg (once.answered .wrote) written
  have replay : again.store.classify stdCrypto
      ⟨List.replicate 16 1, .known .delete, 7, 1, none, 0⟩ = .ok (.answer .dedupReplay (some 1)) :=
    classify_of_known (by decide) nofun deletion (if_pos rfl)
  have third : again.call stdCrypto (.delete .decided 1 7 1 (some (List.replicate 16 1))) =
      ({ again with writer := true, seen := again.seen.set 7 .deleted },
        .wrote ⟨.dedupReplay, some 1⟩) :=
    congrArg (again.answered .wrote) (write_of_replay replay)
  have ran : (machine stdCrypto).run (create 1 []) retriedDelete = some
      ({ again with writer := true, seen := again.seen.set 7 .deleted },
        [.wrote ⟨.applied, some 1⟩, .wrote ⟨.applied, some 2⟩, .wrote ⟨.dedupReplay, some 1⟩]) :=
    (machine stdCrypto).run_cons_eq_some.mpr ⟨_, _, _, congrArg some first,
      (machine stdCrypto).run_cons_eq_some.mpr ⟨_, _, _, congrArg some second,
        (machine stdCrypto).run_cons_eq_some.mpr ⟨_, _, _, congrArg some third, rfl, rfl⟩, rfl⟩,
      rfl⟩
  have shown := (all 1 [] retriedDelete _ _ ran).seen 7
  cases shown

end HorizonMemory

end ProofRay.Memory
