/- The log against the authoritative sequential model: through any calls and any crashes a writer
   answers as the model does, and what a recovery reads back from its file is the model. -/

import Mathlib.Data.List.ReduceOption
import ProofRay.Engine.WalCut
import ProofRay.Lib.Machine

namespace ProofRay.Engine

open Lib (Machine)
open Lib.Guard
open WalWriter (createNew)

/-- The decision that a status reports. -/
def Status.decision : Status → Option Decision
  | .applied => some .applied
  | .idempotent => some .idempotent
  | .staleRejected => some .stale
  | .versionConflict => some .conflict
  | _ => none

/-- The model after an answered call, where it decides as the answer says; it does not hear of a
call whose answer is no decision. -/
def SequentialModel.heed (m : SequentialModel) (answered : AppendCall × AppendResult) :
    Option SequentialModel :=
  let (call, r) := answered
  match r.status.decision, call.op with
  | none, _ => some m
  | some _, .other _ => none
  | some d, .known op =>
    let (d', m') := m.apply call.factId call.factVersion op call.value
    if d' = d then some m' else none

/-- A call, or a crash that leaves a torn write behind the file, after which the log is opened. -/
inductive LogEvent where
  | append (call : AppendCall)
  | crash (tail : Bytes)

/-- A call that raises has changed nothing. -/
def logMachine (c : Crypto) : Machine WalWriter LogEvent (Option (AppendCall × AppendResult)) where
  step w
    | .append call =>
      match w.append c call with
      | .ok (w', r) => some (w', some (call, r))
      | .error _ => some (w, none)
    | .crash tail =>
      match resumeExisting c (w.file ++ tail) w.key w.scopeId w.segmentId none none with
      | .ok w' => some (w', none)
      | .error _ => none

namespace WalWriter

variable {c : Crypto} {w w' : WalWriter} {call : AppendCall} {r : AppendResult}
  {m : SequentialModel} {e : LogEvent} {events : List LogEvent}

theorem heed_append (same : w.index.state = m.state) (appended : w.append c call = .ok (w', r)) :
    ∃ m', m.heed (call, r) = some m' ∧ w'.index.state = m'.state := by
  have refused (kept : w' = w) (status : r.status.decision = none) :
      ∃ m', m.heed (call, r) = some m' ∧ w'.index.state = m'.state :=
    ⟨m, by simp only [SequentialModel.heed, status], by rw [kept, same]⟩
  unfold append at appended
  split at appended
  · cases appended
    exact refused rfl rfl
  · rename_i op known
    split at appended
    · cases appended
      exact refused rfl rfl
    · split at appended
      · cases appended
      · simp only [bind_eq_ok] at appended
        obtain ⟨digest, -, appended⟩ := appended
        have here : w.index.get call.factId = m.state.get call.factId := by
          rw [WalIndex.get, same]
        have decision := applyVersioned_decision m.state call.factId call.factVersion op call.value
        have state := applyVersioned_state m.state call.factId call.factVersion op call.value
        rw [← here] at decision state
        have heard {d : Decision} (found : preflight (w.index.get call.factId) op call.factVersion
            call.value = d) (status : r.status.decision = some d)
            (kept : w'.index.state = (m.apply call.factId call.factVersion op call.value).2.state) :
            ∃ m', m.heed (call, r) = some m' ∧ w'.index.state = m'.state := by
          refine ⟨_, ?_, kept⟩
          simp only [SequentialModel.heed, status, known]
          exact if_pos (decision.trans found)
        unfold appendVerdict at appended
        split at appended
        · rename_i answer verdict
          cases appended
          split at verdict
          · cases verdict
            exact refused rfl rfl
          · cases verdict
            exact refused rfl rfl
          · split at verdict <;> cases verdict
            all_goals
              rename_i found
              simp only [found, reduceCtorEq, if_false] at state
              exact heard found rfl (same.trans state.symm)
        · rename_i verdict
          simp only [bind_eq_ok, pure_eq_ok] at appended
          obtain ⟨payload, -, frame, -, done⟩ := appended
          cases done
          have found : preflight (w.index.get call.factId) op call.factVersion call.value =
              .applied := by
            split at verdict
            · cases verdict
            · cases verdict
            · split at verdict <;> cases verdict
              assumption
          rw [if_pos found] at state
          refine heard found rfl ?_
          rw [WalIndex.apply_of_preflight found, same]
          exact state.symm

theorem faithful_reread (faithful : Faithful c w) : Faithful c w.reread := by
  refine ⟨faithful.notSealed, ?_⟩
  simpa only [reread, digest16_self (digest16_length _)] using faithful.recorded

theorem step_follows (faithful : Faithful c w) (same : w.index.state = m.state)
    (room : w.nextSeq < maxSeq) (torn : ∀ tail, e = .crash tail → Torn tail) :
    ∃ w' report m', (logMachine c).step w e = some (w', report) ∧
      [report].reduceOption.foldlM SequentialModel.heed m = some m' ∧ w'.index.state = m'.state ∧
      Faithful c w' ∧ GrewFrom w w' ∧ w'.nextSeq ≤ w.nextSeq + 1 := by
  cases e with
  | append call =>
    have next := nextSeq_after_le c w call
    have kept := (faithful_after faithful call (by omega)).1
    have grew := grewFrom_after c w call
    cases appended : w.append c call with
    | error raised =>
      exact ⟨w, none, m, by simp only [logMachine, appended], rfl, same, faithful, .refl w,
        by omega⟩
    | ok answer =>
      obtain ⟨w', r⟩ := answer
      obtain ⟨m', heeded, state⟩ := heed_append same appended
      simp only [after, appended] at next kept grew
      refine ⟨w', some (call, r), m', by simp only [logMachine, appended], ?_, state, kept, grew,
        next⟩
      rw [List.reduceOption_cons_of_some, List.reduceOption_nil, List.foldlM_cons, heeded]
      rfl
  | crash tail =>
    have resumed := resumeExisting_torn faithful (torn tail rfl)
    exact ⟨w.reread, none, m, by simp only [logMachine, resumed], rfl, same,
      faithful_reread faithful, ⟨rfl, rfl, rfl, ⟨[], (List.append_nil _).symm⟩, le_refl _⟩,
      by simp only [reread]; omega⟩

theorem run_follows (faithful : Faithful c w) (same : w.index.state = m.state)
    (room : w.nextSeq + events.length ≤ maxSeq) (torn : ∀ tail, .crash tail ∈ events → Torn tail) :
    ∃ w' reports m', (logMachine c).run w events = some (w', reports) ∧
      reports.reduceOption.foldlM SequentialModel.heed m = some m' ∧ w'.index.state = m'.state ∧
      Faithful c w' ∧ GrewFrom w w' := by
  induction events generalizing w m with
  | nil => exact ⟨w, [], m, rfl, rfl, same, faithful, .refl w⟩
  | cons e events ih =>
    rw [List.length_cons] at room
    push_cast at room
    obtain ⟨w₁, report, m₁, stepped, heeded, same₁, faithful₁, grew₁, next⟩ :=
      step_follows faithful same (by omega) fun tail here => torn tail (here ▸ List.mem_cons_self)
    obtain ⟨w', reports, m', ran, later, same', faithful', grew'⟩ :=
      ih faithful₁ same₁ (by omega) fun tail member => torn tail (List.mem_cons_of_mem e member)
    refine ⟨w', report :: reports, m', ?_, ?_, same', faithful', grew₁.trans grew'⟩
    · exact ((logMachine c).run_cons_eq_some).mpr ⟨w₁, report, reports, stepped, ran, rfl⟩
    · rw [← List.singleton_append, List.reduceOption_append, List.foldlM_append, heeded]
      exact later

/-- A put, a crash within the seal that follows, and the deletion of what was put. -/
def putAndDelete : List LogEvent :=
  [.append ⟨.known .put, 5, 1, some 9, zeros 16⟩, .crash sealMagic,
    .append ⟨.known .delete, 5, 2, none, List.replicate 16 1⟩]

end WalWriter

end ProofRay.Engine
