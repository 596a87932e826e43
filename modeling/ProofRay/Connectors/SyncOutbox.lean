/- The outbox row of a connector mapping: syncs are staged in it and completed by its key, with a
   crash possible between any two steps. -/

import ProofRay.Lib.Machine

namespace ProofRay.Connectors

open Lib

universe u v

/-- A staged sync of the mapping; its key is that of the mapping. -/
structure PendingConnectorSync (μ : Type u) (χ : Type v) where
  connectorId : String
  mapping : μ
  checkpoint : Option χ
  deriving DecidableEq

/-- The row and the checkpoint of one mapping, the syncs that run, and, kept for the record, what
has been staged and not completed since. -/
structure SyncState (μ : Type u) (χ : Type v) where
  pending : Option (PendingConnectorSync μ χ)
  checkpoint : Option χ
  running : List (PendingConnectorSync μ χ)
  owed : List (PendingConnectorSync μ χ)

inductive SyncEvent (μ : Type u) (χ : Type v) where
  | stageConnectorSync (operation : PendingConnectorSync μ χ)
  | recover
  | completeConnectorSync (operation : PendingConnectorSync μ χ) (checkpoint : χ)
  | failed (operation : PendingConnectorSync μ χ)
  | crash

namespace SyncState

variable {μ : Type u} {χ : Type v} [DecidableEq μ] [DecidableEq χ]

def empty : SyncState μ χ := ⟨none, none, [], []⟩

/-- `INSERT ... ON CONFLICT(id) DO UPDATE`, and the sync that starts. -/
def stageConnectorSync (s : SyncState μ χ) (operation : PendingConnectorSync μ χ) : SyncState μ χ :=
  { s with
    pending := some operation
    running := operation :: s.running
    owed := operation :: s.owed.erase operation }

/-- The recovery runs what `pendingConnectorSyncs` returns. -/
def recover (s : SyncState μ χ) : SyncState μ χ :=
  { s with running := s.pending.toList ++ s.running }

def completeConnectorSync (s : SyncState μ χ) (operation : PendingConnectorSync μ χ)
    (checkpoint : χ) : SyncState μ χ :=
  { pending := none
    checkpoint := some checkpoint
    running := s.running.erase operation
    owed := s.owed.filter fun p => p ≠ operation }

end SyncState

variable {μ : Type u} {χ : Type v} [DecidableEq μ] [DecidableEq χ]

def syncMachine : Machine (SyncState μ χ) (SyncEvent μ χ) Unit where
  step s
    | .stageConnectorSync operation => some (s.stageConnectorSync operation, ())
    | .recover => some (s.recover, ())
    | .completeConnectorSync operation checkpoint =>
      if operation ∈ s.running then some (s.completeConnectorSync operation checkpoint, ())
      else none
    | .failed operation =>
      if operation ∈ s.running then some ({ s with running := s.running.erase operation }, ())
      else none
    | .crash => some ({ s with running := [] }, ())

def SyncState.Kept (s : SyncState μ χ) : Prop := ∀ p ∈ s.owed, s.pending = some p

def Alone (s : SyncState μ χ) : SyncEvent μ χ → Prop
  | .stageConnectorSync operation => ∀ q ∈ s.owed, q = operation
  | .completeConnectorSync operation _ => operation ∈ s.running → ∀ q ∈ s.owed, q = operation
  | _ => True

variable {s : SyncState μ χ} {e : SyncEvent μ χ}

theorem alone_iff_kept (kept : s.Kept) :
    Alone s e ↔ ∀ next r, syncMachine.step s e = some (next, r) → next.Kept := by
  cases e with
  | stageConnectorSync operation =>
    constructor
    · rintro alone next r ⟨⟩ p owed
      rcases List.mem_cons.mp owed with rfl | before
      · rfl
      · rw [alone p (List.mem_of_mem_erase before)]
        rfl
    · intro all q owed
      by_contra differs
      have later := all _ () rfl q
        (List.mem_cons_of_mem _ ((List.mem_erase_of_ne differs).mpr owed))
      exact differs (Option.some.inj later).symm
  | completeConnectorSync operation checkpoint =>
    by_cases runs : operation ∈ s.running
    · have stepped : syncMachine.step s (.completeConnectorSync operation checkpoint) =
          some (s.completeConnectorSync operation checkpoint, ()) := if_pos runs
      constructor
      · intro alone next r taken p owed
        rw [stepped] at taken
        cases taken
        obtain ⟨before, differs⟩ := List.mem_filter.mp owed
        exact absurd (alone runs p before) (of_decide_eq_true differs)
      · intro all _ q owed
        by_contra differs
        have lost := all _ () stepped q (List.mem_filter.mpr ⟨owed, decide_eq_true differs⟩)
        cases lost
    · have none_taken : syncMachine.step s (.completeConnectorSync operation checkpoint) = none :=
        if_neg runs
      refine iff_of_true (fun inside => absurd inside runs) fun next r taken => ?_
      rw [none_taken] at taken
      cases taken
  | recover =>
    refine iff_of_true trivial ?_
    rintro next r ⟨⟩
    exact kept
  | failed operation =>
    refine iff_of_true trivial fun next r taken => ?_
    simp only [syncMachine] at taken
    split at taken
    · cases taken
      exact kept
    · cases taken
  | crash =>
    refine iff_of_true trivial ?_
    rintro next r ⟨⟩
    exact kept

theorem checkpoint_of_run {es : List (SyncEvent μ χ)} {last : SyncState μ χ} {rs : List Unit}
    (ran : syncMachine.run s es = some (last, rs)) :
    last.checkpoint = s.checkpoint ∨
      ∃ p c, last.checkpoint = some c ∧ .completeConnectorSync p c ∈ es := by
  induction es generalizing s rs with
  | nil =>
    cases ran
    exact .inl rfl
  | cons e es ih =>
    obtain ⟨next, r, rest, stepped, onward, -⟩ := syncMachine.run_cons_eq_some.mp ran
    rcases ih onward with same | ⟨p, c, found, member⟩
    · rw [same]
      cases e with
      | completeConnectorSync p c =>
        simp only [syncMachine] at stepped
        split at stepped
        · cases stepped
          exact .inr ⟨p, c, rfl, List.mem_cons_self⟩
        · cases stepped
      | failed p =>
        simp only [syncMachine] at stepped
        split at stepped
        · cases stepped
          exact .inl rfl
        · cases stepped
      | stageConnectorSync p =>
        cases stepped
        exact .inl rfl
      | recover =>
        cases stepped
        exact .inl rfl
      | crash =>
        cases stepped
        exact .inl rfl
    · exact .inr ⟨p, c, found, List.mem_cons_of_mem e member⟩

/-- The staged payloads are kept all along just in the runs that never stage or complete one while
another is owed; the checkpoint is always one of a completed sync. -/
theorem connectorSync_kept_iff (es : List (SyncEvent μ χ)) :
    syncMachine.Along Alone .empty es ↔
      ∀ n last rs, syncMachine.run .empty (es.take n) = some (last, rs) →
        last.Kept ∧ ∀ c, last.checkpoint = some c →
          ∃ p, .completeConnectorSync p c ∈ es.take n := by
  have start : (SyncState.empty : SyncState μ χ).Kept := nofun
  rw [Machine.along_iff_invariant (fun s e kept => alone_iff_kept kept) start]
  constructor
  · intro all n last rs ran
    refine ⟨all n last rs ran, fun c found => ?_⟩
    rcases checkpoint_of_run ran with first | ⟨p, c', found', member⟩
    · rw [first] at found
      cases found
    · cases found.symm.trans found'
      exact ⟨p, member⟩
  · exact fun all n last rs ran => (all n last rs ran).1

def notes : PendingConnectorSync String String := ⟨"c", "notes", none⟩

def mails : PendingConnectorSync String String := ⟨"c", "mails", none⟩

/-- Two syncs overlap: the first to complete deletes the row of the second, and a crash loses it. -/
theorem not_connectorSync_kept : ∃ last rs,
    syncMachine.run .empty [.stageConnectorSync notes, .stageConnectorSync mails,
      .completeConnectorSync notes "256", .crash] = some (last, rs) ∧
    mails ∈ last.owed ∧ last.pending = none ∧ last.running = [] :=
  ⟨_, _, rfl, by decide, rfl, rfl⟩

end ProofRay.Connectors
