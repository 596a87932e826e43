/- Preparing the rotation of a segment (`horizon_rotation.py`) while clients and worker go on. -/

import ProofRay.Engine.GroupTruth
import ProofRay.Engine.WriterLease

namespace ProofRay.Engine.Rotation

open Lib (Machine)
open Lib.Guard
open Engine.GroupCommit (GroupStore Config PublishedStoreState PlanOf drainLocked)
open Engine.Writers (ScopeWriterLease)

inductive RotationState where
  | rotationPrepared
  | failed
  | poisoned
  | rotationNotNeeded
  deriving DecidableEq, Repr

/-- Where a call of `prepare_rotation` stands. -/
inductive Place where
  /-- in the `join` of `begin_rotation` -/
  | joining
  /-- `begin_rotation` has returned `ROTATION_FENCED` -/
  | fenced (snap : L0Snapshot) (lease : Option ScopeWriterLease)

/-- A store with its descriptor, its lease and the rotations under way, by their threads. -/
structure RotatingStore where
  store : GroupStore
  fdOpen : Bool
  lease : Option ScopeWriterLease
  rotations : Nat → Option Place

def RotatingStore.boot (published : PublishedStoreState) (hasher : Hasher)
    (lease : Option ScopeWriterLease) : RotatingStore :=
  ⟨.boot published hasher, true, lease, fun _ => none⟩

def RotatingStore.setRotation (w : RotatingStore) (t : Nat) (place : Option Place) :
    RotatingStore :=
  { w with rotations := Function.update w.rotations t place }

/-- How the sealing, the publication and the next segment come out, which the disk decides. -/
inductive Outcome where
  | failed (reason : String)
  | prepared
  deriving DecidableEq, Repr

inductive Event where
  | store (e : GroupCommit.Event)
  | prepare (thread : Nat)
  | join (thread : Nat)
  | expire (thread : Nat)
  | conclude (thread : Nat) (outcome : Outcome)
  /-- the end of a `close` or of a `begin_compaction`: the descriptor and the lease go -/
  | shut
  /-- a poisoned worker gives the lease back -/
  | release

inductive Report where
  | store (r : GroupCommit.Report)
  | quiet
  /-- what `prepare_rotation` returned -/
  | answered (thread : Nat) (state : RotationState) (reason : String)

def Filled (snapshot : L0Snapshot) : Prop :=
  snapshot.walHead.firstSeq ≤ snapshot.walHead.durableThroughSeq

instance (snapshot : L0Snapshot) : Decidable (Filled snapshot) :=
  inferInstanceAs (Decidable (_ ≤ _))

def emptyAndIdle (s : GroupStore) : Prop := ¬ Filled s.published.snapshot ∧ s.queue = []

instance (s : GroupStore) : Decidable (emptyAndIdle s) :=
  inferInstanceAs (Decidable (_ ∧ _))

def Report.Answers (t : Nat) (r : Report) : Prop := ∃ state reason, r = .answered t state reason

/-- The reason of a `prepare_rotation` whose `begin_rotation` has raised. -/
def fenceFailure (exception text : String) : String :=
  s!"fence/dreno: {exception}('{text}')"

/-- What `prepare_rotation` answers once it holds the snapshot of the fence. -/
def conclusion (snap : L0Snapshot) (outcome : Outcome) : RotationState × String :=
  let head := snap.walHead
  if ¬ Filled snap then (.rotationNotNeeded, "drenou vazio; nada a selar")
  else if u32Max < head.segmentId + 1 then (.poisoned, "overflow de segment_id")
  else if maxSeq ≤ head.durableThroughSeq + 1 then (.poisoned, "overflow de wal_seq")
  else
    match outcome with
    | .failed reason => (.failed, reason)
    | .prepared => (.rotationPrepared, "ok")

theorem conclusion_of_filled {snap : L0Snapshot} (filled : Filled snap) (outcome : Outcome) :
    (conclusion snap outcome).1 ≠ .rotationNotNeeded := by
  unfold conclusion
  rw [if_neg (not_not.mpr filled)]
  split
  · exact RotationState.noConfusion
  · split
    · exact RotationState.noConfusion
    · cases outcome with
      | failed reason => exact RotationState.noConfusion
      | prepared => exact RotationState.noConfusion

section

variable (w : RotatingStore)

/-- `begin_rotation` up to the join. -/
def prepare (t : Nat) : Option (RotatingStore × Report) :=
  match w.rotations t with
  | some _ => none
  | none =>
    if w.store.poisoned then
      some (w, .answered t .poisoned (fenceFailure "WalError" "writer POISONED — rotação abortada"))
    else if emptyAndIdle w.store then
      some (w, .answered t .rotationNotNeeded "sem registros novos")
    else
      some ({ w with store := { w.store with stop := true } }.setRotation t (some .joining), .quiet)

def join (t : Nat) : Option (RotatingStore × Report) :=
  match w.rotations t, w.store.phase with
  | some .joining, .ended =>
    if w.store.poisoned then
      some (w.setRotation t none, .answered t .poisoned
        (fenceFailure "WalError" "writer POISONED após dreno — rotação abortada"))
    else
      let shut : RotatingStore := { w with fdOpen := false, lease := none }
      let snap := w.store.published.snapshot
      match w.lease with
      | none => some (shut.setRotation t (some (.fenced snap none)), .quiet)
      | some lease =>
        match lease.transfer .ownedByRotation with
        | .ok lease => some (shut.setRotation t (some (.fenced snap (some lease))), .quiet)
        | .error (.walError text) =>
          some (shut.setRotation t none, .answered t .poisoned (fenceFailure "WalError" text))
        | .error _ => none
  | _, _ => none

def expire (t : Nat) : Option (RotatingStore × Report) :=
  match w.rotations t, w.store.phase with
  | some .joining, .ended => none
  | some .joining, _ =>
    some (w.setRotation t none, .answered t .poisoned
      (fenceFailure "ShutdownTimeout" "worker ainda ativo; rotação não concluída"))
  | _, _ => none

/-- `prepare_rotation` after the fence; a failure closes the lease it holds. -/
def conclude (t : Nat) (outcome : Outcome) : Option (RotatingStore × Report) :=
  match w.rotations t with
  | some (.fenced snap _) =>
    let answer := conclusion snap outcome
    some (w.setRotation t none, .answered t answer.1 answer.2)
  | _ => none

end

def step (cfg : Config) (w : RotatingStore) : Event → Option (RotatingStore × Report)
  | .store e =>
    (GroupCommit.step cfg w.store e).map fun next => ({ w with store := next.1 }, .store next.2)
  | .prepare t => prepare w t
  | .join t => join w t
  | .expire t => expire w t
  | .conclude t outcome => conclude w t outcome
  | .shut =>
    match w.store.stop, w.store.phase with
    | true, .ended => some ({ w with fdOpen := false, lease := none }, .quiet)
    | _, _ => none
  | .release => if w.store.poisoned then some ({ w with lease := none }, .quiet) else none

def machine (cfg : Config) : Machine RotatingStore Event Report := ⟨step cfg⟩

section

variable {cfg : Config} {s s' : GroupStore}

variable {outcome : GroupCommit.WriteOutcome} {batch : List Nat} {plan : BatchPlan}
  {failpoint : Bool}

theorem filled_candidate (planned : PlanOf cfg s batch plan)
    (filled : Filled s.published.snapshot) : Filled plan.candidateSnapshot := by
  obtain ⟨hasher, prepared⟩ := planned
  simp only [prepareBatch, bind_eq_ok, pure_eq_ok] at prepared
  obtain ⟨st, run, rfl⟩ := prepared
  obtain ⟨given, -, -, grown⟩ := planCommands_planned run
  have later := grown.later
  simp only [PlanState.start] at later
  simp only [Filled, PlanState.plan] at filled ⊢
  omega

/-- What no step of the store takes back: the stop, and a snapshot with a record. -/
structure Moves (s s' : GroupStore) : Prop where
  stop : s.stop = true → s'.stop = true
  filled : Filled s.published.snapshot → Filled s'.published.snapshot

theorem Moves.refl (s : GroupStore) : Moves s s := ⟨id, id⟩

theorem Moves.of_same (stop : s.stop = true → s'.stop = true)
    (published : s'.published = s.published) : Moves s s' := by
  refine ⟨stop, ?_⟩
  intro filled
  rwa [published]

theorem Moves.of_poison {s : GroupStore} (published : s'.published = s.published)
    (batch : List Nat) (status : Status) : Moves s (s'.poison batch status) :=
  .of_same (fun _ => rfl) published

theorem Moves.of_candidate (planned : PlanOf cfg s batch plan) (stop : s'.stop = s.stop)
    (snapshot : s'.published.snapshot = plan.candidateSnapshot) : Moves s s' := by
  refine ⟨stop.trans, ?_⟩
  intro filled
  rw [snapshot]
  exact filled_candidate planned filled

theorem drainLocked_keeps (limits : GroupCommit.Limits) (queue : List Nat) (s : GroupStore)
    (batch : List Nat) (bytes : Nat) :
    (drainLocked limits queue s batch bytes).1.stop = s.stop ∧
      (drainLocked limits queue s batch bytes).1.published = s.published := by
  induction queue generalizing s batch bytes with
  | nil => exact ⟨rfl, rfl⟩
  | cons r rest ih =>
    rw [drainLocked]
    split
    · exact ⟨rfl, rfl⟩
    · split
      · exact ⟨rfl, rfl⟩
      · dsimp only
        split
        · exact ih ..
        · split
          · exact ⟨rfl, rfl⟩
          · exact ih ..

theorem finish_keeps (s : GroupStore) (r : Nat) (status : Status) (walSeq : Option Int) :
    (s.finish r status walSeq).stop = s.stop ∧
      (s.finish r status walSeq).published = s.published := by
  unfold GroupStore.finish
  split
  · exact ⟨rfl, rfl⟩
  · exact ⟨rfl, rfl⟩

theorem logged_keeps (s : GroupStore) (batch : List Nat) (plan : BatchPlan) (arrived : Option Nat) :
    (GroupCommit.logged s batch plan arrived).stop = s.stop ∧
      (GroupCommit.logged s batch plan arrived).published = s.published := by
  cases arrived with
  | none => exact ⟨rfl, rfl⟩
  | some arrived => exact ⟨rfl, rfl⟩

variable {report : GroupCommit.Report}

variable {r : Nat}

theorem submit_moves {cmd : CommitCommand}
    (stepped : GroupCommit.submit cfg s r cmd = some (s', report)) : Moves s s' := by
  unfold GroupCommit.submit at stepped
  dsimp only at stepped
  repeat' split at stepped
  all_goals cases stepped
  all_goals exact .of_same id rfl

theorem resolve_moves {timedOut : Bool}
    (stepped : GroupCommit.resolve s r timedOut = some (s', report)) : Moves s s' := by
  unfold GroupCommit.resolve at stepped
  repeat' split at stepped
  all_goals cases stepped
  all_goals exact .of_same id rfl

theorem cancel_moves (stepped : GroupCommit.cancel s r = some (s', report)) : Moves s s' := by
  unfold GroupCommit.cancel at stepped
  repeat' split at stepped
  all_goals cases stepped
  all_goals exact .of_same id rfl

theorem adopt_moves {cursor : PublishedCursor}
    (adopted : GroupCommit.adopt s cursor = (s', report)) : Moves s s' := by
  unfold GroupCommit.adopt at adopted
  dsimp only at adopted
  split at adopted
  · cases adopted
    exact .refl s
  · cases adopted
    exact ⟨id, id⟩

theorem fence_moves {needed : Bool} (fenced : GroupCommit.fence s needed = (s', report)) :
    Moves s s' := by
  unfold GroupCommit.fence at fenced
  split at fenced
  · cases fenced
    exact .refl s
  · split at fenced
    · cases fenced
      exact .of_same (fun _ => rfl) rfl
    · cases fenced
      exact .refl s

theorem drain_moves (stepped : GroupCommit.drain cfg s = some (s', report)) : Moves s s' := by
  obtain ⟨stop, published⟩ := drainLocked_keeps cfg.limits s.queue s [] 0
  simp only [GroupCommit.drain] at stepped
  repeat' split at stepped
  all_goals cases stepped
  · exact .of_same stop.trans published
  · exact .of_same stop.trans published

theorem plan_moves (stepped : GroupCommit.plan cfg s = some (s', report)) : Moves s s' := by
  unfold GroupCommit.plan at stepped
  repeat' split at stepped
  all_goals cases stepped
  all_goals exact .of_same id rfl

theorem intend_moves (stepped : GroupCommit.intend cfg s failpoint = some (s', report)) :
    Moves s s' := by
  unfold GroupCommit.intend at stepped
  repeat' split at stepped
  all_goals cases stepped
  all_goals first | exact .of_poison rfl .. | exact .of_same id rfl

theorem writeDurable_moves (stepped : GroupCommit.writeDurable s outcome = some (s', report)) :
    Moves s s' := by
  unfold GroupCommit.writeDurable at stepped
  dsimp only at stepped
  split at stepped
  · rename_i batch before plan _
    split at stepped
    · cases stepped
      exact .of_poison rfl ..
    · cases outcome with
      | refused =>
        cases stepped
        exact .of_poison rfl ..
      | raised begun =>
        cases stepped
        exact .of_poison (logged_keeps s batch plan begun).2 ..
      | killed begun => cases stepped
      | diverged arrived writeEnd =>
        cases stepped
        exact .of_poison (logged_keeps s batch plan (some arrived)).2 ..
      | durable =>
        cases stepped
        exact .of_same id rfl
  · cases stepped

theorem writeLegacy_moves (stepped : GroupCommit.writeLegacy cfg s outcome = some (s', report)) :
    Moves s s' := by
  unfold GroupCommit.writeLegacy at stepped
  split at stepped
  · rename_i batch before snapshot published plan _ _
    cases outcome with
    | refused => cases stepped
    | diverged arrived writeEnd => cases stepped
    | raised begun =>
      cases stepped
      exact .of_poison (logged_keeps s batch plan begun).2 ..
    | killed begun =>
      cases stepped
      obtain ⟨stop, kept⟩ := logged_keeps s batch plan begun
      exact .of_same stop.trans kept
    | durable =>
      dsimp only at stepped
      split at stepped
      · cases stepped
        exact .of_same id rfl
      · cases stepped
        exact .of_same id rfl
  · cases stepped

theorem publish_moves {cursor : Option PublishedCursor}
    (stepped : GroupCommit.publish s cursor = some (s', report)) : Moves s s' := by
  unfold GroupCommit.publish at stepped
  repeat' split at stepped
  all_goals cases stepped
  · exact .of_poison rfl ..
  · exact .of_same id rfl

theorem swap_moves (sound : GroupCommit.Sound cfg s)
    (stepped : GroupCommit.swap s = some (s', report)) : Moves s s' := by
  have fits := sound.fits
  unfold GroupCommit.swap at stepped
  split at stepped
  · split at stepped
    · cases stepped
      exact .of_poison rfl ..
    · cases stepped
      exact .of_same id rfl
  · rename_i batch plan cursor place
    rw [place] at fits
    cases stepped
    exact .of_candidate fits.2 rfl rfl
  · rename_i batch plan wrote place
    rw [place] at fits
    split at stepped
    · cases stepped
      exact .of_candidate fits.2.1 rfl rfl
    · cases stepped
      exact .of_same id rfl
  · cases stepped

theorem acknowledge_moves (stepped : GroupCommit.acknowledge s failpoint = some (s', report)) :
    Moves s s' := by
  unfold GroupCommit.acknowledge at stepped
  repeat' split at stepped
  all_goals cases stepped
  · exact .of_poison rfl ..
  · exact .of_same id rfl

theorem reply_moves (stepped : GroupCommit.reply s = some (s', report)) : Moves s s' := by
  unfold GroupCommit.reply at stepped
  repeat' split at stepped
  all_goals cases stepped
  · exact .of_same id rfl
  · exact .of_same id rfl
  · exact .of_same (finish_keeps ..).1.trans (finish_keeps ..).2
  · exact .of_same id rfl
  · exact .of_same (finish_keeps ..).1.trans (finish_keeps ..).2

theorem halt_moves {raised : Bool} (stepped : GroupCommit.halt s raised = some (s', report)) :
    Moves s s' := by
  unfold GroupCommit.halt at stepped
  repeat' split at stepped
  all_goals cases stepped
  all_goals exact .of_same id rfl

theorem step_moves (sound : GroupCommit.Sound cfg s) {e : GroupCommit.Event}
    (stepped : GroupCommit.step cfg s e = some (s', report)) : Moves s s' := by
  cases e with
  | submit r cmd => exact submit_moves stepped
  | result r timedOut => exact resolve_moves stepped
  | cancel r => exact cancel_moves stepped
  | capture =>
    cases stepped
    exact .refl s
  | adopt cursor => exact adopt_moves (Option.some.inj stepped)
  | fence needed => exact fence_moves (Option.some.inj stepped)
  | close =>
    cases stepped
    exact .of_same (fun _ => rfl) rfl
  | drain => exact drain_moves stepped
  | plan => exact plan_moves stepped
  | intend failpoint => exact intend_moves stepped
  | writeDurable outcome => exact writeDurable_moves stepped
  | writeLegacy outcome => exact writeLegacy_moves stepped
  | publish cursor => exact publish_moves stepped
  | swap => exact swap_moves sound stepped
  | acknowledge failpoint => exact acknowledge_moves stepped
  | reply => exact reply_moves stepped
  | halt raised => exact halt_moves stepped

theorem stopped_refuses (sound : GroupCommit.Sound cfg s) (stopped : s.stop = true)
    {e : GroupCommit.Event} (stepped : GroupCommit.step cfg s e = some (s', report)) (r : Nat) :
    report ≠ .admitted r := by
  rintro rfl
  cases e with
  | submit x cmd =>
    have stepped : GroupCommit.submit cfg s x cmd = some (s', .admitted r) := stepped
    unfold GroupCommit.submit at stepped
    dsimp only at stepped
    rw [if_pos (Or.inr stopped)] at stepped
    split at stepped
    · cases stepped
    · cases stepped
  | result x timedOut =>
    have stepped : GroupCommit.resolve s x timedOut = some (s', .admitted r) := stepped
    unfold GroupCommit.resolve at stepped
    repeat' split at stepped
    all_goals cases stepped
  | cancel x =>
    have stepped : GroupCommit.cancel s x = some (s', .admitted r) := stepped
    unfold GroupCommit.cancel at stepped
    repeat' split at stepped
    all_goals cases stepped
  | capture => cases stepped
  | adopt cursor =>
    have adopted : GroupCommit.adopt s cursor = (s', .admitted r) := Option.some.inj stepped
    unfold GroupCommit.adopt at adopted
    dsimp only at adopted
    split at adopted
    · cases adopted
    · cases adopted
  | fence needed =>
    have fenced : GroupCommit.fence s needed = (s', .admitted r) := Option.some.inj stepped
    unfold GroupCommit.fence at fenced
    repeat' split at fenced
    all_goals cases fenced
  | close => cases stepped
  | drain => cases (GroupCommit.drain_sound sound stepped).1
  | plan => cases (GroupCommit.plan_sound sound stepped).1
  | intend failpoint => cases (GroupCommit.intend_sound sound stepped).1
  | writeDurable outcome => cases (GroupCommit.writeDurable_sound sound stepped).1
  | writeLegacy outcome => cases (GroupCommit.writeLegacy_sound sound stepped).1
  | publish cursor => cases (GroupCommit.publish_sound sound stepped).1
  | swap => cases (GroupCommit.swap_sound sound stepped).1
  | acknowledge failpoint => cases (GroupCommit.acknowledge_sound sound stepped).1
  | reply => cases (GroupCommit.reply_sound sound stepped).1
  | halt raised => cases (GroupCommit.halt_sound sound stepped).1

end

/-- The store is fenced, its descriptor is closed and its lease is gone. -/
structure Closed (w : RotatingStore) : Prop where
  stopped : w.store.stop = true
  descriptor : w.fdOpen = false
  released : w.lease = none

instance (w : RotatingStore) : Decidable (Closed w) :=
  decidable_of_iff (w.store.stop = true ∧ w.fdOpen = false ∧ w.lease = none)
    ⟨fun h => ⟨h.1, h.2.1, h.2.2⟩, fun h => ⟨h.1, h.2, h.3⟩⟩

/-- What a step is for the call of `prepare_rotation` by thread `t`. -/
inductive Turn (t : Nat) (w w' : RotatingStore) (report : Report) : Prop where
  | other (place : w'.rotations t = w.rotations t)
      (silent : ¬ report.Answers t)
  | begin (start : w.rotations t = none)
  | detach (joining : w.rotations t = some .joining) (store : w'.store = w.store)
      (descriptor : w'.fdOpen = false) (released : w'.lease = none)
      (place : ∃ lease, w'.rotations t = some (.fenced w.store.published.snapshot lease))
      (silent : ¬ report.Answers t)
  /-- the answer after the drain -/
  | conclude (snap : L0Snapshot) (lease : Option ScopeWriterLease)
      (fenced : w.rotations t = some (.fenced snap lease)) (state : RotationState)
      (reason : String) (answered : report = .answered t state reason)
      (empty : state = .rotationNotNeeded → ¬ Filled snap) (same : w' = w.setRotation t none)
  | fail (state : RotationState) (reason : String) (answered : report = .answered t state reason)
      (failed : state ≠ .rotationNotNeeded)

@[simp] theorem RotatingStore.setRotation_self (w : RotatingStore) (t : Nat)
    (place : Option Place) : (w.setRotation t place).rotations t = place :=
  Function.update_self ..

@[simp] theorem RotatingStore.setRotation_of_ne (w : RotatingStore) {t x : Nat}
    (place : Option Place) (other : t ≠ x) : (w.setRotation x place).rotations t = w.rotations t :=
  Function.update_of_ne other ..

section

variable {cfg : Config} {w w' : RotatingStore} {report : Report} {t : Nat}

variable {x : Nat} {reports : List Report} {events : List Event} {e : Event}

variable {reason : String}

theorem Turn.of_other {state : RotationState} (other : t ≠ x)
    (place : w'.rotations t = w.rotations t) (answered : report = .answered x state reason) :
    Turn t w w' report := by
  refine .other place ?_
  rintro ⟨state', reason', mine⟩
  rw [answered, Report.answered.injEq] at mine
  exact other mine.1.symm

theorem prepare_cases (stepped : prepare w t = some (w', report)) :
    w.rotations t = none ∧
      ((w' = w ∧ ∃ state reason, report = .answered t state reason ∧
          (state = .rotationNotNeeded → emptyAndIdle w.store)) ∨
        (report = .quiet ∧ ¬ emptyAndIdle w.store ∧
          w' = { w with store := { w.store with stop := true } }.setRotation t
            (some .joining))) := by
  unfold prepare at stepped
  split at stepped
  · cases stepped
  · rename_i start
    refine ⟨start, ?_⟩
    split at stepped
    · cases stepped
      exact .inl ⟨rfl, _, _, rfl, nofun⟩
    · split at stepped
      · rename_i idle
        cases stepped
        exact .inl ⟨rfl, _, _, rfl, fun _ => idle⟩
      · rename_i needed
        cases stepped
        exact .inr ⟨rfl, needed, rfl⟩

theorem prepare_turn (stepped : prepare w x = some (w', report)) : Turn t w w' report := by
  obtain ⟨start, ⟨rfl, state, reason, rfl, idle⟩ | ⟨rfl, needed, rfl⟩⟩ := prepare_cases stepped
  · by_cases same : t = x
    · subst same
      exact .begin start
    · exact .of_other same rfl rfl
  · by_cases same : t = x
    · subst same
      exact .begin start
    · exact .other (by simp [same]) nofun

theorem join_turn (stepped : join w x = some (w', report)) : Turn t w w' report := by
  unfold join at stepped
  by_cases same : t = x
  · subst same
    split at stepped
    · rename_i joining _
      split at stepped
      · cases stepped
        exact .fail _ _ rfl RotationState.noConfusion
      · dsimp only at stepped
        split at stepped
        · cases stepped
          exact .detach joining rfl rfl rfl ⟨none, by simp⟩ nofun
        · split at stepped
          · rename_i lease _
            cases stepped
            exact .detach joining rfl rfl rfl ⟨some lease, by simp⟩ nofun
          · cases stepped
            exact .fail _ _ rfl RotationState.noConfusion
          · cases stepped
    · cases stepped
  · split at stepped
    · split at stepped
      · cases stepped
        exact .of_other same (by simp [same]) rfl
      · dsimp only at stepped
        split at stepped
        · cases stepped
          exact .other (by simp [same]) nofun
        · split at stepped
          · cases stepped
            exact .other (by simp [same]) nofun
          · cases stepped
            exact .of_other same (by simp [same]) rfl
          · cases stepped
    · cases stepped

theorem expire_turn (stepped : expire w x = some (w', report)) : Turn t w w' report := by
  unfold expire at stepped
  split at stepped
  · cases stepped
  · cases stepped
    by_cases same : t = x
    · subst same
      exact .fail _ _ rfl RotationState.noConfusion
    · exact .of_other same (by simp [same]) rfl
  · cases stepped

theorem conclude_turn {outcome : Outcome} (stepped : conclude w x outcome = some (w', report)) :
    Turn t w w' report := by
  unfold conclude at stepped
  split at stepped
  · rename_i snap lease fenced
    cases stepped
    by_cases same : t = x
    · subst same
      refine .conclude snap lease fenced _ _ rfl ?_ rfl
      intro needless filled
      exact conclusion_of_filled filled outcome needless
    · exact .of_other same (by simp [same]) rfl
  · cases stepped

theorem step_turn (stepped : step cfg w e = some (w', report)) : Turn t w w' report := by
  cases e with
  | store e =>
    obtain ⟨next, -, moved⟩ := Option.map_eq_some_iff.mp stepped
    cases moved
    exact .other rfl nofun
  | prepare x => exact prepare_turn stepped
  | join x => exact join_turn stepped
  | expire x => exact expire_turn stepped
  | conclude x outcome => exact conclude_turn stepped
  | shut =>
    simp only [step] at stepped
    split at stepped
    · cases stepped
      exact .other rfl nofun
    · cases stepped
  | release =>
    simp only [step] at stepped
    split at stepped
    · cases stepped
      exact .other rfl nofun
    · cases stepped

theorem step_keeps (sound : GroupCommit.Sound cfg w.store)
    (stepped : step cfg w e = some (w', report)) :
    GroupCommit.Sound cfg w'.store ∧ Moves w.store w'.store ∧ (Closed w → Closed w') := by
  have same : ∀ fdOpen lease rotations, (w.fdOpen = false → fdOpen = false) →
      (w.lease = none → lease = none) → w' = ⟨w.store, fdOpen, lease, rotations⟩ →
      GroupCommit.Sound cfg w'.store ∧ Moves w.store w'.store ∧ (Closed w → Closed w') := by
    rintro fdOpen lease rotations descriptor released rfl
    refine ⟨sound, .refl w.store, ?_⟩
    intro closed
    exact ⟨closed.stopped, descriptor closed.descriptor, released closed.released⟩
  cases e with
  | store e =>
    obtain ⟨⟨s', r⟩, moved, rest⟩ := Option.map_eq_some_iff.mp stepped
    cases rest
    have moves := step_moves sound moved
    refine ⟨(GroupCommit.step_sound sound moved).1, moves, ?_⟩
    intro closed
    exact ⟨moves.stop closed.stopped, closed.descriptor, closed.released⟩
  | prepare t =>
    have stepped : prepare w t = some (w', report) := stepped
    unfold prepare at stepped
    repeat' split at stepped
    all_goals cases stepped
    · exact same _ _ _ id id rfl
    · exact same _ _ _ id id rfl
    · refine ⟨sound.still w.store.poisoned true w.store.stateId w.store.published.cursor
        w.store.hasher, .of_same (fun _ => rfl) rfl, ?_⟩
      intro closed
      exact ⟨rfl, closed.descriptor, closed.released⟩
  | join t =>
    have stepped : join w t = some (w', report) := stepped
    unfold join at stepped
    dsimp only at stepped
    repeat' split at stepped
    all_goals cases stepped
    · exact same _ _ _ id id rfl
    · exact same _ _ _ (fun _ => rfl) (fun _ => rfl) rfl
    · exact same _ _ _ (fun _ => rfl) (fun _ => rfl) rfl
    · exact same _ _ _ (fun _ => rfl) (fun _ => rfl) rfl
  | expire t =>
    have stepped : expire w t = some (w', report) := stepped
    unfold expire at stepped
    repeat' split at stepped
    all_goals cases stepped
    exact same _ _ _ id id rfl
  | conclude t outcome =>
    have stepped : conclude w t outcome = some (w', report) := stepped
    unfold conclude at stepped
    split at stepped
    · cases stepped
      exact same _ _ _ id id rfl
    · cases stepped
  | shut =>
    simp only [step] at stepped
    split at stepped
    · cases stepped
      exact same _ _ _ (fun _ => rfl) (fun _ => rfl) rfl
    · cases stepped
  | release =>
    simp only [step] at stepped
    split at stepped
    · cases stepped
      exact same _ _ _ id (fun _ => rfl) rfl
    · cases stepped

theorem event_of_store {told : GroupCommit.Report}
    (stepped : step cfg w e = some (w', .store told)) :
    ∃ e' s', e = .store e' ∧ GroupCommit.step cfg w.store e' = some (s', told) := by
  cases e with
  | store e =>
    obtain ⟨⟨s', r⟩, moved, rest⟩ := Option.map_eq_some_iff.mp stepped
    cases rest
    exact ⟨e, s', rfl, moved⟩
  | prepare t =>
    have stepped : prepare w t = some (w', .store told) := stepped
    unfold prepare at stepped
    repeat' split at stepped
    all_goals cases stepped
  | join t =>
    have stepped : join w t = some (w', .store told) := stepped
    unfold join at stepped
    dsimp only at stepped
    repeat' split at stepped
    all_goals cases stepped
  | expire t =>
    have stepped : expire w t = some (w', .store told) := stepped
    unfold expire at stepped
    repeat' split at stepped
    all_goals cases stepped
  | conclude t outcome =>
    have stepped : conclude w t outcome = some (w', .store told) := stepped
    unfold conclude at stepped
    split at stepped
    · cases stepped
    · cases stepped
  | shut =>
    simp only [step] at stepped
    split at stepped
    · cases stepped
    · cases stepped
  | release =>
    simp only [step] at stepped
    split at stepped
    · cases stepped
    · cases stepped

/-- What holds while a call is at a place; `filled` says that the snapshot had a record when the
call began. -/
def Place.Fits (filled : Prop) (w : RotatingStore) : Place → Prop
  | .joining => w.store.stop = true ∧ (filled → Filled w.store.published.snapshot)
  | .fenced snap _ => Closed w ∧ (filled → Filled snap)

/-- The call of thread `t` has not answered. -/
def Underway (t : Nat) (filled : Prop) (w : RotatingStore) : Prop :=
  ∃ place, w.rotations t = some place ∧ place.Fits filled w

theorem run_sound {published : PublishedStoreState} {hasher : Hasher}
    {lease : Option ScopeWriterLease}
    (ran : (machine cfg).run (.boot published hasher lease) events = some (w, reports)) :
    GroupCommit.Sound cfg w.store := by
  apply Machine.invariant_run (I := fun w => GroupCommit.Sound cfg w.store) _
    (GroupCommit.sound_boot cfg published hasher) ran
  intro w e next report sound stepped
  exact (step_keeps sound stepped).1

theorem run_closed (sound : GroupCommit.Sound cfg w.store) (closed : Closed w)
    (ran : (machine cfg).run w events = some (w', reports)) :
    Closed w' ∧ ∀ r, .store (.admitted r) ∉ reports := by
  have keeps : ∀ w e next report, (GroupCommit.Sound cfg w.store ∧ Closed w) →
      step cfg w e = some (next, report) →
      (GroupCommit.Sound cfg next.store ∧ Closed next) ∧ ∀ r, report ≠ .store (.admitted r) := by
    rintro w e next report ⟨sound, closed⟩ stepped
    obtain ⟨sound', -, closes⟩ := step_keeps sound stepped
    refine ⟨⟨sound', closes closed⟩, ?_⟩
    rintro r rfl
    obtain ⟨e', s', -, moved⟩ := event_of_store stepped
    exact stopped_refuses sound closed.stopped moved r rfl
  obtain ⟨kept, told⟩ := Machine.reports_run keeps ⟨sound, closed⟩ ran
  refine ⟨kept.2, ?_⟩
  intro r member
  exact told _ member r rfl

theorem run_call (sound : GroupCommit.Sound cfg w.store) {filled : Prop}
    (underway : Underway t filled w) (ran : (machine cfg).run w events = some (w', reports))
    (silent : ∀ r ∈ reports, ¬ r.Answers t) : Underway t filled w' := by
  have keeps : ∀ w e next report, (GroupCommit.Sound cfg w.store ∧ Underway t filled w) →
      step cfg w e = some (next, report) → ¬ report.Answers t →
      GroupCommit.Sound cfg next.store ∧ Underway t filled next := by
    rintro w e next r ⟨sound, place, here, fits⟩ stepped unanswered
    obtain ⟨sound', moves, closes⟩ := step_keeps sound stepped
    refine ⟨sound', ?_⟩
    have kept : place.Fits filled next := by
      cases place with
      | joining => exact ⟨moves.stop fits.1, moves.filled ∘ fits.2⟩
      | fenced snap lease => exact ⟨closes fits.1, fits.2⟩
    cases step_turn (t := t) stepped with
    | other still _ => exact ⟨place, still.trans here, kept⟩
    | begin start =>
      rw [here] at start
      cases start
    | detach joining store descriptor released onward =>
      rw [here] at joining
      cases joining
      obtain ⟨lease, there⟩ := onward
      refine ⟨_, there, ⟨?_, descriptor, released⟩, fits.2⟩
      rw [store]
      exact fits.1
    | conclude snap lease fenced state reason answered =>
      exact absurd ⟨_, _, answered⟩ unanswered
    | fail state reason answered => exact absurd ⟨_, _, answered⟩ unanswered
  exact (Machine.invariant_until (I := fun w => GroupCommit.Sound cfg w.store ∧
    Underway t filled w) keeps ⟨sound, underway⟩ ran silent).2

/-- A call that answers that no rotation is needed either found the store empty and idle, and was
a step that changed nothing, or had fenced a store with something in its queue. -/
theorem call_cases (sound : GroupCommit.Sound cfg w.store) {mid : List Event}
    {pre : List Report} {reason : String}
    (called : (machine cfg).run w (.prepare t :: mid) =
      some (w', pre ++ [.answered t .rotationNotNeeded reason]))
    (first : ∀ r ∈ pre, ¬ r.Answers t) :
    (w.store.queue = [] ∧ w' = w) ∨ (w.store.queue ≠ [] ∧ Closed w') := by
  obtain ⟨next, r, rest, stepped, onward, reported⟩ :=
    ((machine cfg).run_cons_eq_some).mp called
  obtain ⟨start, ⟨rfl, state, why, rfl, idle⟩ | ⟨rfl, needed, fenced⟩⟩ := prepare_cases stepped
  · -- an answer at once ends the call
    cases pre with
    | nil =>
      cases reported
      cases mid with
      | nil =>
        cases onward
        exact .inl ⟨(idle rfl).2, rfl⟩
      | cons e mid =>
        obtain ⟨_, _, _, -, -, none⟩ := ((machine cfg).run_cons_eq_some).mp onward
        cases none
    | cons p pre =>
      cases reported
      exact absurd ⟨_, _, rfl⟩ (first _ List.mem_cons_self)
  · cases pre with
    | nil => cases reported
    | cons p pre =>
      cases reported
      obtain ⟨init, e, middle, rfl, ran, last⟩ := (machine cfg).run_snoc_eq_some onward
      have sound' := (step_keeps sound (e := .prepare t) stepped).1
      have silent : ∀ r ∈ pre, ¬ r.Answers t := by
        intro r member
        exact first r (List.mem_cons_of_mem _ member)
      have underway : Underway t (Filled w.store.published.snapshot) next := by
        rw [fenced]
        exact ⟨.joining, RotatingStore.setRotation_self .., rfl, id⟩
      obtain ⟨place, here, fits⟩ := run_call sound' underway ran silent
      cases step_turn (t := t) last with
      | other _ silent => exact absurd ⟨_, _, rfl⟩ silent
      | begin start =>
        rw [here] at start
        cases start
      | detach _ _ _ _ _ silent => exact absurd ⟨_, _, rfl⟩ silent
      | fail state reason answered failed =>
        cases answered
        exact absurd rfl failed
      | conclude snap lease fenced state reason answered empty same =>
        cases answered
        rw [here] at fenced
        cases fenced
        refine .inr ⟨?_, ?_⟩
        · intro none
          exact needed ⟨fun filled => empty rfl (fits.2 filled), none⟩
        · rw [same]
          exact ⟨fits.1.stopped, fits.1.descriptor, fits.1.released⟩

end

/-- The store admits as it did, and its descriptor and its lease are where they were. -/
structure Untouched (before after : RotatingStore) : Prop where
  admission : after.store.stop = before.store.stop
  descriptor : after.fdOpen = before.fdOpen
  lease : after.lease = before.lease

instance (before after : RotatingStore) : Decidable (Untouched before after) :=
  decidable_of_iff (after.store.stop = before.store.stop ∧ after.fdOpen = before.fdOpen ∧
      after.lease = before.lease)
    ⟨fun h => ⟨h.1, h.2.1, h.2.2⟩, fun h => ⟨h.1, h.2, h.3⟩⟩

/-- In every run of a store and its rotations, a call of `prepare_rotation` that answers that none
is needed leaves admission, descriptor and lease as they were exactly when it began with an empty
queue, or with a store that was closed already. With an empty queue it changes nothing at all;
otherwise it leaves the store closed for good, and nothing is admitted again. -/
theorem untouched_iff_queue_empty (cfg : Config) (published : PublishedStoreState)
    (hasher : Hasher) (lease : Option ScopeWriterLease) {events mid : List Event}
    {before after : RotatingStore} {reports pre : List Report} {t : Nat} {reason : String}
    (reached : (machine cfg).run (.boot published hasher lease) events = some (before, reports))
    (called : (machine cfg).run before (.prepare t :: mid) =
      some (after, pre ++ [.answered t .rotationNotNeeded reason]))
    (first : ∀ r ∈ pre, ¬ r.Answers t) :
    (Untouched before after ↔ before.store.queue = [] ∨ Closed before) ∧
    (before.store.queue = [] → after = before) ∧
    (before.store.queue ≠ [] → ∀ later last reports',
      (machine cfg).run after later = some (last, reports') →
      Closed last ∧ ∀ r, .store (.admitted r) ∉ reports') := by
  have sound := run_sound reached
  have soundAfter := run_sound ((machine cfg).run_append_eq_some.mpr
    ⟨before, _, _, reached, called, rfl⟩)
  rcases call_cases sound called first with ⟨idle, rfl⟩ | ⟨waiting, closed⟩
  · refine ⟨⟨fun _ => .inl idle, fun _ => ⟨rfl, rfl, rfl⟩⟩, fun _ => rfl, ?_⟩
    intro waiting
    exact absurd idle waiting
  · refine ⟨⟨?_, ?_⟩, fun idle => absurd idle waiting, ?_⟩
    · intro same
      refine .inr ⟨?_, ?_, ?_⟩
      · rw [← same.admission]
        exact closed.stopped
      · rw [← same.descriptor]
        exact closed.descriptor
      · rw [← same.lease]
        exact closed.released
    · rintro (idle | shut)
      · exact absurd idle waiting
      · exact ⟨closed.stopped.trans shut.stopped.symm,
          closed.descriptor.trans shut.descriptor.symm, closed.released.trans shut.released.symm⟩
    · intro _ later last reports' ran
      exact run_closed soundAfter closed ran

private def legacyConfig : Config where
  crypto := stdCrypto
  key := zeros 32
  scopeId := 7
  segmentId := 1
  base := emptyBaseView
  u8Domain := true
  limits := .default
  context := none

private def newStore : RotatingStore :=
  .boot ⟨genesisSnapshot, none⟩ ⟨[]⟩ (some ⟨1, 7, .ownedByStore, true⟩)

theorem untouched_iff_queue_empty_new :
    (Untouched newStore newStore ↔ newStore.store.queue = [] ∨ Closed newStore) ∧
    (newStore.store.queue = [] → newStore = newStore) ∧
    (newStore.store.queue ≠ [] → ∀ later last reports',
      (machine legacyConfig).run newStore later = some (last, reports') →
      Closed last ∧ ∀ r, .store (.admitted r) ∉ reports') :=
  @untouched_iff_queue_empty legacyConfig ⟨genesisSnapshot, none⟩ ⟨[]⟩
    (some ⟨1, 7, .ownedByStore, true⟩) [] [] newStore newStore [] [] 0 "sem registros novos"
    rfl rfl nofun

/-- One command, cancelled before the drain: the call fences the store, finds nothing to seal and
leaves the store closed. -/
theorem cancelled_queue_closes : ∃ before after told told',
    (machine legacyConfig).run newStore [.store (.submit 0 firstPut), .store (.cancel 0)] =
      some (before, told) ∧ (machine legacyConfig).run before
        [.prepare 1, .store .drain, .store (.halt false), .join 1, .conclude 1 .prepared] =
      some (after, told' ++ [.answered 1 .rotationNotNeeded "drenou vazio; nada a selar"]) ∧
    ¬ Untouched before after ∧ before.store.stop = false ∧ Closed after := by
  refine ⟨_, _, _, [.quiet, .store .quiet, .store .quiet, .quiet], rfl, rfl, ?_, rfl, ?_⟩
  · intro same
    cases same.admission
  · exact ⟨rfl, rfl, rfl⟩

end ProofRay.Engine.Rotation
