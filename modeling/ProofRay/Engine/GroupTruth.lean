/- What the clients of a group commit are told is true, in every interleaving. -/

import ProofRay.Engine.GroupSteps

namespace ProofRay.Engine.GroupCommit

open Lib.Machine (invariant_run run_cons_eq_some)

section

variable {cfg : Config} {s s' : GroupStore}

def GroupStore.Refused (s : GroupStore) (r : Nat) : Prop :=
  ∃ q, s.requests r = some q ∧ (q.cancelled = true ∨ q.status = some .notAccepted)

variable {r : Nat}

theorem Sound.refused_leads (h : Sound cfg s) (refused : s.Refused r) (leads : s.Leads s') :
    s'.Refused r := by
  obtain ⟨q, held, why⟩ := refused
  obtain ⟨q', held', leads'⟩ := leads r q held
  refine ⟨q', held', ?_⟩
  rcases why with cancelled | told
  · exact .inl (leads'.cancelled cancelled)
  · have done := (h.roster.request r q held).answered.mpr (by simp [told])
    rw [leads'.done done]
    exact .inr told

theorem Sound.refused_unwritten (h : Sound cfg s) (refused : s.Refused r) :
    (∀ write ∈ s.writes, r ∉ write.batch) ∧
      ∀ q, s.requests r = some q → ∀ status ∈ q.status, status = .notAccepted := by
  obtain ⟨q, held, why⟩ := refused
  have sound := h.roster.request r q held
  constructor
  · intro write logged member
    obtain ⟨-, q', held', taken, told'⟩ := h.written write logged r member
    rw [held] at held'
    cases held'
    rcases why with cancelled | told
    · rw [(sound.cancelled cancelled).1] at taken
      cases taken
    · exact told' told
  · intro q' held' status member
    rw [held] at held'
    cases held'
    rcases why with cancelled | told
    · exact (sound.cancelled cancelled).2 status member
    · rw [Option.mem_def, told, Option.some.injEq] at member
      exact member.symm

/-- Only `result` tells a status, and only `cancel` says that it won. -/
theorem step_tells (h : Sound cfg s) {e : Event} {report : Report}
    (stepped : step cfg s e = some (s', report)) :
    (∀ r status n, report = .told r status n → ∃ timedOut, e = .result r timedOut) ∧
      ∀ r, report = .cancelled r true → e = .cancel r := by
  have silent : ∀ report' : Report, (report' = .quiet ∨ (∃ r, report' = .admitted r) ∨
      report' = .refused ∨ ∃ snapshot, report' = .captured snapshot) → report = report' →
      (∀ r status n, report = .told r status n → ∃ timedOut, e = .result r timedOut) ∧
      ∀ r, report = .cancelled r true → e = .cancel r := by
    rintro report' quiet rfl
    constructor
    · rintro r status n rfl
      rcases quiet with no | ⟨_, no⟩ | no | ⟨_, no⟩ <;> cases no
    · rintro r rfl
      rcases quiet with no | ⟨_, no⟩ | no | ⟨_, no⟩ <;> cases no
  cases e with
  | submit r cmd =>
    rcases (submit_sound h stepped).1 with rfl | rfl
    · exact silent _ (.inl rfl) rfl
    · exact silent _ (.inr (.inl ⟨r, rfl⟩)) rfl
  | result r timedOut =>
    constructor
    · intro x status n told
      have stepped : resolve s r timedOut = some (s', report) := stepped
      unfold resolve at stepped
      split at stepped
      · cases stepped
      · split at stepped
        · cases stepped
          cases told
          exact ⟨timedOut, rfl⟩
        · split at stepped <;> cases stepped
          cases told
          exact ⟨timedOut, rfl⟩
        · split at stepped <;> cases stepped
          cases told
          exact ⟨timedOut, rfl⟩
    · intro x won
      have stepped : resolve s r timedOut = some (s', report) := stepped
      unfold resolve at stepped
      split at stepped
      · cases stepped
      · split at stepped
        · cases stepped
          cases won
        · split at stepped <;> cases stepped
          cases won
        · split at stepped <;> cases stepped
          cases won
  | cancel r =>
    have stepped : cancel s r = some (s', report) := stepped
    unfold cancel at stepped
    split at stepped
    · cases stepped
    · split at stepped <;> cases stepped
      · refine ⟨nofun, ?_⟩
        intro x won
        cases won
        rfl
      · exact ⟨nofun, nofun⟩
  | capture =>
    cases stepped
    exact silent _ (.inr (.inr (.inr ⟨_, rfl⟩))) rfl
  | adopt cursor =>
    have reported : report = (adopt s cursor).2 := by rw [Option.some.inj stepped]
    apply silent (adopt s cursor).2 _ reported
    unfold adopt
    simp only
    split
    · exact .inr (.inr (.inl rfl))
    · exact .inl rfl
  | fence needed =>
    have reported : report = (fence s needed).2 := by rw [Option.some.inj stepped]
    apply silent (fence s needed).2 _ reported
    unfold fence
    split
    · exact .inr (.inr (.inl rfl))
    · split
      · exact .inl rfl
      · exact .inr (.inr (.inl rfl))
  | close =>
    cases stepped
    exact silent _ (.inl rfl) rfl
  | drain => exact silent _ (.inl rfl) (drain_sound h stepped).1
  | plan => exact silent _ (.inl rfl) (plan_sound h stepped).1
  | intend failpoint => exact silent _ (.inl rfl) (intend_sound h stepped).1
  | writeDurable outcome => exact silent _ (.inl rfl) (writeDurable_sound h stepped).1
  | writeLegacy outcome => exact silent _ (.inl rfl) (writeLegacy_sound h stepped).1
  | publish cursor => exact silent _ (.inl rfl) (publish_sound h stepped).1
  | swap => exact silent _ (.inl rfl) (swap_sound h stepped).1
  | acknowledge failpoint => exact silent _ (.inl rfl) (acknowledge_sound h stepped).1
  | reply => exact silent _ (.inl rfl) (reply_sound h stepped).1
  | halt raised => exact silent _ (.inl rfl) (halt_sound h stepped).1

/-- What `result` tells: the status of a request that is done, `NOT_ACCEPTED` of one that it
cancels by that, or `COMMIT_UNKNOWN` of one that is claimed. -/
theorem resolve_tells (h : Sound cfg s) {timedOut : Bool} {status : Option Status} {n : Option Int}
    (told : resolve s r timedOut = some (s', .told r status n)) :
    (status = some .notAccepted → s'.Refused r) ∧
    (status = some .applied →
      ∃ q, s'.requests r = some q ∧ q.status = some .applied ∧ q.walSeq = n) ∧
    (status = some .commitUnknown → s.Claimed r) := by
  unfold resolve at told
  split at told
  · cases told
  · rename_i q held
    have sound := h.roster.request r q held
    split at told
    · cases told
      refine ⟨?_, ?_, ?_⟩
      · intro status
        exact ⟨q, held, .inr status⟩
      · intro status
        exact ⟨q, held, status, rfl⟩
      · intro status
        exact ⟨q, held, sound.unknown status⟩
    · split at told <;> cases told
      refine ⟨?_, nofun, nofun⟩
      intro _
      exact ⟨q.cancel, Function.update_self .., .inl rfl⟩
    · rename_i taken
      split at told <;> cases told
      refine ⟨nofun, nofun, ?_⟩
      intro _
      exact ⟨q, held, sound.taken taken⟩

variable {reports : List Report} {events : List Event}

theorem run_sound {published : PublishedStoreState} {hasher : Hasher}
    (ran : (machine cfg).run (.boot published hasher) events = some (s, reports)) :
    Sound cfg s := by
  apply invariant_run _ (sound_boot cfg published hasher) ran
  intro s e next report sound stepped
  exact (step_sound sound stepped).1

theorem run_leads (h : Sound cfg s) (ran : (machine cfg).run s events = some (s', reports)) :
    Sound cfg s' ∧ s.Leads s' := by
  have kept : ∀ t, Sound cfg t ∧ s.Leads t → ∀ e next report,
      step cfg t e = some (next, report) → Sound cfg next ∧ s.Leads next := by
    intro t both e next report stepped
    obtain ⟨sound, leads⟩ := step_sound both.1 stepped
    exact ⟨sound, both.2.trans leads⟩
  apply invariant_run (I := fun t => Sound cfg t ∧ s.Leads t) _ ⟨h, .refl s⟩ ran
  intro t e next report both stepped
  exact kept t both e next report stepped

end

private def legacy : Config where
  crypto := stdCrypto
  key := zeros 32
  scopeId := 7
  segmentId := 1
  base := emptyBaseView
  u8Domain := true
  limits := .default
  context := none

private def put : CommitCommand := { firstPut with enqueueTicket := 1 }

private theorem put_planned : ∃ plan, prepareBatch stdCrypto genesisSnapshot ⟨[]⟩ [put] (zeros 32)
    7 1 emptyBaseView true = .ok plan ∧ plan.receipts = [⟨1, .applied, some 1⟩] := by
  have receipts : (prepareBatch stdCrypto genesisSnapshot ⟨[]⟩ [put] (zeros 32) 7 1 emptyBaseView
      true).toOption.map BatchPlan.receipts = some [⟨1, .applied, some 1⟩] := by
    decide +kernel
  cases planned : prepareBatch stdCrypto genesisSnapshot ⟨[]⟩ [put] (zeros 32) 7 1 emptyBaseView
      true with
  | error e =>
    rw [planned] at receipts
    cases receipts
  | ok plan =>
    rw [planned] at receipts
    exact ⟨plan, rfl, Option.some.inj receipts⟩

private def standing (requests : Nat → Option Request) (published : PublishedStoreState)
    (hasher : Hasher) (stateId : Nat) (writes : List WalWrite) (phase : Phase) : GroupStore where
  requests := requests
  queue := []
  queueBytes := 0
  ticket := 1
  poisoned := false
  stop := false
  stateId := stateId
  published := published
  hasher := hasher
  writes := writes
  phase := phase

end ProofRay.Engine.GroupCommit
