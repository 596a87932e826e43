/- Each step of the group commit keeps what `GroupRequests` says of the store. -/

import ProofRay.Engine.GroupRequests

namespace ProofRay.Engine.GroupCommit

open Lib.Guard

section

variable {cfg : Config} {s : GroupStore}

variable {s' : GroupStore} {report : Report} {r : Nat} {batch : List Nat} {q : Request}

theorem Sound.placed (h : Sound cfg s) {phase : Phase} (place : s.phase = phase) :
    s.phase.flight = phase.flight ∧ phase.Fits cfg s := by
  rw [← place]
  exact ⟨rfl, h.fits⟩

theorem Sound.replace (h : Sound cfg s) {r : Nat} {q q' : Request} (held : s.requests r = some q)
    (leads : q.Leads q') (sound : q'.Sound s.ticket) (queue : List Nat) (bytes : Nat)
    (phase : Phase) (nodup : (queue ++ phase.flight).Nodup)
    (queued : ∀ x ∈ queue, x ∈ s.queue ∧ (x = r → q'.state = .admitted))
    (flying : ∀ x ∈ phase.flight, (x = r → q'.state ≠ .done) ∧ (x ≠ r → x ∈ s.phase.flight))
    (fits : phase.Fits cfg { s with requests := Function.update s.requests r (some q') })
    (spared : ∀ write ∈ s.writes, ∀ x ∈ write.batch, s.phase.Spares x → phase.Spares x)
    (kept : ∀ write ∈ s.writes, r ∈ write.batch → q'.status ≠ some .notAccepted)
    (acked : q'.status = some .applied →
      ∃ n, q'.walSeq = some n ∧ s.published.snapshot.Contains cfg.crypto q'.cmd n) :
    Sound cfg { s with
      requests := Function.update s.requests r (some q')
      queue := queue, queueBytes := bytes, phase := phase } := by
  refine ⟨h.roster.set held leads.cmd sound, nodup, ?_, ?_, ?_, ?_, ?_⟩
  · intro x member
    obtain ⟨before, here⟩ := queued x member
    by_cases same : x = r
    · exact ⟨q', by simp [same], here same⟩
    · obtain ⟨p, heldX, waiting⟩ := h.queued x before
      exact ⟨p, by simpa [same] using heldX, waiting⟩
  · intro x member
    obtain ⟨here, before⟩ := flying x member
    by_cases same : x = r
    · exact ⟨q', by simp [same], here same⟩
    · obtain ⟨p, heldX, live⟩ := h.flying x (before same)
      exact ⟨p, by simpa [same] using heldX, live⟩
  · exact fits.leads (.of_eq rfl) rfl
  · intro write logged x member
    obtain ⟨spares, p, heldX, taken, told⟩ := h.written write logged x member
    refine ⟨spared write logged x member spares, ?_⟩
    by_cases same : x = r
    · subst same
      rw [held] at heldX
      cases heldX
      exact ⟨q', by simp, leads.claimed taken, kept write logged member⟩
    · exact ⟨p, by simpa [same] using heldX, taken, told⟩
  · intro x p found
    have found : Function.update s.requests r (some q') x = some p := found
    by_cases same : x = r
    · subst same
      rw [Function.update_self] at found
      cases found
      exact acked
    · rw [Function.update_of_ne same] at found
      exact h.acked x p found

theorem Sound.add (h : Sound cfg s) {r ticket : Nat} (fresh : s.requests r = none)
    (sound : q.Sound ticket) (le : s.ticket ≤ ticket)
    (new : q.cmd.enqueueTicket = 0 ∨ s.ticket < q.cmd.enqueueTicket) (queue : List Nat)
    (bytes : Nat) (joins : queue = s.queue ∨ queue = s.queue ++ [r] ∧ q.state = .admitted)
    (unapplied : q.status ≠ some .applied) :
    Sound cfg { s with
      requests := Function.update s.requests r (some q), ticket := ticket
      queue := queue, queueBytes := bytes } := by
  have other : ∀ x p, s.requests x = some p → x ≠ r := by
    rintro x p held rfl
    rw [fresh] at held
    cases held
  have still : ∀ x p, s.requests x = some p →
      Function.update s.requests r (some q) x = some p := by
    intro x p held
    rwa [Function.update_of_ne (other x p held)]
  have outside : r ∉ s.queue ++ s.phase.flight := by
    intro member
    rcases List.mem_append.mp member with waiting | flying
    · obtain ⟨p, held, -⟩ := h.queued r waiting
      exact other r p held rfl
    · obtain ⟨p, held, -⟩ := h.flying r flying
      exact other r p held rfl
  have before : ∀ x ∈ s.queue, ∃ p, Function.update s.requests r (some q) x = some p ∧
      p.state = .admitted := by
    intro x member
    obtain ⟨p, held, waiting⟩ := h.queued x member
    exact ⟨p, still x p held, waiting⟩
  refine ⟨h.roster.add fresh sound le new, ?_, ?_, ?_, ?_, ?_, ?_⟩
  · rcases joins with rfl | ⟨rfl, -⟩
    · exact h.held
    · have moved : (s.queue ++ [r] ++ s.phase.flight).Perm (r :: (s.queue ++ s.phase.flight)) := by
        rw [List.append_assoc]
        exact List.perm_middle
      exact moved.nodup_iff.mpr (List.nodup_cons.mpr ⟨outside, h.held⟩)
  · intro x member
    rcases joins with rfl | ⟨rfl, waiting⟩
    · exact before x member
    · rcases List.mem_append.mp member with old | last
      · exact before x old
      · rw [List.mem_singleton] at last
        exact ⟨q, by simp [last], waiting⟩
  · intro x member
    obtain ⟨p, held, live⟩ := h.flying x member
    exact ⟨p, still x p held, live⟩
  · exact h.fits.leads (leads_fresh fresh rfl) rfl
  · intro write logged x member
    obtain ⟨spares, p, held, taken, told⟩ := h.written write logged x member
    exact ⟨spares, p, still x p held, taken, told⟩
  · intro x p found applied
    have found : Function.update s.requests r (some q) x = some p := found
    by_cases same : x = r
    · subst same
      rw [Function.update_self] at found
      cases found
      exact absurd applied unapplied
    · rw [Function.update_of_ne same] at found
      exact h.acked x p found applied

theorem Sound.turn (h : Sound cfg s) (phase : Phase)
    (flight : phase.flight = s.phase.flight ∨ phase.flight = []) (fits : phase.Fits cfg s)
    (spared : ∀ x, s.phase.Spares x → phase.Spares x) : Sound cfg { s with phase := phase } := by
  refine ⟨h.roster, ?_, h.queued, ?_, fits.leads (.of_eq rfl) rfl, ?_, h.acked⟩
  · rcases flight with same | none
    · rw [same]
      exact h.held
    · rw [none, List.append_nil]
      exact h.held.of_append_left
  · intro x member
    rcases flight with same | none
    · rw [same] at member
      exact h.flying x member
    · rw [none] at member
      cases member
  · intro write logged x member
    obtain ⟨spares, told⟩ := h.written write logged x member
    exact ⟨spared x spares, told⟩

theorem Sound.untold (h : Sound cfg s) (flying : r ∈ s.phase.flight) (claimed : s.Claimed r) :
    ∃ q, s.requests r = some q ∧ q.claimed = true ∧ q.status = none := by
  obtain ⟨q, held, live⟩ := h.flying r flying
  obtain ⟨q', held', taken⟩ := claimed
  rw [held] at held'
  cases held'
  refine ⟨q, held, taken, ?_⟩
  apply Option.not_isSome_iff_eq_none.mp
  intro told
  exact live ((h.roster.request r q held).answered.mpr told)

theorem Sound.queued_unwritten (h : Sound cfg s) (waiting : r ∈ s.queue) :
    ∀ write ∈ s.writes, r ∉ write.batch := by
  intro write logged member
  obtain ⟨-, q, held, taken, -⟩ := h.written write logged r member
  obtain ⟨q', held', admitted⟩ := h.queued r waiting
  rw [held] at held'
  cases held'
  rw [(h.roster.request r q held).admitted admitted] at taken
  cases taken

/-- The write of a batch in hand, on the way to a place from which none of it is told
`NOT_ACCEPTED`. -/
theorem Sound.write (h : Sound cfg s) (flight : s.phase.flight = batch)
    (claimed : ∀ r ∈ batch, s.Claimed r) (plan : BatchPlan) (arrived : Nat) (phase : Phase)
    (same : phase.flight = batch ∨ phase.flight = []) (fits : phase.Fits cfg s)
    (spared : ∀ x, phase.Spares x) :
    Sound cfg { s with writes := s.writes ++ [⟨batch, plan, arrived⟩], phase := phase } := by
  have turned : Sound cfg { s with phase := phase } := by
    apply h.turn phase _ fits
    · intro x _
      exact spared x
    · rw [flight]
      exact same
  refine ⟨turned.roster, turned.held, turned.queued, turned.flying,
    turned.fits.leads (.of_eq rfl) rfl, ?_, turned.acked⟩
  intro write logged x member
  rcases List.mem_append.mp logged with old | new
  · exact turned.written write old x member
  · rw [List.mem_singleton] at new
    subst new
    have member : x ∈ batch := member
    have flying : x ∈ s.phase.flight := by rwa [flight]
    obtain ⟨q, held, taken, none⟩ := h.untold flying (claimed x member)
    exact ⟨spared x, q, held, taken, by simp [none]⟩

/-- The start of a poisoning that tells the batch `COMMIT_UNKNOWN`, or `NOT_ACCEPTED` before
anything of it was written. -/
theorem Sound.poison (h : Sound cfg s) (flight : s.phase.flight = batch)
    (claimed : ∀ r ∈ batch, s.Claimed r) (status : Status)
    (told : status = .commitUnknown ∨ status = .notAccepted ∧ ∀ x, s.phase.Spares x → x ∉ batch) :
    Sound cfg (s.poison batch status) := by
  have fst : ((s.poison batch status).queue ++ (s.poison batch status).phase.flight) =
      batch ++ s.queue := by
    simp [GroupStore.poison, Phase.flight, Function.comp_def]
  refine ⟨h.roster, ?_, ?_, ?_, ?_, ?_, h.acked⟩
  · rw [fst]
    have nodup := h.held
    rw [flight] at nodup
    exact (List.perm_append_comm.nodup_iff).mpr nodup
  · intro r member
    cases member
  · intro r member
    have member : r ∈ batch ++ s.queue := by
      rw [← fst]
      exact List.mem_append_right _ member
    rcases List.mem_append.mp member with mine | waiting
    · exact h.flying r (flight ▸ mine)
    · obtain ⟨q, held, admitted⟩ := h.queued r waiting
      refine ⟨q, held, ?_⟩
      rw [admitted]
      exact RequestState.noConfusion
  · intro owed member
    rcases List.mem_append.mp member with mine | waiting
    · obtain ⟨r, among, rfl⟩ := List.mem_map.mp mine
      rcases told with unknown | ⟨refused, -⟩
      · exact .inr ⟨unknown, claimed r among⟩
      · exact .inl refused
    · obtain ⟨r, -, rfl⟩ := List.mem_map.mp waiting
      exact .inl rfl
  · intro write logged x member
    obtain ⟨spares, wasTold⟩ := h.written write logged x member
    refine ⟨?_, wasTold⟩
    intro owed
    rcases List.mem_append.mp owed with mine | waiting
    · obtain ⟨r, among, same⟩ := List.mem_map.mp mine
      cases same
      rcases told with unknown | ⟨-, outside⟩
      · cases unknown
      · exact outside x spares among
    · obtain ⟨r, among, same⟩ := List.mem_map.mp waiting
      cases same
      exact h.queued_unwritten among write logged member

/-- The swap: the candidate takes the place of the snapshot it was planned from, and the receipts
can be given. -/
theorem Sound.swap (h : Sound cfg s) {plan : BatchPlan} (flight : s.phase.flight = batch)
    (claimed : ∀ r ∈ batch, s.Claimed r) (planned : PlanOf cfg s batch plan)
    (cursor : Option PublishedCursor) (hasher : Hasher) (stateId : Nat) :
    Sound cfg { s with
      published := ⟨plan.candidateSnapshot, cursor⟩, hasher := hasher, stateId := stateId
      phase := .swapped batch plan } := by
  obtain ⟨source, prepared⟩ := planned
  refine ⟨h.roster, ?_, h.queued, ?_, ?_, ?_, ?_⟩
  · have nodup := h.held
    rw [flight] at nodup
    exact nodup
  · intro r member
    exact h.flying r (flight ▸ member)
  · refine ⟨claimed, ?_⟩
    intro receipt member
    obtain ⟨accepted, certain, applied⟩ := prepareBatch_receipts prepared receipt member
    refine ⟨accepted, certain, ?_⟩
    intro status
    obtain ⟨-, cmd, among, n, ticket, seq, contained⟩ := applied status
    obtain ⟨r, mine, found⟩ := List.mem_filterMap.mp among
    obtain ⟨q, held, live⟩ := h.flying r (flight ▸ mine)
    rw [held, Option.map_some, Option.some.injEq] at found
    subst found
    exact ⟨r, q, n, held, (h.roster.request r q held).ticketed live, ticket, seq, contained⟩
  · intro write logged x member
    exact ⟨trivial, (h.written write logged x member).2⟩
  · intro r q held applied
    obtain ⟨n, seq, contained⟩ := h.acked r q held applied
    exact ⟨n, seq, contained.candidate prepared⟩

theorem PlanOf.answers {plan : BatchPlan} (planned : PlanOf cfg s batch plan)
    (none : plan.appliedCount = 0 ∨ plan.frames = []) : Answers cfg s plan := by
  obtain ⟨source, prepared⟩ := planned
  intro receipt member
  obtain ⟨accepted, certain, applied⟩ := prepareBatch_receipts prepared receipt member
  refine ⟨accepted, certain, ?_⟩
  intro status
  rcases none with zero | empty
  · rw [BatchPlan.appliedCount, List.countP_eq_zero] at zero
    exact absurd (by simpa using status) (zero receipt member)
  · exact absurd empty (applied status).1

variable {outcome : WriteOutcome} {failpoint : Bool} {status : Status}

theorem Sound.finish (h : Sound cfg s) {r : Nat} {rest : List Nat} (phase : Phase)
    (flight : s.phase.flight = r :: rest) (flight' : phase.flight = rest)
    (fits : phase.Fits cfg s) (spared : ∀ x, s.phase.Spares x → phase.Spares x)
    {q : Request} (held : s.requests r = some q) {status : Status} {walSeq : Option Int}
    (cancelled : q.cancelled = true → status = .notAccepted)
    (unknown : status = .commitUnknown → q.claimed = true)
    (refused : status = .notAccepted → ∀ write ∈ s.writes, r ∉ write.batch)
    (applied : status = .applied →
      ∃ n, walSeq = some n ∧ s.published.snapshot.Contains cfg.crypto q.cmd n) :
    Sound cfg { s.finish r status walSeq with phase := phase } ∧
      s.Leads { s.finish r status walSeq with phase := phase } := by
  have sound := h.roster.request r q held
  have live : q.state ≠ .done := by
    obtain ⟨q', held', live⟩ := h.flying r (by simp [flight])
    rw [held] at held'
    cases held'
    exact live
  have leads : q.Leads (q.finish status walSeq) := ⟨rfl, fun done => absurd done live, id, id⟩
  have state : { s.finish r status walSeq with phase := phase } = { s with
      requests := Function.update s.requests r (some (q.finish status walSeq))
      queue := s.queue, queueBytes := s.queueBytes, phase := phase } := by
    simp only [GroupStore.finish, held, GroupStore.setRequest]
  have nodup := h.held
  rw [flight] at nodup
  have apart : r ∉ s.queue ∧ r ∉ rest ∧ (s.queue ++ rest).Nodup := by
    have moved := List.perm_middle.nodup_iff.mp nodup
    rw [List.nodup_cons, List.mem_append, not_or] at moved
    exact ⟨moved.1.1, moved.1.2, moved.2⟩
  rw [state]
  refine ⟨?_, leads_update held leads rfl⟩
  apply h.replace held leads (sound.finish cancelled unknown)
  · rw [flight']
    exact apart.2.2
  · intro x waiting
    refine ⟨waiting, ?_⟩
    rintro rfl
    exact absurd waiting apart.1
  · intro x member
    rw [flight'] at member
    refine ⟨?_, fun _ => by simp [flight, member]⟩
    rintro rfl
    exact absurd member apart.2.1
  · exact fits.leads (leads_update held leads rfl) rfl
  · intro write _ x _ spares
    exact spared x spares
  · intro write logged member told
    simp only [Request.finish, Option.some.injEq] at told
    exact refused told write logged member
  · intro told
    simp only [Request.finish, Option.some.injEq] at told
    exact applied told

theorem Sound.still (h : Sound cfg s) (poisoned stop : Bool) (stateId : Nat)
    (cursor : Option PublishedCursor) (hasher : Hasher) :
    Sound cfg { s with
      poisoned := poisoned, stop := stop, stateId := stateId
      published := ⟨s.published.snapshot, cursor⟩, hasher := hasher } :=
  ⟨h.roster, h.held, h.queued, h.flying, h.fits.leads (.of_eq rfl) rfl, h.written, h.acked⟩

theorem Sound.instant (h : Sound cfg s) (fresh : s.requests r = none) (cmd : CommitCommand)
    (refused : status = .notAccepted ∨ status = .overloaded) :
    Sound cfg (instant s r cmd status) ∧ s.Leads (instant s r cmd status) := by
  refine ⟨?_, leads_fresh fresh rfl⟩
  apply h.add fresh _ le_rfl (.inl rfl) s.queue s.queueBytes (.inl rfl)
  · rcases refused with rfl | rfl <;> simp
  · refine ⟨by simp, by simp, by simp, by simp, ?_, by simp, by simp⟩
    rcases refused with rfl | rfl <;> simp

theorem submit_sound (h : Sound cfg s) {cmd : CommitCommand}
    (stepped : submit cfg s r cmd = some (s', report)) :
    (report = .quiet ∨ report = .admitted r) ∧ Sound cfg s' ∧ s.Leads s' := by
  unfold submit at stepped
  simp only at stepped
  split at stepped
  · cases stepped
  · rename_i known
    have fresh := not_not.mp known
    split at stepped
    · cases stepped
      exact ⟨.inl rfl, h.instant fresh cmd (.inl rfl)⟩
    · split at stepped
      · cases stepped
        exact ⟨.inl rfl, h.instant fresh cmd (.inr rfl)⟩
      · split at stepped
        · cases stepped
          exact ⟨.inl rfl, h.instant fresh cmd (.inr rfl)⟩
        · cases stepped
          refine ⟨.inr rfl, ?_, leads_fresh fresh rfl⟩
          apply h.add fresh _ (Nat.le_succ _) (.inr (Nat.lt_succ_self _)) _ _ (.inr ⟨rfl, rfl⟩)
          · simp
          · exact ⟨by simp, by simp, by simp, by simp, by simp, by simp, by simp⟩

theorem Sound.cancelled (h : Sound cfg s) (held : s.requests r = some q)
    (waiting : q.state = .admitted) :
    Sound cfg (s.setRequest r q.cancel) ∧ s.Leads (s.setRequest r q.cancel) := by
  have leads : q.Leads q.cancel := by
    refine ⟨rfl, ?_, fun _ => rfl, id⟩
    intro done
    rw [waiting] at done
    cases done
  have sound := h.roster.request r q held
  refine ⟨?_, leads_update held leads rfl⟩
  apply h.replace held leads (sound.cancel waiting) s.queue s.queueBytes s.phase h.held
  · intro x member
    exact ⟨member, fun _ => waiting⟩
  · intro x member
    refine ⟨?_, fun _ => member⟩
    intro _ done
    rw [show q.cancel.state = q.state from rfl, waiting] at done
    cases done
  · exact h.fits.leads (leads_update held leads rfl) rfl
  · intro _ _ _ _ spares
    exact spares
  · intro write logged member
    obtain ⟨-, q', held', -, told⟩ := h.written write logged r member
    rw [held] at held'
    cases held'
    exact told
  · exact h.acked r q held

theorem resolve_sound (h : Sound cfg s) {timedOut : Bool}
    (stepped : resolve s r timedOut = some (s', report)) : Sound cfg s' ∧ s.Leads s' := by
  unfold resolve at stepped
  split at stepped
  · cases stepped
  · rename_i q held
    split at stepped
    · cases stepped
      exact ⟨h, .refl s⟩
    · rename_i waiting
      split at stepped <;> cases stepped
      exact h.cancelled held waiting
    · split at stepped <;> cases stepped
      exact ⟨h, .refl s⟩

theorem cancel_sound (h : Sound cfg s) (stepped : cancel s r = some (s', report)) :
    Sound cfg s' ∧ s.Leads s' := by
  unfold cancel at stepped
  split at stepped
  · cases stepped
  · rename_i q held
    split at stepped
    · rename_i waiting
      cases stepped
      exact h.cancelled held waiting
    · cases stepped
      exact ⟨h, .refl s⟩

theorem fence_sound (h : Sound cfg s) (needed : Bool) :
    Sound cfg (fence s needed).1 ∧ s.Leads (fence s needed).1 := by
  unfold fence
  split
  · exact ⟨h, .refl s⟩
  · split
    · exact ⟨h.still s.poisoned true s.stateId s.published.cursor s.hasher, .of_eq rfl⟩
    · exact ⟨h, .refl s⟩

theorem adopt_sound (h : Sound cfg s) (cursor : PublishedCursor) :
    Sound cfg (adopt s cursor).1 ∧ s.Leads (adopt s cursor).1 := by
  unfold adopt
  simp only
  split
  · exact ⟨h, .refl s⟩
  · exact ⟨h.still s.poisoned s.stop (s.stateId + 1) (some cursor) s.hasher, .of_eq rfl⟩

/-- One turn of the drain, seen with the batch so far in the hands of the worker: the head of the
queue is answered when it was cancelled, and claimed otherwise. -/
theorem Sound.popped (h : Sound cfg s) {batch rest : List Nat} {snapshot : L0Snapshot}
    {hasher : Hasher} (place : s.phase = .claimed batch snapshot hasher)
    (queue : s.queue = r :: rest) (held : s.requests r = some q) (bytes : Nat) :
    (q.cancelled = true →
      Sound cfg { s with
        requests := Function.update s.requests r (some (q.finish .notAccepted none))
        queue := rest, queueBytes := bytes } ∧ q.Leads (q.finish .notAccepted none)) ∧
    (q.cancelled = false →
      Sound cfg { s with
        requests := Function.update s.requests r (some q.claim)
        queue := rest, queueBytes := bytes
        phase := .claimed (batch ++ [r]) snapshot hasher } ∧ q.Leads q.claim) := by
  have sound := h.roster.request r q held
  have waiting : q.state = .admitted := by
    obtain ⟨q', held', waiting⟩ := h.queued r (by simp [queue])
    rw [held] at held'
    cases held'
    exact waiting
  have live : q.state ≠ .done := by
    rw [waiting]
    exact RequestState.noConfusion
  obtain ⟨(flight : _ = batch), fits⟩ := h.placed place
  have nodup : r ∉ rest ++ batch ∧ (rest ++ batch).Nodup := by
    have all := h.held
    rw [queue, flight, List.cons_append] at all
    exact List.nodup_cons.mp all
  have unwritten := h.queued_unwritten (r := r) (by simp [queue])
  have waits : ∀ x ∈ rest, x ∈ s.queue ∧ x ≠ r := by
    intro x member
    refine ⟨by simp [queue, member], ?_⟩
    rintro rfl
    exact nodup.1 (List.mem_append_left _ member)
  have flies : ∀ x ∈ batch, x ≠ r := by
    rintro x member rfl
    exact nodup.1 (List.mem_append_right _ member)
  constructor
  · intro gone
    have leads : q.Leads (q.finish .notAccepted none) := ⟨rfl, fun done => absurd done live, id, id⟩
    refine ⟨?_, leads⟩
    apply h.replace held leads (sound.finish (fun _ => rfl) (by simp)) rest bytes s.phase
    · rw [flight]
      exact nodup.2
    · intro x member
      exact ⟨(waits x member).1, fun same => absurd same (waits x member).2⟩
    · intro x member
      rw [flight] at member ⊢
      exact ⟨fun same => absurd same (flies x member), fun _ => member⟩
    · rw [place]
      exact fits.leads (leads_update held leads rfl) rfl
    · intro _ _ _ _ spares
      exact spares
    · intro write logged member
      exact absurd member (unwritten write logged)
    · intro told
      simp [Request.finish] at told
  · intro chosen
    have leads : q.Leads q.claim := ⟨rfl, fun done => absurd done live, id, fun _ => rfl⟩
    refine ⟨?_, leads⟩
    apply h.replace held leads (sound.claim waiting chosen) rest bytes
    · have moved : (rest ++ (batch ++ [r])).Perm (r :: (rest ++ batch)) := by
        rw [← List.append_assoc]
        exact List.perm_append_singleton r (rest ++ batch)
      exact moved.nodup_iff.mpr (List.nodup_cons.mpr nodup)
    · intro x member
      exact ⟨(waits x member).1, fun same => absurd same (waits x member).2⟩
    · intro x member
      refine ⟨fun _ => RequestState.noConfusion, ?_⟩
      intro other
      rw [flight]
      rcases List.mem_append.mp member with old | last
      · exact old
      · exact absurd (List.mem_singleton.mp last) other
    · refine ⟨?_, fits.2⟩
      intro x member
      rcases List.mem_append.mp member with old | last
      · exact (fits.1 x old).leads (leads_update held leads rfl)
      · rw [List.mem_singleton] at last
        subst last
        exact ⟨q.claim, by simp, rfl⟩
    · intro write logged x member spares
      rw [place] at spares
      intro among
      rcases List.mem_append.mp among with old | last
      · exact spares old
      · rw [List.mem_singleton] at last
        subst last
        exact unwritten write logged member
    · intro write logged member
      exact absurd member (unwritten write logged)
    · intro told
      have told : q.status = some .applied := told
      have done := sound.answered.mpr (by simp [told])
      exact absurd done live

theorem drainLocked_sound (limits : Limits) (snapshot : L0Snapshot) (hasher : Hasher)
    (queue : List Nat) (s : GroupStore) (batch : List Nat) (bytes : Nat)
    (h : Sound cfg { s with phase := .claimed batch snapshot hasher }) (start : s.queue = queue) :
    Sound cfg { (drainLocked limits queue s batch bytes).1 with
        phase := .claimed (drainLocked limits queue s batch bytes).2 snapshot hasher } ∧
      s.Leads (drainLocked limits queue s batch bytes).1 ∧
      (drainLocked limits queue s batch bytes).1.phase = s.phase := by
  induction queue generalizing s batch bytes with
  | nil => exact ⟨h, .refl s, rfl⟩
  | cons r rest ih =>
    unfold drainLocked
    split
    · exact ⟨h, .refl s, rfl⟩
    · cases held : s.requests r with
      | none => exact ⟨h, .refl s, rfl⟩
      | some q =>
        obtain ⟨gone, chosen⟩ := h.popped rfl start held (s.queueBytes - q.size)
        let popped : GroupStore := { s with queue := rest, queueBytes := s.queueBytes - q.size }
        simp only
        split
        · rename_i cancelled
          obtain ⟨sound, leads⟩ := gone cancelled
          obtain ⟨last, onward, phase⟩ := ih
            (popped.setRequest r (q.finish .notAccepted none)) batch bytes sound rfl
          exact ⟨last, (leads_update held leads rfl).trans onward, phase⟩
        · rename_i live
          obtain ⟨sound, leads⟩ := chosen (Bool.eq_false_of_not_eq_true live)
          split
          · exact ⟨h, .refl s, rfl⟩
          · obtain ⟨last, onward, phase⟩ := ih (popped.setRequest r q.claim) (batch ++ [r])
              (bytes + q.size) sound rfl
            exact ⟨last, (leads_update held leads rfl).trans onward, phase⟩

theorem drain_sound (h : Sound cfg s) (stepped : drain cfg s = some (s', report)) :
    report = .quiet ∧ Sound cfg s' ∧ s.Leads s' := by
  unfold drain at stepped
  split at stepped
  · rename_i place
    split at stepped
    · cases stepped
    · have entered : Sound cfg { s with
          phase := .claimed [] s.published.snapshot s.hasher } := by
        apply h.turn (.claimed [] s.published.snapshot s.hasher) (.inr rfl) ⟨by simp, rfl⟩
        intro x _ member
        cases member
      obtain ⟨sound, leads, phase⟩ := drainLocked_sound cfg.limits s.published.snapshot s.hasher
        s.queue s [] 0 entered rfl
      generalize drainLocked cfg.limits s.queue s [] 0 = drained at stepped sound leads phase
      obtain ⟨s₁, batch⟩ := drained
      simp only at stepped sound leads phase
      split at stepped
      · rename_i none
        rw [Option.some.injEq, Prod.mk.injEq] at stepped
        obtain ⟨rfl, rfl⟩ := stepped
        subst none
        refine ⟨rfl, ?_, leads⟩
        have back := sound.turn .idle (.inr rfl) trivial (fun _ _ => trivial)
        have same : ({ s₁ with phase := .idle } : GroupStore) = s₁ := by
          rw [← place, ← phase]
        rw [← same]
        exact back
      · rw [Option.some.injEq, Prod.mk.injEq] at stepped
        obtain ⟨rfl, rfl⟩ := stepped
        refine ⟨rfl, ?_, leads.trans (.of_eq rfl)⟩
        exact sound.turn (.claimed batch s₁.published.snapshot s₁.hasher) (.inl rfl)
          ⟨sound.fits.1, rfl⟩ (fun _ spares => spares)
  · cases stepped

theorem plan_sound (h : Sound cfg s) (stepped : plan cfg s = some (s', report)) :
    report = .quiet ∧ Sound cfg s' ∧ s.Leads s' := by
  unfold plan at stepped
  split at stepped
  · rename_i batch snapshot hasher place
    obtain ⟨-, claimed, same⟩ := h.placed place
    split at stepped
    · cases stepped
      exact ⟨rfl, h.turn .ended (.inr rfl) trivial (fun _ _ => trivial), .of_eq rfl⟩
    · rename_i plan prepared
      cases stepped
      subst same
      refine ⟨rfl, ?_, .of_eq rfl⟩
      apply h.turn
      · rw [place]
        exact .inl rfl
      · exact ⟨claimed, hasher, prepared⟩
      · intro x spares
        rw [place] at spares
        exact spares
  · cases stepped

/-- A batch without `APPLIED` is all that is answered with no publication. -/
theorem noPublication_appliedCount {c : Crypto} {keyring : Keyring} {cursor : PublishedCursor}
    {plan : BatchPlan} {answer : PublishResult}
    (h : prepareBatchPublication c keyring cursor plan = .error (.answer answer))
    (state : answer.state = .noPublicationRequired) : plan.appliedCount = 0 := by
  simp only [prepareBatchPublication, bind_eq_error, require_eq_error, require_eq_ok,
    mapError_eq_error, pure_ne_error, and_false, exists_false, or_false] at h
  rcases h with ⟨none, -⟩ | ⟨-, -, ⟨-, uneven⟩ | ⟨-, -, stop, -, advanced⟩⟩
  · exact not_not.mp none
  · cases uneven
    cases state
  · -- no refusal of the derivation is that answer
    cases stop with
    | raised e => cases advanced
    | refused why reason =>
      cases why <;> cases advanced <;> cases state

theorem intend_sound (h : Sound cfg s) (stepped : intend cfg s failpoint = some (s', report)) :
    report = .quiet ∧ Sound cfg s' ∧ s.Leads s' := by
  unfold intend at stepped
  split at stepped
  · rename_i batch before snapshot published plan keyring place _
    obtain ⟨(flight : _ = batch), claimed, planned⟩ := h.placed place
    have spared : ∀ x, s.phase.Spares x → x ∉ batch := by
      intro x spares
      rw [place] at spares
      exact spares
    have refused : Sound cfg (s.poison batch .notAccepted) :=
      h.poison flight claimed .notAccepted (.inr ⟨rfl, spared⟩)
    split at stepped
    · cases stepped
      exact ⟨rfl, refused, .of_eq rfl⟩
    · cases stepped
    · split at stepped
      · rename_i answer derived
        split at stepped
        · rename_i state
          cases stepped
          refine ⟨rfl, ?_, .of_eq rfl⟩
          apply h.turn
          · rw [flight]
            exact .inl rfl
          · exact ⟨claimed, planned.answers (.inl (noPublication_appliedCount derived state))⟩
          · intro x _
            trivial
        · cases stepped
          exact ⟨rfl, refused, .of_eq rfl⟩
      · cases stepped
        exact ⟨rfl, h.turn .ended (.inr rfl) trivial (fun _ _ => trivial), .of_eq rfl⟩
      · split at stepped
        · cases stepped
          exact ⟨rfl, refused, .of_eq rfl⟩
        · cases stepped
          refine ⟨rfl, ?_, .of_eq rfl⟩
          apply h.turn
          · rw [flight]
            exact .inl rfl
          · exact ⟨claimed, planned⟩
          · exact spared
  · cases stepped

/-- A poisoning with `COMMIT_UNKNOWN`, after whatever reached the log. -/
theorem Sound.uncertain (h : Sound cfg s) (flight : s.phase.flight = batch)
    (claimed : ∀ r ∈ batch, s.Claimed r) (plan : BatchPlan) (begun : Option Nat) :
    Sound cfg ((logged s batch plan begun).poison batch .commitUnknown) := by
  cases begun with
  | none => exact h.poison flight claimed .commitUnknown (.inl rfl)
  | some arrived =>
    -- the write is entered at a place that answers nothing, and the poisoning starts there
    have flying : ∀ x ∈ batch, x ∈ s.phase.flight := by
      intro x member
      rwa [flight]
    have poisoned := h.poison flight claimed .commitUnknown (.inl rfl)
    refine ⟨poisoned.roster, poisoned.held, poisoned.queued, poisoned.flying,
      poisoned.fits.leads (.of_eq rfl) rfl, ?_, poisoned.acked⟩
    intro write entered x member
    rcases List.mem_append.mp entered with old | new
    · exact poisoned.written write old x member
    · rw [List.mem_singleton] at new
      subst new
      have member : x ∈ batch := member
      obtain ⟨q, held, taken, none⟩ := h.untold (flying x member) (claimed x member)
      refine ⟨?_, q, held, taken, by simp [none]⟩
      intro owed
      rcases List.mem_append.mp owed with mine | waiting
      · obtain ⟨r, -, same⟩ := List.mem_map.mp mine
        cases same
      · obtain ⟨r, among, same⟩ := List.mem_map.mp waiting
        cases same
        exact (List.nodup_append.mp h.held).2.2 x among x (flying x member) rfl

theorem writeDurable_sound (h : Sound cfg s)
    (stepped : writeDurable s outcome = some (s', report)) :
    report = .quiet ∧ Sound cfg s' ∧ s.Leads s' := by
  unfold writeDurable at stepped
  split at stepped
  · rename_i batch before plan place
    obtain ⟨(flight : _ = batch), claimed, planned⟩ := h.placed place
    have refused : Sound cfg (s.poison batch .notAccepted) := by
      apply h.poison flight claimed .notAccepted
      refine .inr ⟨rfl, ?_⟩
      intro x spares
      rw [place] at spares
      exact spares
    split at stepped
    · cases stepped
      exact ⟨rfl, refused, .of_eq rfl⟩
    · split at stepped
      · cases stepped
        exact ⟨rfl, refused, .of_eq rfl⟩
      · rename_i begun
        cases stepped
        refine ⟨rfl, h.uncertain flight claimed plan begun, .of_eq ?_⟩
        cases begun <;> rfl
      · cases stepped
      · rename_i arrived writeEnd
        -- the clock has left `0` behind, so the answer is never `NOT_ACCEPTED`
        have late : writeEnd.ns ≠ 0 := writeEnd.later.ne'
        rw [if_neg late] at stepped
        cases stepped
        exact ⟨rfl, h.uncertain flight claimed plan (some arrived), .of_eq rfl⟩
      · cases stepped
        refine ⟨rfl, ?_, .of_eq rfl⟩
        exact h.write flight claimed plan _ (.durable batch before plan) (.inl rfl)
          ⟨claimed, planned⟩ (fun _ => trivial)
  · cases stepped

theorem writeLegacy_sound (h : Sound cfg s)
    (stepped : writeLegacy cfg s outcome = some (s', report)) :
    report = .quiet ∧ Sound cfg s' ∧ s.Leads s' := by
  unfold writeLegacy at stepped
  split at stepped
  · rename_i batch before snapshot published plan place _
    obtain ⟨(flight : _ = batch), claimed, planned⟩ := h.placed place
    split at stepped
    · cases stepped
    · cases stepped
    · rename_i begun
      cases stepped
      refine ⟨rfl, h.uncertain flight claimed plan begun, .of_eq ?_⟩
      cases begun <;> rfl
    · rename_i begun
      cases stepped
      cases begun with
      | none =>
        exact ⟨rfl, h.turn .ended (.inr rfl) trivial (fun _ _ => trivial), .of_eq rfl⟩
      | some arrived =>
        exact ⟨rfl, h.write flight claimed plan arrived .ended (.inr rfl) trivial
          (fun _ => trivial), .of_eq rfl⟩
    · split at stepped
      · rename_i empty
        cases stepped
        refine ⟨rfl, ?_, .of_eq rfl⟩
        apply h.turn
        · rw [flight]
          exact .inl rfl
        · exact ⟨claimed, planned, fun _ => empty⟩
        · intro x _
          trivial
      · cases stepped
        refine ⟨rfl, ?_, .of_eq rfl⟩
        exact h.write flight claimed plan _ (.settled batch plan true) (.inl rfl)
          ⟨claimed, planned, fun none => by cases none⟩ (fun _ => trivial)
  · cases stepped

theorem publish_sound (h : Sound cfg s) {cursor : Option PublishedCursor}
    (stepped : publish s cursor = some (s', report)) :
    report = .quiet ∧ Sound cfg s' ∧ s.Leads s' := by
  unfold publish at stepped
  split at stepped
  · rename_i batch before plan place
    obtain ⟨(flight : _ = batch), fits⟩ := h.placed place
    split at stepped
    · cases stepped
      exact ⟨rfl, h.poison flight fits.1 .commitUnknown (.inl rfl), .of_eq rfl⟩
    · rename_i cursor
      cases stepped
      refine ⟨rfl, ?_, .of_eq rfl⟩
      exact h.turn (.published batch before plan cursor) (.inl flight.symm) fits
        (fun _ _ => trivial)
  · cases stepped

theorem swap_sound (h : Sound cfg s) (stepped : swap s = some (s', report)) :
    report = .quiet ∧ Sound cfg s' ∧ s.Leads s' := by
  unfold swap at stepped
  split at stepped
  · rename_i batch before plan cursor place
    obtain ⟨(flight : _ = batch), fits⟩ := h.placed place
    split at stepped
    · cases stepped
      exact ⟨rfl, h.poison flight fits.1 .commitUnknown (.inl rfl), .of_eq rfl⟩
    · cases stepped
      refine ⟨rfl, ?_, .of_eq rfl⟩
      exact h.turn (.swapping batch plan cursor) (.inl flight.symm) fits (fun _ _ => trivial)
  · rename_i batch plan cursor place
    obtain ⟨-, fits⟩ := h.placed place
    cases stepped
    refine ⟨rfl, ?_, .of_eq rfl⟩
    apply h.swap _ fits.1 fits.2
    rw [place]
    rfl
  · rename_i batch plan wrote place
    obtain ⟨(flight : _ = batch), claimed, planned, empty⟩ := h.placed place
    cases wrote with
    | true =>
      cases stepped
      exact ⟨rfl, h.swap flight claimed planned s.published.cursor _ _, .of_eq rfl⟩
    | false =>
      cases stepped
      refine ⟨rfl, ?_, .of_eq rfl⟩
      exact h.turn (.swapped batch plan) (.inl flight.symm)
        ⟨claimed, planned.answers (.inr (empty rfl))⟩ (fun _ _ => trivial)
  · cases stepped

theorem acknowledge_sound (h : Sound cfg s)
    (stepped : acknowledge s failpoint = some (s', report)) :
    report = .quiet ∧ Sound cfg s' ∧ s.Leads s' := by
  unfold acknowledge at stepped
  split at stepped
  · rename_i batch plan place
    obtain ⟨(flight : _ = batch), fits⟩ := h.placed place
    split at stepped
    · cases stepped
      exact ⟨rfl, h.poison flight fits.1 .commitUnknown (.inl rfl), .of_eq rfl⟩
    · cases stepped
      refine ⟨rfl, ?_, .of_eq rfl⟩
      exact h.turn (.replying batch plan) (.inl flight.symm) fits (fun _ _ => trivial)
  · cases stepped

theorem receiptFor_eq_some {plan : BatchPlan} {ticket : Nat} {receipt : PlannedReceipt}
    (h : receiptFor plan ticket = some receipt) :
    receipt ∈ plan.receipts ∧ receipt.ticket = ticket := by
  refine ⟨?_, by simpa using List.find?_some h⟩
  exact List.mem_reverse.mp (List.mem_of_find?_eq_some h)

theorem reply_sound (h : Sound cfg s) (stepped : reply s = some (s', report)) :
    report = .quiet ∧ Sound cfg s' ∧ s.Leads s' := by
  unfold reply at stepped
  split at stepped
  · cases stepped
    exact ⟨rfl, h.turn .idle (.inr rfl) trivial (fun _ _ => trivial), .of_eq rfl⟩
  · rename_i r rest plan place
    obtain ⟨(flight : _ = r :: rest), claimed, answers⟩ := h.placed place
    split at stepped
    · cases stepped
    · rename_i q held
      obtain ⟨q', held', taken⟩ := claimed r (by simp)
      rw [held] at held'
      cases held'
      have sound := h.roster.request r q held
      split at stepped
      · cases stepped
        exact ⟨rfl, h.turn .ended (.inr rfl) trivial (fun _ _ => trivial), .of_eq rfl⟩
      · rename_i receipt found
        cases stepped
        obtain ⟨member, ticket⟩ := receiptFor_eq_some found
        obtain ⟨accepted, certain, applied⟩ := answers receipt member
        refine ⟨rfl, ?_⟩
        apply h.finish (.replying rest plan) flight rfl _ _ held
        · intro cancelled
          have unclaimed := (sound.cancelled cancelled).1
          rw [taken] at unclaimed
          cases unclaimed
        · intro unknown
          exact absurd unknown certain
        · intro refused
          exact absurd refused accepted
        · intro status
          obtain ⟨r', q', n, held', positive, same, seq, contained⟩ := applied status
          have one : r' = r := by
            apply h.roster.distinct r' r q' q held' held positive
            rw [same, ticket]
          subst one
          rw [held] at held'
          cases held'
          exact ⟨n, seq, contained⟩
        · exact ⟨fun x among => claimed x (List.mem_cons_of_mem r among), answers⟩
        · intro x _
          trivial
  · cases stepped
    exact ⟨rfl, h.turn .idle (.inr rfl) trivial (fun _ _ => trivial), .of_eq rfl⟩
  · rename_i r status todo place
    obtain ⟨(flight : _ = r :: todo.map Prod.fst), fits⟩ := h.placed place
    have due := fits (r, status) (by simp)
    obtain ⟨q, held, live⟩ := h.flying r (by simp [flight])
    have sound := h.roster.request r q held
    cases stepped
    refine ⟨rfl, ?_⟩
    apply h.finish (.refusing todo) flight rfl _ _ held
    · intro cancelled
      rcases due with refused | ⟨-, q', held', taken⟩
      · exact refused
      · rw [held] at held'
        cases held'
        rw [(sound.cancelled cancelled).1] at taken
        cases taken
    · intro unknown
      rcases due with refused | ⟨-, q', held', taken⟩
      · rw [unknown] at refused
        cases refused
      · rw [held] at held'
        cases held'
        exact taken
    · intro refused write logged member
      subst refused
      have spares := (h.written write logged r member).1
      rw [place] at spares
      exact spares (by simp)
    · intro applied
      rcases due with refused | ⟨unknown, -⟩
      · rw [applied] at refused
        cases refused
      · rw [applied] at unknown
        cases unknown
    · intro owed member
      exact fits owed (List.mem_cons_of_mem _ member)
    · intro x spares owed
      rw [place] at spares
      exact spares (List.mem_cons_of_mem _ owed)
  · cases stepped

theorem halt_sound (h : Sound cfg s) {raised : Bool} (stepped : halt s raised = some (s', report)) :
    report = .quiet ∧ Sound cfg s' ∧ s.Leads s' := by
  have ended : Sound cfg { s with phase := .ended } :=
    h.turn .ended (.inr rfl) trivial (fun _ _ => trivial)
  unfold halt at stepped
  split at stepped
  · cases stepped
  · split at stepped <;> cases stepped
    exact ⟨rfl, ended, .of_eq rfl⟩
  · split at stepped <;> cases stepped
    exact ⟨rfl, ended, .of_eq rfl⟩

theorem step_sound (h : Sound cfg s) {e : Event} (stepped : step cfg s e = some (s', report)) :
    Sound cfg s' ∧ s.Leads s' := by
  cases e with
  | submit r cmd => exact (submit_sound h stepped).2
  | result r timedOut => exact resolve_sound h stepped
  | cancel r => exact cancel_sound h stepped
  | capture =>
    cases stepped
    exact ⟨h, .refl s⟩
  | adopt cursor =>
    have kept := adopt_sound h cursor
    rw [Option.some.inj stepped] at kept
    exact kept
  | fence needed =>
    have kept := fence_sound h needed
    rw [Option.some.inj stepped] at kept
    exact kept
  | close =>
    cases stepped
    exact ⟨h.still s.poisoned true s.stateId s.published.cursor s.hasher, .of_eq rfl⟩
  | drain => exact (drain_sound h stepped).2
  | plan => exact (plan_sound h stepped).2
  | intend failpoint => exact (intend_sound h stepped).2
  | writeDurable outcome => exact (writeDurable_sound h stepped).2
  | writeLegacy outcome => exact (writeLegacy_sound h stepped).2
  | publish cursor => exact (publish_sound h stepped).2
  | swap => exact (swap_sound h stepped).2
  | acknowledge failpoint => exact (acknowledge_sound h stepped).2
  | reply => exact (reply_sound h stepped).2
  | halt raised => exact (halt_sound h stepped).2

end

end ProofRay.Engine.GroupCommit
