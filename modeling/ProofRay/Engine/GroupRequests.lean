/- What the clients and the worker of a group commit keep, whatever their interleaving: who is
   held by whom, and what a request can still be told. -/

import ProofRay.Engine.GroupCommit
import ProofRay.Engine.SnapshotGrowth

namespace ProofRay.Engine.GroupCommit

open Lib.Guard
open Function (update_of_ne update_self)

/-- `q'` is what `q` may have become: nothing at all once it is done. -/
structure Request.Leads (q q' : Request) : Prop where
  cmd : q'.cmd = q.cmd
  done : q.state = .done → q' = q
  cancelled : q.cancelled = true → q'.cancelled = true
  claimed : q.claimed = true → q'.claimed = true

theorem Request.Leads.refl (q : Request) : q.Leads q := ⟨rfl, fun _ => rfl, id, id⟩

theorem Request.Leads.trans {q₁ q₂ q₃ : Request} (first : q₁.Leads q₂) (second : q₂.Leads q₃) :
    q₁.Leads q₃ := by
  refine ⟨second.cmd.trans first.cmd, ?_, second.cancelled ∘ first.cancelled,
    second.claimed ∘ first.claimed⟩
  intro done
  have same := first.done done
  subst same
  exact second.done done

def GroupStore.Leads (s s' : GroupStore) : Prop :=
  ∀ r q, s.requests r = some q → ∃ q', s'.requests r = some q' ∧ q.Leads q'

theorem GroupStore.Leads.refl (s : GroupStore) : s.Leads s := fun _ q held => ⟨q, held, .refl q⟩

theorem GroupStore.Leads.of_eq {s s' : GroupStore} (same : s'.requests = s.requests) :
    s.Leads s' := by
  intro r q held
  exact ⟨q, by rw [same, held], .refl q⟩

theorem GroupStore.Leads.trans {s₁ s₂ s₃ : GroupStore} (first : s₁.Leads s₂)
    (second : s₂.Leads s₃) : s₁.Leads s₃ := by
  intro r q held
  obtain ⟨q₂, held₂, leads₂⟩ := first r q held
  obtain ⟨q₃, held₃, leads₃⟩ := second r q₂ held₂
  exact ⟨q₃, held₃, leads₂.trans leads₃⟩

variable {r : Nat}

theorem leads_update {s s' : GroupStore} {q q' : Request} (held : s.requests r = some q)
    (leads : q.Leads q') (requests : s'.requests = Function.update s.requests r (some q')) :
    s.Leads s' := by
  intro x p held'
  rw [requests]
  by_cases same : x = r
  · subst same
    rw [held] at held'
    cases held'
    exact ⟨q', update_self .., leads⟩
  · exact ⟨p, by rwa [update_of_ne same], .refl p⟩

variable {q : Request}

theorem leads_fresh {s s' : GroupStore} (fresh : s.requests r = none)
    (requests : s'.requests = Function.update s.requests r (some q)) : s.Leads s' := by
  intro x p held
  have other : x ≠ r := by
    rintro rfl
    rw [fresh] at held
    cases held
  exact ⟨p, by rwa [requests, update_of_ne other], .refl p⟩

/-- What one request says of itself; `ticket` is the last ticket given. -/
structure Request.Sound (ticket : Nat) (q : Request) : Prop where
  answered : q.state = .done ↔ q.status.isSome = true
  admitted : q.state = .admitted → q.claimed = false
  taken : q.state = .claimed → q.claimed = true
  cancelled : q.cancelled = true → q.claimed = false ∧ ∀ status ∈ q.status, status = .notAccepted
  unknown : q.status = some .commitUnknown → q.claimed = true
  ticketed : q.state ≠ .done → 0 < q.cmd.enqueueTicket
  given : q.cmd.enqueueTicket ≤ ticket

theorem Request.Sound.mono {ticket ticket' : Nat} (h : q.Sound ticket) (le : ticket ≤ ticket') :
    q.Sound ticket' :=
  ⟨h.answered, h.admitted, h.taken, h.cancelled, h.unknown, h.ticketed, h.given.trans le⟩

theorem Request.Sound.cancel {ticket : Nat} (h : q.Sound ticket) (waiting : q.state = .admitted) :
    q.cancel.Sound ticket := by
  refine ⟨h.answered, h.admitted, h.taken, ?_, h.unknown, h.ticketed, h.given⟩
  intro _
  refine ⟨h.admitted waiting, ?_⟩
  intro status told
  have done := h.answered.mpr (Option.isSome_iff_exists.mpr ⟨status, told⟩)
  rw [waiting] at done
  cases done

theorem Request.Sound.claim {ticket : Nat} (h : q.Sound ticket) (waiting : q.state = .admitted)
    (live : q.cancelled = false) : q.claim.Sound ticket := by
  have unanswered : ¬ q.status.isSome = true := by
    rw [← h.answered, waiting]
    exact RequestState.noConfusion
  refine ⟨?_, ?_, fun _ => rfl, ?_, ?_, ?_, h.given⟩
  · constructor
    · intro done
      cases done
    · intro told
      exact absurd told unanswered
  · intro admitted
    cases admitted
  · intro cancelled
    rw [show q.claim.cancelled = q.cancelled from rfl, live] at cancelled
    cases cancelled
  · intro _
    rfl
  · intro _
    apply h.ticketed
    rw [waiting]
    exact RequestState.noConfusion

theorem Request.Sound.finish {ticket : Nat} (h : q.Sound ticket) {status : Status}
    {walSeq : Option Int} (cancelled : q.cancelled = true → status = .notAccepted)
    (unknown : status = .commitUnknown → q.claimed = true) :
    (q.finish status walSeq).Sound ticket := by
  refine ⟨?_, ?_, ?_, ?_, ?_, ?_, h.given⟩
  · exact ⟨fun _ => rfl, fun _ => rfl⟩
  · intro admitted
    cases admitted
  · intro claimed
    cases claimed
  · intro gone
    refine ⟨(h.cancelled gone).1, ?_⟩
    intro told member
    cases member
    exact cancelled gone
  · intro told
    cases told
    exact unknown rfl
  · intro live
    exact absurd rfl live

/-- The requests together: each as it should be, and no ticket given twice. -/
structure Roster (requests : Nat → Option Request) (ticket : Nat) : Prop where
  request : ∀ r q, requests r = some q → q.Sound ticket
  distinct : ∀ r r' q q', requests r = some q → requests r' = some q' →
    0 < q.cmd.enqueueTicket → q.cmd.enqueueTicket = q'.cmd.enqueueTicket → r = r'

section

variable {requests : Nat → Option Request} {ticket : Nat}

theorem Roster.set (roster : Roster requests ticket) {r : Nat} {q q' : Request}
    (held : requests r = some q) (cmd : q'.cmd = q.cmd) (sound : q'.Sound ticket) :
    Roster (Function.update requests r (some q')) ticket := by
  -- whoever holds a request afterwards held one with the same command before
  have before : ∀ x p, Function.update requests r (some q') x = some p →
      p.Sound ticket ∧ ∃ p₀, requests x = some p₀ ∧ p.cmd = p₀.cmd := by
    intro x p found
    by_cases same : x = r
    · subst same
      rw [update_self] at found
      cases found
      exact ⟨sound, q, held, cmd⟩
    · rw [update_of_ne same] at found
      exact ⟨roster.request x p found, p, found, rfl⟩
  constructor
  · intro x p found
    exact (before x p found).1
  · intro x y p p' foundX foundY positive equal
    obtain ⟨-, p₀, heldX, cmdX⟩ := before x p foundX
    obtain ⟨-, p₁, heldY, cmdY⟩ := before y p' foundY
    rw [cmdX] at positive equal
    rw [cmdY] at equal
    exact roster.distinct x y p₀ p₁ heldX heldY positive equal

theorem Roster.add (roster : Roster requests ticket) {r ticket' : Nat} {q : Request}
    (fresh : requests r = none) (sound : q.Sound ticket') (le : ticket ≤ ticket')
    (new : q.cmd.enqueueTicket = 0 ∨ ticket < q.cmd.enqueueTicket) :
    Roster (Function.update requests r (some q)) ticket' := by
  have bound : ∀ x p, requests x = some p → p.cmd.enqueueTicket ≤ ticket := by
    intro x p held
    exact (roster.request x p held).given
  constructor
  · intro x p found
    by_cases same : x = r
    · subst same
      rw [update_self] at found
      cases found
      exact sound
    · rw [update_of_ne same] at found
      exact (roster.request x p found).mono le
  · intro x y p p' foundX foundY positive equal
    by_cases sameX : x = r <;> by_cases sameY : y = r
    · rw [sameX, sameY]
    · rw [sameX, update_self] at foundX
      cases foundX
      rw [update_of_ne sameY] at foundY
      have old := bound y p' foundY
      omega
    · rw [sameY, update_self] at foundY
      cases foundY
      rw [update_of_ne sameX] at foundX
      have old := bound x p foundX
      omega
    · rw [update_of_ne sameX] at foundX
      rw [update_of_ne sameY] at foundY
      exact roster.distinct x y p p' foundX foundY positive equal

end

def Phase.flight : Phase → List Nat
  | .idle => []
  | .claimed batch _ _ => batch
  | .planned batch _ _ _ _ => batch
  | .intended batch _ _ => batch
  | .durable batch _ _ => batch
  | .published batch _ _ _ => batch
  | .swapping batch _ _ => batch
  | .settled batch _ _ => batch
  | .swapped batch _ => batch
  | .replying rest _ => rest
  | .refusing todo => todo.map Prod.fst
  | .ended => []

/-- The request will not be told `NOT_ACCEPTED` from here. -/
def Phase.Spares (r : Nat) : Phase → Prop
  | .claimed batch _ _ => r ∉ batch
  | .planned batch _ _ _ _ => r ∉ batch
  | .intended batch _ _ => r ∉ batch
  | .refusing todo => (r, .notAccepted) ∉ todo
  | _ => True

def GroupStore.Claimed (s : GroupStore) (r : Nat) : Prop :=
  ∃ q, s.requests r = some q ∧ q.claimed = true

def PlanOf (cfg : Config) (s : GroupStore) (batch : List Nat) (plan : BatchPlan) : Prop :=
  ∃ hasher, prepareBatch cfg.crypto s.published.snapshot hasher (commandsOf s batch) cfg.key
    cfg.scopeId cfg.segmentId cfg.base cfg.u8Domain = .ok plan

/-- The receipts can be given: those that say `APPLIED` speak of a request whose command the
published snapshot contains. -/
def Answers (cfg : Config) (s : GroupStore) (plan : BatchPlan) : Prop :=
  ∀ receipt ∈ plan.receipts, receipt.status ≠ .notAccepted ∧ receipt.status ≠ .commitUnknown ∧
    (receipt.status = .applied → ∃ r q n, s.requests r = some q ∧ 0 < q.cmd.enqueueTicket ∧
      q.cmd.enqueueTicket = receipt.ticket ∧ receipt.walSeq = some n ∧
      s.published.snapshot.Contains cfg.crypto q.cmd n)

def Phase.Fits (cfg : Config) (s : GroupStore) : Phase → Prop
  | .idle => True
  | .claimed batch snapshot _ =>
    (∀ r ∈ batch, s.Claimed r) ∧ snapshot = s.published.snapshot
  | .planned batch _ _ _ plan => (∀ r ∈ batch, s.Claimed r) ∧ PlanOf cfg s batch plan
  | .intended batch _ plan => (∀ r ∈ batch, s.Claimed r) ∧ PlanOf cfg s batch plan
  | .durable batch _ plan => (∀ r ∈ batch, s.Claimed r) ∧ PlanOf cfg s batch plan
  | .published batch _ plan _ => (∀ r ∈ batch, s.Claimed r) ∧ PlanOf cfg s batch plan
  | .swapping batch plan _ => (∀ r ∈ batch, s.Claimed r) ∧ PlanOf cfg s batch plan
  | .settled batch plan wrote => (∀ r ∈ batch, s.Claimed r) ∧ PlanOf cfg s batch plan ∧
    (wrote = false → plan.frames = [])
  | .swapped batch plan => (∀ r ∈ batch, s.Claimed r) ∧ Answers cfg s plan
  | .replying rest plan => (∀ r ∈ rest, s.Claimed r) ∧ Answers cfg s plan
  | .refusing todo => ∀ owed ∈ todo,
    owed.2 = .notAccepted ∨ owed.2 = .commitUnknown ∧ s.Claimed owed.1
  | .ended => True

structure Sound (cfg : Config) (s : GroupStore) : Prop where
  roster : Roster s.requests s.ticket
  held : (s.queue ++ s.phase.flight).Nodup
  queued : ∀ r ∈ s.queue, ∃ q, s.requests r = some q ∧ q.state = .admitted
  flying : ∀ r ∈ s.phase.flight, ∃ q, s.requests r = some q ∧ q.state ≠ .done
  fits : s.phase.Fits cfg s
  written : ∀ write ∈ s.writes, ∀ r ∈ write.batch, s.phase.Spares r ∧
    ∃ q, s.requests r = some q ∧ q.claimed = true ∧ q.status ≠ some .notAccepted
  acked : ∀ r q, s.requests r = some q → q.status = some .applied →
    ∃ n, q.walSeq = some n ∧ s.published.snapshot.Contains cfg.crypto q.cmd n

theorem sound_boot (cfg : Config) (published : PublishedStoreState) (hasher : Hasher) :
    Sound cfg (.boot published hasher) := by
  refine ⟨⟨?_, ?_⟩, ?_, ?_, ?_, trivial, ?_, ?_⟩
  · intro r q held
    cases held
  · intro r r' q q' held
    cases held
  · exact List.nodup_nil
  · intro r member
    cases member
  · intro r member
    cases member
  · intro write member
    cases member
  · intro r q held
    cases held

section

variable {cfg : Config} {s s' : GroupStore}

theorem GroupStore.Claimed.leads {r : Nat} (claimed : s.Claimed r) (leads : s.Leads s') :
    s'.Claimed r := by
  obtain ⟨q, held, taken⟩ := claimed
  obtain ⟨q', held', leads'⟩ := leads r q held
  exact ⟨q', held', leads'.claimed taken⟩

variable {batch : List Nat} {plan : BatchPlan}

theorem commandsOf_leads (known : ∀ r ∈ batch, ∃ q, s.requests r = some q) (leads : s.Leads s') :
    commandsOf s' batch = commandsOf s batch := by
  apply List.filterMap_congr
  intro r member
  obtain ⟨q, held⟩ := known r member
  obtain ⟨q', held', leads'⟩ := leads r q held
  rw [held, held', Option.map_some, Option.map_some, leads'.cmd]

theorem PlanOf.leads (planned : PlanOf cfg s batch plan) (claimed : ∀ r ∈ batch, s.Claimed r)
    (leads : s.Leads s') (snapshot : s'.published.snapshot = s.published.snapshot) :
    PlanOf cfg s' batch plan := by
  obtain ⟨hasher, planned⟩ := planned
  refine ⟨hasher, ?_⟩
  have known : ∀ r ∈ batch, ∃ q, s.requests r = some q := by
    intro r member
    obtain ⟨q, held, -⟩ := claimed r member
    exact ⟨q, held⟩
  rw [snapshot, commandsOf_leads known leads]
  exact planned

theorem Answers.leads (answers : Answers cfg s plan) (leads : s.Leads s')
    (snapshot : s'.published.snapshot = s.published.snapshot) : Answers cfg s' plan := by
  intro receipt member
  obtain ⟨accepted, certain, applied⟩ := answers receipt member
  refine ⟨accepted, certain, ?_⟩
  intro status
  obtain ⟨r, q, n, held, positive, ticket, seq, contained⟩ := applied status
  obtain ⟨q', held', leads'⟩ := leads r q held
  rw [← leads'.cmd] at positive ticket contained
  rw [← snapshot] at contained
  exact ⟨r, q', n, held', positive, ticket, seq, contained⟩

theorem Phase.Fits.leads {phase : Phase} (fits : phase.Fits cfg s) (leads : s.Leads s')
    (snapshot : s'.published.snapshot = s.published.snapshot) : phase.Fits cfg s' := by
  have still : ∀ batch : List Nat, (∀ r ∈ batch, s.Claimed r) → ∀ r ∈ batch, s'.Claimed r := by
    intro batch claimed r member
    exact (claimed r member).leads leads
  cases phase with
  | idle => trivial
  | claimed batch source hasher => exact ⟨still batch fits.1, fits.2.trans snapshot.symm⟩
  | planned batch before source published plan =>
    exact ⟨still batch fits.1, fits.2.leads fits.1 leads snapshot⟩
  | intended batch before plan =>
    exact ⟨still batch fits.1, fits.2.leads fits.1 leads snapshot⟩
  | durable batch before plan =>
    exact ⟨still batch fits.1, fits.2.leads fits.1 leads snapshot⟩
  | published batch before plan cursor =>
    exact ⟨still batch fits.1, fits.2.leads fits.1 leads snapshot⟩
  | swapping batch plan cursor =>
    exact ⟨still batch fits.1, fits.2.leads fits.1 leads snapshot⟩
  | settled batch plan durable =>
    exact ⟨still batch fits.1, fits.2.1.leads fits.1 leads snapshot, fits.2.2⟩
  | swapped batch plan => exact ⟨still batch fits.1, fits.2.leads leads snapshot⟩
  | replying rest plan => exact ⟨still rest fits.1, fits.2.leads leads snapshot⟩
  | refusing todo =>
    intro owed member
    rcases fits owed member with refused | ⟨uncertain, claimed⟩
    · exact .inl refused
    · exact .inr ⟨uncertain, claimed.leads leads⟩
  | ended => trivial

end

end ProofRay.Engine.GroupCommit
