/- One writer for each scope: the lease that authorizes a batch is in one store at a time, and still
   there when the batch is published. -/

import ProofRay.Engine.WriterCustody

namespace ProofRay.Engine.Writers

open Lib (Machine)
open World (leases_die processOf stores_closeCarried stores_closeLease stores_setStore)
open Function (update_apply update_of_ne update_self)

variable {scope : Int}

/-- The store runs and `_check_authority` accepts its lease for a batch. -/
def World.Authorized (scope : Int) (w : World) (σ : Nat) : Prop :=
  ∃ s, w.stores σ = some s ∧ w.alive s.process = true ∧ w.checkBatch scope s.lease = none

theorem World.lease_of_checkBatch {w : World} {authority : Option Nat}
    (accepted : w.checkBatch scope authority = none) :
    ∃ l lease, authority = some l ∧ w.leases l = some lease ∧
      lease.state ∈ [LeaseState.ownedByStore, .ownedByNewStore] := by
  unfold checkBatch World.authority at accepted
  cases authority with
  | none => cases accepted
  | some l =>
    cases found : w.leases l with
    | none =>
      rw [Option.bind_some, found] at accepted
      cases accepted
    | some lease =>
      refine ⟨l, lease, rfl, found, ?_⟩
      rw [Option.bind_some, found, Option.map_some] at accepted
      simp only [checkAuthority, Lib.Guard.ite_some_eq_none] at accepted
      by_contra foreign
      obtain ⟨-, -, -, refused⟩ := accepted
      exact absurd refused (by simp [PublicationPurpose.allowed, ScopeWriterLease.authority, foreign])

theorem unclosed_of_writer {state : LeaseState}
    (writer : state ∈ [LeaseState.ownedByStore, .ownedByNewStore]) : state ≠ .closed := by
  intro closed
  rw [closed] at writer
  revert writer
  decide

variable {σ σ' : Nat}

theorem World.Sound.authorized_unique {w : World} (sound : w.Sound) (first : w.Authorized scope σ)
    (second : w.Authorized scope σ') : σ = σ' := by
  obtain ⟨s, found, -, accepted⟩ := first
  obtain ⟨s', found', -, accepted'⟩ := second
  obtain ⟨l, lease, owned, known, state⟩ := World.lease_of_checkBatch accepted
  obtain ⟨l', lease', owned', known', state'⟩ := World.lease_of_checkBatch accepted'
  have locked := sound.locked l lease known (unclosed_of_writer state)
  have locked' := sound.locked l' lease' known' (unclosed_of_writer state')
  have same : l = l' := Option.some.inj (locked.symm.trans locked')
  have grip : w.grip (.store σ) = some ⟨l, s.process, writerStates⟩ := by
    simp [World.grip, found, WriterStore.grip, owned]
  have grip' : w.grip (.store σ') = some ⟨l', s'.process, writerStates⟩ := by
    simp [World.grip, found', WriterStore.grip, owned']
  exact Holder.store.inj (sound.unique _ _ _ _ grip grip' same)

/-- The reports after which the lease of a fence need not be locked any more: a successor has
been activated with it, a preparation or an activation that had it has failed, or its process is
dead. -/
def Report.Ends (l p : Nat) : Report → Prop
  | .activated _ lease => lease = some l
  | .failed lease _ => lease = some l
  | .unregistered lease => lease = some l
  | .died process => process = p
  | _ => False

/-- The lease is open and no store that runs has it. -/
structure World.InTransit (w : World) (l p : Nat) : Prop where
  opened : ∃ lease, w.leases l = some lease ∧ lease.state ≠ .closed ∧ lease.process = p
  apart : ∀ σ s, w.stores σ = some s → s.lease = some l → s.worker = .unstarted ∧ s.process = p

namespace World.InTransit

variable {w w' : World} {l p : Nat} {r : Report}

theorem frame (transit : w.InTransit l p) (lease : w'.leases l = w.leases l)
    (stores : ∀ σ s, w'.stores σ = some s → s.lease = some l →
      w.stores σ = some s ∨ s.worker = .unstarted ∧ s.process = p) : w'.InTransit l p where
  opened := by
    rw [lease]
    exact transit.opened
  apart := by
    intro σ s found owned
    rcases stores σ s found owned with before | paused
    · exact transit.apart σ s before owned
    · exact paused

theorem setTask (transit : w.InTransit l p) (t : Nat) (task : Option Task) :
    (w.setTask t task).InTransit l p :=
  ⟨transit.opened, transit.apart⟩

theorem setPublishLock (transit : w.InTransit l p) (holder : Option Actor) :
    (w.setPublishLock holder).InTransit l p :=
  ⟨transit.opened, transit.apart⟩

theorem setPackage (transit : w.InTransit l p) (g : Nat) (package : Package) :
    (w.setPackage g package).InTransit l p :=
  ⟨transit.opened, transit.apart⟩

theorem setStore (transit : w.InTransit l p) (σ : Nat) (s : WriterStore)
    (apart : s.lease = some l → s.worker = .unstarted ∧ s.process = p) :
    (w.setStore σ s).InTransit l p := by
  refine transit.frame rfl ?_
  intro σ' s' found owned
  rw [stores_setStore, update_apply] at found
  split at found
  · cases found
    exact .inr (apart owned)
  · exact .inl found

variable {s : WriterStore} {l' : Nat}

theorem lease_ne (transit : w.InTransit l p) {σ : Nat} (found : w.stores σ = some s)
    (started : s.worker ≠ .unstarted) : s.lease ≠ some l := by
  intro owned
  exact started (transit.apart σ s found owned).1

theorem setStore_running (transit : w.InTransit l p) {σ : Nat} (found : w.stores σ = some s)
    (started : s.worker ≠ .unstarted) (s' : WriterStore) (same : s'.lease = s.lease) :
    (w.setStore σ s').InTransit l p := by
  apply transit.setStore
  intro owned
  exact absurd (same ▸ owned) (transit.lease_ne found started)

theorem setLease (transit : w.InTransit l p) {lease lease' : ScopeWriterLease} {next : LeaseState}
    (known : w.leases l' = some lease) (moved : lease.transfer next = .ok lease')
    (target : next ≠ .closed) :
    (w.setLease l' lease').InTransit l p where
  opened := by
    obtain ⟨x, found, unclosed, own⟩ := transit.opened
    simp only [World.setLease, update_apply]
    split
    · rename_i same
      rw [same, known] at found
      cases found
      rw [(ScopeWriterLease.transfer_eq_ok moved).2]
      exact ⟨_, rfl, target, own⟩
    · exact ⟨x, found, unclosed, own⟩
  apart := transit.apart

theorem acquire (transit : w.InTransit l p) {l' p' : Nat} (fresh : w.leases l' = none) :
    (w.acquire scope l' p').InTransit l p where
  opened := by
    obtain ⟨x, found, rest⟩ := transit.opened
    have other : l ≠ l' := by
      intro same
      rw [same, fresh] at found
      cases found
    simp only [World.acquire, World.setLease, update_apply, if_neg other]
    exact ⟨x, found, rest⟩
  apart := transit.apart

theorem closeLease (transit : w.InTransit l p) (other : l' ≠ l) :
    (w.closeLease l').InTransit l p := by
  apply transit.frame
  · rw [World.leases_closeLease, if_neg other.symm]
  · intro σ s found owned
    rw [stores_closeLease] at found
    exact .inl found

theorem closeCarried (transit : w.InTransit l p) {lease : Option Nat} (other : lease ≠ some l) :
    (w.closeCarried lease).InTransit l p := by
  cases lease with
  | none => exact transit
  | some l' => exact transit.closeLease fun same => other (congrArg some same)

theorem die (transit : w.InTransit l p) {p' : Nat} (other : p' ≠ p) :
    (w.die p').InTransit l p where
  opened := by
    obtain ⟨lease, found, unclosed, own⟩ := transit.opened
    refine ⟨lease, ?_, unclosed, own⟩
    rw [leases_die, found, Option.map_some, if_neg]
    rw [own]
    exact other.symm
  apart := by
    intro σ s' found owned
    obtain ⟨s, before, rfl⟩ := Option.map_eq_some_iff.mp found
    split at owned
    · rename_i dead
      exact absurd ((transit.apart σ s before owned).2.symm.trans dead).symm other
    · rename_i living
      rw [if_neg living]
      exact transit.apart σ s before owned

theorem step (transit : w.InTransit l p) (sound : w.Sound) (h : Step scope w w' r)
    (ongoing : ¬ r.Ends l p) : w'.InTransit l p := by
  cases h with
  | refused => exact transit
  | genesis absent =>
    apply transit.setStore
    intro owned
    cases owned
  | carry free alive found own carried known => exact transit.setTask _ _
  | acquire free alive unlocked fresh purpose => exact (transit.acquire fresh).setTask _ _
  | enter task unlocked => exact (transit.setTask _ _).setPublishLock _
  | @installFresh t p' l' σ kind task absent =>
    apply (transit.setTask _ _).setStore
    intro owned
    cases owned
    obtain ⟨lease, found, own, -⟩ := sound.held (.task t) ⟨l, p', writerStates⟩
      (by simp [World.grip, task, Task.grip])
    obtain ⟨lease', found', -, own'⟩ := transit.opened
    rw [found] at found'
    cases found'
    exact ⟨rfl, own.symm.trans own'⟩
  | @installCarried t p' l' σ kind lease lease' task absent known moved =>
    apply ((transit.setTask _ _).setLease known moved (by decide)).setStore
    intro owned
    cases owned
    obtain ⟨x, found, own⟩ := sound.known l p' (.inl ⟨t, _, task, rfl⟩)
    obtain ⟨x', found', -, own'⟩ := transit.opened
    rw [found] at found'
    cases found'
    exact ⟨rfl, own.symm.trans own'⟩
  | withdraw task => exact transit.setTask _ _
  | abort task =>
    apply (transit.closeLease _).setTask
    intro same
    exact ongoing (congrArg some same)
  | leave task => exact (transit.setTask _ _).setPublishLock _
  | start task found paused =>
    apply (transit.setTask _ _).setStore
    intro owned
    exact absurd owned ongoing
  | startFails task found paused =>
    apply ((transit.closeCarried ongoing).setTask _ _).setStore
    intro owned
    cases owned
  | @mount t p' l' σ task absent =>
    apply (transit.setTask _ _).setStore
    intro owned
    cases owned
    obtain ⟨lease, found, own, -⟩ := sound.held (.task t) ⟨l, p', writerStates⟩
      (by simp [World.grip, task, Task.grip])
    obtain ⟨lease', found', -, own'⟩ := transit.opened
    rw [found] at found'
    cases found'
    exact ⟨rfl, own.symm.trans own'⟩
  | abandon task =>
    apply (transit.closeLease _).setTask
    intro same
    exact ongoing (congrArg some same)
  | @shut t p' σ s phase free found own purpose =>
    have halted : (w.setStore σ s.halt).InTransit l p := by
      apply transit.setStore
      exact transit.apart σ s found
    exact halted.setTask _ _
  | closed task found joined =>
    have other := transit.lease_ne found (by rw [joined]; exact Worker.noConfusion)
    apply ((transit.closeCarried other).setTask _ _).setStore
    intro owned
    cases owned
  | fencedFree task found joined without => exact transit.setTask _ _
  | @fenced t p' σ l' kind s lease lease' task found joined own owned known moved =>
    have detached : (w.setStore σ s.detach).InTransit l p := by
      apply transit.setStore
      intro owned
      cases owned
    apply (detached.setLease known moved _).setTask
    cases kind <;> decide
  | fenceFails task found joined owned =>
    apply (transit.setStore _ _ _).setTask
    intro owned
    cases owned
  | gaveUp task => exact (transit.closeCarried ongoing).setTask _ _
  | handFree task => exact transit.setTask _ _
  | @hand t p' l' kind lease lease' task known moved =>
    apply (transit.setTask _ _).setLease known moved
    cases kind <;> decide
  | handFails task => exact transit.setTask _ _
  | registered task absent => exact (transit.setTask _ _).setPackage _ _
  | unregistered task => exact (transit.closeCarried ongoing).setTask _ _
  | escaped found outside => exact transit.setTask _ _
  | offered found idle =>
    exact transit.setStore_running found (by rw [idle]; exact Worker.noConfusion) _ rfl
  | locked found offering unlocked =>
    apply setPublishLock
    exact transit.setStore_running found (by rw [offering]; exact Worker.noConfusion) _ rfl
  | authorized found deciding accepted =>
    exact transit.setStore_running found (by rw [deciding]; exact Worker.noConfusion) _ rfl
  | wrote found writing =>
    apply setPublishLock
    exact transit.setStore_running found (by rw [writing]; exact Worker.noConfusion) _ rfl
  | skipped found deciding =>
    apply setPublishLock
    exact transit.setStore_running found (by rw [deciding]; exact Worker.noConfusion) _ rfl
  | poisoned found started outside plain =>
    refine transit.setStore_running found ?_ _ rfl
    rcases outside with idle | ⟨a, offering⟩
    · rw [idle]
      exact Worker.noConfusion
    · rw [offering]
      exact Worker.noConfusion
  | poisonedInside found inside plain =>
    apply setPublishLock
    refine transit.setStore_running found ?_ _ rfl
    rcases inside with deciding | writing
    · rw [deciding]
      exact Worker.noConfusion
    · rw [writing]
      exact Worker.noConfusion
  | released found poisoning =>
    have other := transit.lease_ne found (by rw [poisoning]; exact Worker.noConfusion)
    apply (transit.closeCarried other).setStore
    intro owned
    cases owned
  | finished found idle =>
    exact transit.setStore_running found (by rw [idle]; exact Worker.noConfusion) _ rfl
  | died => exact transit.die ongoing

end World.InTransit

/-- Who holds `publish.lock` is who is inside it, and a batch being written has a lease that
authorizes it. -/
structure World.Orderly (w : World) : Prop where
  captured : ∀ σ s a, w.stores σ = some s → s.worker.authority = some a → s.lease = a
  guarded : ∀ σ s, w.stores σ = some s → s.worker.locked = true → w.publishLock = some (.worker σ)
  inside : ∀ t task, w.tasks t = some task → task.phase.inside = true →
    w.publishLock = some (.task t)
  vouched : ∀ σ s a, w.stores σ = some s → s.worker = .writing a →
    ∃ l lease, a = some l ∧ w.leases l = some lease ∧
      lease.state ∈ [LeaseState.ownedByStore, .ownedByNewStore]

def World.Writing (w : World) (l : Nat) : Prop :=
  ∃ σ s, w.stores σ = some s ∧ s.worker = .writing (some l)

namespace World.Orderly

variable {w w' : World} {r : Report}

theorem setTask (orderly : w.Orderly) (t : Nat) (task : Option Task)
    (inside : ∀ x, task = some x → x.phase.inside = true → w.publishLock = some (.task t)) :
    (w.setTask t task).Orderly where
  captured := orderly.captured
  guarded := orderly.guarded
  vouched := orderly.vouched
  inside := by
    intro t' x found entered
    rw [World.tasks_setTask, update_apply] at found
    split at found
    · rename_i same
      rw [same]
      exact inside x found entered
    · exact orderly.inside t' x found entered

/-- A task outside `publish.lock`. -/
theorem setTask_outside (orderly : w.Orderly) (t : Nat) (task : Option Task)
    (outside : ∀ x, task = some x → x.phase.inside = false) : (w.setTask t task).Orderly := by
  apply orderly.setTask
  intro x found entered
  rw [outside x found] at entered
  cases entered

theorem setStore (orderly : w.Orderly) (σ : Nat) (s : WriterStore)
    (captured : ∀ a, s.worker.authority = some a → s.lease = a)
    (guarded : s.worker.locked = true → w.publishLock = some (.worker σ))
    (vouched : ∀ a, s.worker = .writing a → ∃ l lease, a = some l ∧ w.leases l = some lease ∧
      lease.state ∈ [LeaseState.ownedByStore, .ownedByNewStore]) : (w.setStore σ s).Orderly where
  captured := by
    intro σ' x a found
    rw [stores_setStore, update_apply] at found
    split at found
    · cases found
      exact captured a
    · exact orderly.captured σ' x a found
  guarded := by
    intro σ' x found
    rw [stores_setStore, update_apply] at found
    split at found
    · rename_i same
      cases found
      rw [same]
      exact guarded
    · exact orderly.guarded σ' x found
  inside := orderly.inside
  vouched := by
    intro σ' x a found
    rw [stores_setStore, update_apply] at found
    split at found
    · cases found
      exact vouched a
    · exact orderly.vouched σ' x a found

theorem setStore_still (orderly : w.Orderly) (σ : Nat) (s : WriterStore)
    (still : s.worker.authority = none) : (w.setStore σ s).Orderly := by
  cases worker : s.worker with
  | offering a => simp [worker, Worker.authority] at still
  | deciding a => simp [worker, Worker.authority] at still
  | writing a => simp [worker, Worker.authority] at still
  | unstarted | idle | poisoning | ended =>
    apply orderly.setStore <;> simp [worker, Worker.authority, Worker.locked]

theorem setPackage (orderly : w.Orderly) (g : Nat) (package : Package) :
    (w.setPackage g package).Orderly :=
  ⟨orderly.captured, orderly.guarded, orderly.inside, orderly.vouched⟩

theorem changeLease (orderly : w.Orderly) {l : Nat} (stores : w'.stores = w.stores)
    (tasks : w'.tasks = w.tasks) (lock : w'.publishLock = w.publishLock)
    (others : ∀ l', l' ≠ l → w'.leases l' = w.leases l') (unused : ¬ w.Writing l) :
    w'.Orderly where
  captured := by
    rw [stores]
    exact orderly.captured
  guarded := by
    rw [stores, lock]
    exact orderly.guarded
  inside := by
    rw [tasks, lock]
    exact orderly.inside
  vouched := by
    rw [stores]
    intro σ s a found writing
    obtain ⟨l', lease, rfl, known, state⟩ := orderly.vouched σ s a found writing
    have other : l' ≠ l := by
      intro same
      exact unused ⟨σ, s, found, same ▸ writing⟩
    rw [← others l' other] at known
    exact ⟨l', lease, rfl, known, state⟩

theorem setLease (orderly : w.Orderly) {l : Nat} (lease : ScopeWriterLease)
    (unused : ¬ w.Writing l) : (w.setLease l lease).Orderly := by
  refine orderly.changeLease ?_ ?_ ?_ ?_ unused
  · rfl
  · rfl
  · rfl
  intro l' other
  simp [World.setLease, update_of_ne other]

theorem acquire (orderly : w.Orderly) {l p : Nat} (unused : ¬ w.Writing l) :
    (w.acquire scope l p).Orderly := by
  refine orderly.changeLease ?_ ?_ ?_ ?_ unused
  · rfl
  · rfl
  · rfl
  intro l' other
  simp [World.acquire, World.setLease, update_of_ne other]

theorem closeLease (orderly : w.Orderly) {l : Nat} (unused : ¬ w.Writing l) :
    (w.closeLease l).Orderly := by
  apply orderly.changeLease stores_closeLease World.tasks_closeLease
    World.publishLock_closeLease _ unused
  intro l' other
  rw [World.leases_closeLease, if_neg other]

theorem closeCarried (orderly : w.Orderly) (lease : Option Nat)
    (unused : ∀ l, lease = some l → ¬ w.Writing l) : (w.closeCarried lease).Orderly := by
  cases lease with
  | none => exact orderly
  | some l => exact orderly.closeLease (unused l rfl)

theorem lock (orderly : w.Orderly) (unlocked : w.publishLock = none) (holder : Actor) :
    (w.setPublishLock (some holder)).Orderly where
  captured := orderly.captured
  vouched := orderly.vouched
  guarded := by
    intro σ s found locked
    have taken := orderly.guarded σ s found locked
    rw [unlocked] at taken
    cases taken
  inside := by
    intro t task found entered
    have taken := orderly.inside t task found entered
    rw [unlocked] at taken
    cases taken

variable {s : WriterStore} {task : Task} {t : Nat}

theorem unlock_task (orderly : w.Orderly) (held : w.publishLock = some (.task t))
    (left : ∀ task, w.tasks t = some task → task.phase.inside = false) :
    (w.setPublishLock none).Orderly where
  captured := orderly.captured
  vouched := orderly.vouched
  guarded := by
    intro σ s found locked
    have taken := orderly.guarded σ s found locked
    rw [held] at taken
    cases taken
  inside := by
    intro t' task found entered
    have taken := orderly.inside t' task found entered
    rw [held] at taken
    cases taken
    rw [left task found] at entered
    cases entered

theorem unlock_worker (orderly : w.Orderly) (σ : Nat) (held : w.publishLock = some (.worker σ))
    (left : ∀ s, w.stores σ = some s → s.worker.locked = false) :
    (w.setPublishLock none).Orderly where
  captured := orderly.captured
  vouched := orderly.vouched
  guarded := by
    intro σ' s found locked
    have taken := orderly.guarded σ' s found locked
    rw [held] at taken
    cases taken
    rw [left s found] at locked
    cases locked
  inside := by
    intro t task found entered
    have taken := orderly.inside t task found entered
    rw [held] at taken
    cases taken

theorem not_writing_of_task (orderly : w.Orderly) {t l : Nat} (running : w.tasks t = some task)
    (entered : task.phase.inside = true) : ¬ w.Writing l := by
  rintro ⟨σ, s, found, writing⟩
  have mine := orderly.inside t task running entered
  have theirs := orderly.guarded σ s found (by rw [writing]; rfl)
  rw [mine] at theirs
  cases theirs

theorem grip_of_writing (orderly : w.Orderly) {σ l : Nat} (found : w.stores σ = some s)
    (writing : s.worker = .writing (some l)) :
    w.grip (.store σ) = some ⟨l, s.process, writerStates⟩ := by
  have owned := orderly.captured σ s (some l) found (by rw [writing]; rfl)
  simp [World.grip, found, WriterStore.grip, owned]

theorem not_writing_of_free (orderly : w.Orderly) {l : Nat} (free : w.Free l) : ¬ w.Writing l := by
  rintro ⟨σ, s, found, writing⟩
  exact free _ _ (orderly.grip_of_writing found writing) rfl

theorem not_writing_of_grip (orderly : w.Orderly) (sound : w.Sound) {g : Grip}
    (running : w.tasks t = some task) (grip : task.grip = some g) : ¬ w.Writing g.lease := by
  rintro ⟨σ, s, found, writing⟩
  have mine : w.grip (.task t) = some g := by
    rw [World.grip, running]
    exact grip
  cases sound.unique _ _ _ _ mine (orderly.grip_of_writing found writing) rfl

theorem not_writing_of_store (orderly : w.Orderly) (sound : w.Sound) {σ l : Nat}
    (found : w.stores σ = some s) (owned : s.lease = some l) (still : s.worker.authority = none) :
    ¬ w.Writing l := by
  rintro ⟨σ', s', found', writing⟩
  have mine : w.grip (.store σ) = some ⟨l, s.process, writerStates⟩ := by
    simp [World.grip, found, WriterStore.grip, owned]
  cases sound.unique _ _ _ _ mine (orderly.grip_of_writing found' writing) rfl
  rw [found] at found'
  cases found'
  rw [writing] at still
  cases still

theorem die (orderly : w.Orderly) (sound : w.Sound) (p : Nat) : (w.die p).Orderly := by
  have stays : ∀ {holder : Actor}, w.publishLock = some holder → w.processOf holder ≠ some p →
      (w.die p).publishLock = some holder := by
    intro holder held other
    simp only [World.die, held, Option.filter_some, other, ne_eq, not_false_eq_true, decide_true,
      if_true]
  have living : ∀ {σ : Nat} {s' : WriterStore}, (w.die p).stores σ = some s' →
      s'.worker ≠ .ended → w.stores σ = some s' ∧ s'.process ≠ p := by
    intro σ s' found running
    obtain ⟨s, before, rfl⟩ := Option.map_eq_some_iff.mp found
    split at running
    · exact absurd rfl running
    · rename_i other
      rw [if_neg other]
      exact ⟨before, other⟩
  refine ⟨?_, ?_, ?_, ?_⟩
  · intro σ s a found captured
    have running : s.worker ≠ .ended := by
      intro ended
      rw [ended] at captured
      cases captured
    exact orderly.captured σ s a (living found running).1 captured
  · intro σ s found locked
    have running : s.worker ≠ .ended := by
      intro ended
      rw [ended] at locked
      cases locked
    obtain ⟨before, other⟩ := living found running
    apply stays (orderly.guarded σ s before locked)
    rw [processOf, before]
    intro same
    exact other (Option.some.inj same)
  · intro t task found entered
    obtain ⟨before, kept⟩ := Option.filter_eq_some_iff.mp found
    apply stays (orderly.inside t task before entered)
    rw [processOf, before]
    intro same
    exact of_decide_eq_true kept (Option.some.inj same)
  · intro σ s a found writing
    have running : s.worker ≠ .ended := by
      rw [writing]
      exact Worker.noConfusion
    obtain ⟨before, other⟩ := living found running
    obtain ⟨l, lease, rfl, known, state⟩ := orderly.vouched σ s a before writing
    obtain ⟨lease', known', own, -⟩ := sound.held _ _ (orderly.grip_of_writing before writing)
    rw [known] at known'
    cases known'
    refine ⟨l, lease, rfl, ?_, state⟩
    rw [leases_die, known, Option.map_some, if_neg]
    rw [own]
    exact other

theorem step (orderly : w.Orderly) (sound : w.Sound) (h : Step scope w w' r)
    (settled : ∀ l, r = .unregistered (some l) → ∀ σ s, w.stores σ = some s → s.lease ≠ some l) :
    w'.Orderly := by
  cases h with
  | refused => exact orderly
  | genesis absent => exact orderly.setStore_still _ _ rfl
  | carry free alive found own carried known =>
    apply orderly.setTask_outside
    rintro x ⟨⟩
    rfl
  | @acquire t p l phase free alive unlocked fresh purpose =>
    have unused : ¬ w.Writing l := by
      rintro ⟨σ, s, found, writing⟩
      obtain ⟨l', lease, same, known, -⟩ := orderly.vouched σ s (some l) found writing
      cases same
      rw [fresh] at known
      cases known
    apply (orderly.acquire unused).setTask_outside
    rintro x ⟨⟩
    rcases purpose with rfl | rfl <;> rfl
  | @enter t p l kind carried task unlocked =>
    have taken := orderly.lock unlocked (.task t)
    apply taken.setTask
    intro x found entered
    rfl
  | @installFresh t p l σ kind task absent =>
    apply Orderly.setStore_still _ _ _ rfl
    apply orderly.setTask
    intro x found entered
    exact orderly.inside t _ task rfl
  | @installCarried t p l σ kind lease lease' task absent known moved =>
    have left : (w.setTask t (some ⟨p, .leaving (some σ)⟩)).Orderly := by
      apply orderly.setTask
      intro x found entered
      exact orderly.inside t _ task rfl
    apply Orderly.setStore_still _ _ _ rfl
    apply left.setLease
    exact orderly.not_writing_of_task task rfl
  | @withdraw t p l kind carried task =>
    apply orderly.setTask
    intro x found entered
    exact orderly.inside t _ task rfl
  | @abort t p l kind carried reason task =>
    have closed := orderly.closeLease (orderly.not_writing_of_task (l := l) task rfl)
    apply closed.setTask
    intro x found entered
    rw [World.publishLock_closeLease]
    exact orderly.inside t _ task rfl
  | @leave t p built task =>
    have left : (w.setTask t (built.map fun σ => ⟨p, .starting σ⟩)).Orderly := by
      apply orderly.setTask_outside
      intro x found
      cases built with
      | none => cases found
      | some σ =>
        cases found
        rfl
    apply left.unlock_task (t := t)
    · exact orderly.inside t _ task rfl
    · intro x found
      rw [World.tasks_setTask, update_self] at found
      cases built with
      | none => cases found
      | some σ =>
        cases found
        rfl
  | start task found paused =>
    apply Orderly.setStore_still _ _ _ rfl
    apply orderly.setTask_outside
    rintro x ⟨⟩
  | @startFails t p σ s reason task found paused =>
    have still : s.worker.authority = none := by
      rw [paused]
      rfl
    have closed := orderly.closeCarried s.lease fun l owned =>
      orderly.not_writing_of_store sound found owned still
    apply (closed.setTask_outside t none _).setStore_still σ s.detach still
    rintro x ⟨⟩
  | mount task absent =>
    apply Orderly.setStore_still _ _ _ rfl
    apply orderly.setTask_outside
    rintro x ⟨⟩
    rfl
  | @abandon t p l reason task =>
    have closed := orderly.closeLease
      (orderly.not_writing_of_grip sound (g := ⟨l, p, writerStates⟩) task rfl)
    apply closed.setTask_outside
    rintro x ⟨⟩
  | @shut t p σ s phase free found own purpose =>
    have halted : (w.setStore σ s.halt).Orderly := by
      apply orderly.setStore
      · intro a captured
        exact orderly.captured σ s a found captured
      · intro locked
        exact orderly.guarded σ s found locked
      · intro a writing
        exact orderly.vouched σ s a found writing
    apply halted.setTask_outside
    rintro x ⟨⟩
    rcases purpose with rfl | ⟨kind, rfl⟩ <;> rfl
  | @closed t p σ s task found joined =>
    have still : s.worker.authority = none := by
      rw [joined]
      rfl
    have closed := orderly.closeCarried s.lease fun l owned =>
      orderly.not_writing_of_store sound found owned still
    apply (closed.setTask_outside t none _).setStore_still σ s.detach still
    rintro x ⟨⟩
  | fencedFree task found joined without =>
    apply orderly.setTask_outside
    rintro x ⟨⟩
    rfl
  | @fenced t p σ l kind s lease lease' task found joined own owned known moved =>
    have still : s.worker.authority = none := by
      rw [joined]
      rfl
    have detached := orderly.setStore_still σ s.detach still
    have free := sound.free_setStore s.detach found owned rfl
    apply (detached.setLease lease' (detached.not_writing_of_free free)).setTask_outside
    rintro x ⟨⟩
    rfl
  | @fenceFails t p σ l kind s reason task found joined owned =>
    have still : s.worker.authority = none := by
      rw [joined]
      rfl
    apply (orderly.setStore_still σ s.detach still).setTask_outside
    rintro x ⟨⟩
  | @gaveUp t p kind lease reason task =>
    have closed := orderly.closeCarried lease (by
      rintro l rfl
      exact orderly.not_writing_of_grip sound (g := ⟨l, p, fencedStates⟩) task rfl)
    apply closed.setTask_outside
    rintro x ⟨⟩
  | handFree task =>
    apply orderly.setTask_outside
    rintro x ⟨⟩
    rfl
  | @hand t p l kind lease lease' task known moved =>
    have left : (w.setTask t (some ⟨p, .registering kind (some l)⟩)).Orderly := by
      apply orderly.setTask_outside
      rintro x ⟨⟩
      rfl
    apply left.setLease
    exact orderly.not_writing_of_grip sound (g := ⟨l, p, fencedStates⟩) task rfl
  | handFails task =>
    apply orderly.setTask_outside
    rintro x ⟨⟩
  | registered task absent =>
    apply Orderly.setPackage
    apply orderly.setTask_outside
    rintro x ⟨⟩
  | @unregistered t p kind lease task =>
    have closed := orderly.closeCarried lease (by
      rintro l rfl ⟨σ, s, found, writing⟩
      apply settled l rfl σ s found
      apply orderly.captured σ s (some l) found
      rw [writing]
      rfl)
    apply closed.setTask_outside
    rintro x ⟨⟩
  | escaped running outside =>
    apply orderly.setTask_outside
    rintro x ⟨⟩
  | @offered σ s found idle =>
    apply orderly.setStore
    · rintro a ⟨⟩
      rfl
    · rintro ⟨⟩
    · rintro a ⟨⟩
  | @locked σ s authority found offering unlocked =>
    have taken := orderly.lock unlocked (.worker σ)
    apply taken.setStore
    · rintro a ⟨⟩
      exact orderly.captured σ s authority found (by rw [offering]; rfl)
    · intro locked
      rfl
    · rintro a ⟨⟩
  | @authorized σ s authority found deciding accepted =>
    apply orderly.setStore
    · rintro a ⟨⟩
      exact orderly.captured σ s authority found (by rw [deciding]; rfl)
    · intro locked
      exact orderly.guarded σ s found (by rw [deciding]; rfl)
    · rintro a ⟨⟩
      exact World.lease_of_checkBatch accepted
  | @wrote σ s authority found writing =>
    have done := orderly.setStore_still σ { s with worker := .idle } rfl
    apply done.unlock_worker σ
    · exact orderly.guarded σ s found (by rw [writing]; rfl)
    · intro x found'
      rw [stores_setStore, update_self] at found'
      cases found'
      rfl
  | @skipped σ s authority found deciding =>
    have done := orderly.setStore_still σ { s with worker := .idle } rfl
    apply done.unlock_worker σ
    · exact orderly.guarded σ s found (by rw [deciding]; rfl)
    · intro x found'
      rw [stores_setStore, update_self] at found'
      cases found'
      rfl
  | poisoned found started outside plain => exact orderly.setStore_still _ _ rfl
  | @poisonedInside σ s r authority found inside plain =>
    have locked : s.worker.locked = true := by
      rcases inside with deciding | writing
      · rw [deciding]
        rfl
      · rw [writing]
        rfl
    apply (orderly.setStore_still σ s.poison rfl).unlock_worker σ
    · exact orderly.guarded σ s found locked
    · intro x found'
      rw [stores_setStore, update_self] at found'
      cases found'
      rfl
  | @released σ s found poisoning =>
    have still : s.worker.authority = none := by
      rw [poisoning]
      rfl
    apply Orderly.setStore_still _ _ _ rfl
    exact orderly.closeCarried s.lease fun l owned =>
      orderly.not_writing_of_store sound found owned still
  | finished found idle => exact orderly.setStore_still _ _ rfl
  | died => exact orderly.die sound _

end World.Orderly

def World.Relinquished (w : World) (σ : Nat) : Prop :=
  ∃ s, w.stores σ = some s ∧
    (s.lease = none ∨ ∃ l lease, s.lease = some l ∧ w.leases l = some lease ∧ lease.state = .closed)

theorem closed_setLease {w : World} {l l' : Nat} {lease lease' : ScopeWriterLease}
    {next : LeaseState} (closed : ∃ x, w.leases l = some x ∧ x.state = .closed)
    (known : w.leases l' = some lease) (moved : lease.transfer next = .ok lease') :
    ∃ x, (w.setLease l' lease').leases l = some x ∧ x.state = .closed := by
  obtain ⟨x, found, shut⟩ := closed
  have other : l ≠ l' := by
    intro same
    rw [same, known] at found
    cases found
    exact ScopeWriterLease.open_of_transfer moved shut
  exact ⟨x, by simpa [World.setLease, update_of_ne other] using found, shut⟩

theorem closed_closeCarried {w : World} {l : Nat} (lease : Option Nat)
    (closed : ∃ x, w.leases l = some x ∧ x.state = .closed) :
    ∃ x, (w.closeCarried lease).leases l = some x ∧ x.state = .closed := by
  obtain ⟨x, found, shut⟩ := closed
  cases lease with
  | none => exact ⟨x, found, shut⟩
  | some l' =>
    rw [World.closeCarried, World.leases_closeLease]
    split
    · rename_i same
      rw [← same, found]
      exact ⟨x.close, rfl, rfl⟩
    · exact ⟨x, found, shut⟩

theorem closed_of_step {w w' : World} {r : Report} {l : Nat} (h : Step scope w w' r)
    (closed : ∃ x, w.leases l = some x ∧ x.state = .closed) :
    ∃ x, w'.leases l = some x ∧ x.state = .closed := by
  cases h with
  | @acquire t p l' phase free alive unlocked fresh purpose =>
    obtain ⟨x, found, shut⟩ := closed
    refine ⟨x, ?_, shut⟩
    have other : l ≠ l' := by
      intro same
      rw [same, fresh] at found
      cases found
    simpa [World.acquire, World.setLease, World.setTask, update_of_ne other] using found
  | installCarried task absent known moved => exact closed_setLease closed known moved
  | abort task => exact closed_closeCarried (some _) closed
  | startFails task found paused => exact closed_closeCarried _ closed
  | abandon task => exact closed_closeCarried (some _) closed
  | closed task found joined => exact closed_closeCarried _ closed
  | fenced task found joined own owned known moved =>
    exact closed_setLease (w := w.setStore _ _) closed known moved
  | gaveUp task => exact closed_closeCarried _ closed
  | hand task known moved => exact closed_setLease (w := w.setTask _ _) closed known moved
  | unregistered task => exact closed_closeCarried _ closed
  | released found poisoning => exact closed_closeCarried _ closed
  | died =>
    obtain ⟨x, found, shut⟩ := closed
    rw [leases_die, found]
    refine ⟨_, rfl, ?_⟩
    dsimp only
    split
    · rfl
    · exact shut
  | _ => exact closed

theorem store_setStore {w w₁ : World} {s s₀ s' : WriterStore} (stores : w₁.stores = w.stores)
    (found : w.stores σ = some s) (known : w.stores σ' = some s₀)
    (lease : s'.lease = s₀.lease ∨ s'.lease = none) :
    ∃ x, (w₁.setStore σ' s').stores σ = some x ∧ (x.lease = s.lease ∨ x.lease = none) := by
  rw [stores_setStore, stores]
  by_cases same : σ = σ'
  · rw [same, known] at found
    cases found
    exact ⟨s', by rw [same, update_self], lease⟩
  · exact ⟨s, by rw [update_of_ne same, found], .inl rfl⟩

theorem store_setStore_new {w w₁ : World} {s s' : WriterStore} (stores : w₁.stores = w.stores)
    (found : w.stores σ = some s) (absent : w.stores σ' = none) :
    ∃ x, (w₁.setStore σ' s').stores σ = some x ∧ (x.lease = s.lease ∨ x.lease = none) := by
  have other : σ ≠ σ' := by
    intro same
    rw [same, absent] at found
    cases found
  rw [stores_setStore, stores, update_of_ne other]
  exact ⟨s, found, .inl rfl⟩

theorem store_of_step {w w' : World} {r : Report} {σ : Nat} {s : WriterStore}
    (h : Step scope w w' r) (found : w.stores σ = some s) :
    ∃ s', w'.stores σ = some s' ∧ (s'.lease = s.lease ∨ s'.lease = none) := by
  cases h with
  | genesis absent => exact store_setStore_new rfl found absent
  | installFresh task absent => exact store_setStore_new rfl found absent
  | installCarried task absent known moved => exact store_setStore_new rfl found absent
  | mount task absent => exact store_setStore_new rfl found absent
  | abort task =>
    refine ⟨s, ?_, .inl rfl⟩
    rw [← found]
    exact congrFun stores_closeLease σ
  | start task known paused =>
    exact store_setStore rfl found known (.inl rfl)
  | startFails task known paused =>
    exact store_setStore stores_closeCarried found known (.inr rfl)
  | abandon task =>
    refine ⟨s, ?_, .inl rfl⟩
    rw [← found]
    exact congrFun stores_closeLease σ
  | shut free known own purpose =>
    exact store_setStore rfl found known (.inl rfl)
  | closed task known joined =>
    exact store_setStore stores_closeCarried found known (.inr rfl)
  | fenced task known joined own owned lease moved =>
    exact store_setStore rfl found known (.inr rfl)
  | fenceFails task known joined owned => exact store_setStore rfl found known (.inr rfl)
  | gaveUp task =>
    refine ⟨s, ?_, .inl rfl⟩
    rw [← found]
    exact congrFun stores_closeCarried σ
  | unregistered task =>
    refine ⟨s, ?_, .inl rfl⟩
    rw [← found]
    exact congrFun stores_closeCarried σ
  | offered known idle => exact store_setStore rfl found known (.inl rfl)
  | locked known offering unlocked => exact store_setStore rfl found known (.inl rfl)
  | authorized known deciding accepted => exact store_setStore rfl found known (.inl rfl)
  | wrote known writing => exact store_setStore rfl found known (.inl rfl)
  | skipped known deciding => exact store_setStore rfl found known (.inl rfl)
  | poisoned known started outside plain => exact store_setStore rfl found known (.inl rfl)
  | poisonedInside known inside plain => exact store_setStore rfl found known (.inl rfl)
  | released known poisoning =>
    exact store_setStore stores_closeCarried found known (.inr rfl)
  | finished known idle => exact store_setStore rfl found known (.inl rfl)
  | @died p =>
    refine ⟨if s.process = p then { s with worker := .ended } else s, ?_, ?_⟩
    · simp only [World.die, found, Option.map_some]
    · left
      split <;> rfl
  | _ => exact ⟨s, found, .inl rfl⟩

theorem World.Relinquished.step {w w' : World} {r : Report} {σ : Nat}
    (lost : w.Relinquished σ) (h : Step scope w w' r) : w'.Relinquished σ := by
  obtain ⟨s, found, lease⟩ := lost
  obtain ⟨s', found', same | none'⟩ := store_of_step h found
  · refine ⟨s', found', ?_⟩
    rw [same]
    rcases lease with without | ⟨l, x, owned, known, shut⟩
    · exact .inl without
    · obtain ⟨x', known', shut'⟩ := closed_of_step h ⟨x, known, shut⟩
      exact .inr ⟨l, x', owned, known', shut'⟩
  · exact ⟨s', found', .inl none'⟩

theorem World.Relinquished.silent {w w' : World} {r : Report} {σ : Nat}
    (lost : w.Relinquished σ) (orderly : w.Orderly) (h : Step scope w w' r) : r ≠ .published σ := by
  obtain ⟨s, found, lease⟩ := lost
  cases h with
  | @wrote σ' s' authority found' writing =>
    rintro ⟨⟩
    rw [found] at found'
    cases found'
    have owned := orderly.captured σ s authority found (by rw [writing]; rfl)
    obtain ⟨l, x, rfl, known, state⟩ := orderly.vouched σ s authority found writing
    rw [owned] at lease
    rcases lease with without | ⟨l', x', same, known', shut⟩
    · cases without
    · cases same
      rw [known] at known'
      cases known'
      exact unclosed_of_writer state shut
  | poisoned known started outside plain =>
    rcases plain with rfl | ⟨why, rfl⟩ <;> exact Report.noConfusion
  | poisonedInside known inside plain =>
    rcases plain with rfl | ⟨why, rfl⟩ <;> exact Report.noConfusion
  | _ => rintro ⟨⟩

def Settled (scope : Int) (w : World) (e : Event) : Prop :=
  ∀ w' l, step scope w e = some (w', .unregistered (some l)) →
    ∀ σ s, w.stores σ = some s → s.lease ≠ some l

variable {es : List Event} {e : Event}

theorem settled_of_reports {w last : World} (rs : List Report)
    (ran : (machine scope).run w es = some (last, rs))
    (registered : ∀ r ∈ rs, ∀ l, r ≠ .unregistered l) :
    (machine scope).Along (Settled scope) w es := by
  refine Machine.along_of_reports (G := fun r => ∀ l, r ≠ Report.unregistered l) ?_ ran registered
  intro w e next r stepped kept w' l failed
  rw [show step scope w e = some (next, r) from stepped] at failed
  cases failed
  exact absurd rfl (kept (some l))

theorem sound_of_run {w : World} {rs : List Report}
    (ran : (machine scope).run .initial es = some (w, rs)) : w.Sound :=
  Machine.invariant_run (fun _ _ _ _ sound stepped => sound.step (step_cases stepped))
    sound_initial ran

theorem orderly_initial : World.initial.Orderly where
  captured := by
    intro σ s a found
    cases found
  guarded := by
    intro σ s found
    cases found
  inside := by
    intro t task found
    cases found
  vouched := by
    intro σ s a found
    cases found

theorem orderly_of_step {w w' : World} {r : Report} (kept : w.Sound ∧ w.Orderly)
    (settled : Settled scope w e) (stepped : step scope w e = some (w', r)) :
    w'.Sound ∧ w'.Orderly := by
  have h := step_cases stepped
  refine ⟨kept.1.step h, kept.2.step kept.1 h ?_⟩
  rintro l rfl
  exact settled w' l stepped

theorem inTransit_of_fenced {w w₁ : World} {kind : PackageKind} {l : Nat} (sound : w.Sound)
    (stepped : step scope w e = some (w₁, .fenced kind (some l))) : ∃ p, w₁.InTransit l p := by
  cases step_cases stepped with
  | @fenced t p σ l kind s lease lease' task found joined own owned known moved =>
    have free := sound.free_setStore s.detach found owned rfl
    refine ⟨lease'.process, ⟨⟨lease', update_self .., ?_, rfl⟩, ?_⟩⟩
    · rw [(ScopeWriterLease.transfer_eq_ok moved).2]
      cases kind <;> exact LeaseState.noConfusion
    · intro σ' s' found' owned'
      refine absurd rfl (free (.store σ') ⟨l, s'.process, writerStates⟩ ?_)
      have found'' : (w.setStore σ s.detach).stores σ' = some s' := found'
      simp only [World.grip, found'', Option.bind_some, WriterStore.grip, owned', Option.map_some]
  | poisoned found started outside plain =>
    rcases plain with quiet | ⟨why, refused⟩
    · cases quiet
    · cases refused
  | poisonedInside found inside plain =>
    rcases plain with quiet | ⟨why, refused⟩
    · cases quiet
    · cases refused

/-- At most one store may publish batches at any time; a lease that a fence detaches stays locked
until a store is activated with it, a preparation or an activation that had it fails, or its
process dies; and a store that has lost its lease publishes no batch, as long as no registration
that fails closes a lease some store has taken. -/
theorem scope_has_single_writer (scope : Int) :
    (∀ es w rs, (machine scope).run .initial es = some (w, rs) →
      ∀ σ σ', w.Authorized scope σ → w.Authorized scope σ' → σ = σ') ∧
    (∀ es w rs e w₁ kind l, (machine scope).run .initial es = some (w, rs) →
      step scope w e = some (w₁, .fenced kind (some l)) →
      ∃ lease, w₁.leases l = some lease ∧
        ∀ es' w₂ rs', (machine scope).run w₁ es' = some (w₂, rs') →
          (∀ r ∈ rs', ¬ r.Ends l lease.process) → w₂.writerLock = some l) ∧
    (∀ es w rs es' w' rs' σ, (machine scope).Along (Settled scope) .initial (es ++ es') →
      (machine scope).run .initial es = some (w, rs) → w.Relinquished σ →
      (machine scope).run w es' = some (w', rs') → .published σ ∉ rs') := by
  refine ⟨?_, ?_, ?_⟩
  · intro es w rs ran σ σ' first second
    exact (sound_of_run ran).authorized_unique first second
  · intro es w rs e w₁ kind l ran stepped
    have sound := sound_of_run ran
    obtain ⟨p, transit⟩ := inTransit_of_fenced sound stepped
    obtain ⟨lease, found, -, own⟩ := transit.opened
    refine ⟨lease, found, ?_⟩
    intro es' w₂ rs' onward ongoing
    have kept := Machine.invariant_until (I := fun w => w.Sound ∧ w.InTransit l p)
      (fun w e w' r both stepped open' =>
        have h := step_cases stepped
        ⟨both.1.step h, both.2.step both.1 h open'⟩)
      ⟨sound.step (step_cases stepped), transit⟩ onward (own ▸ ongoing)
    obtain ⟨lease', found', unclosed, -⟩ := kept.2.opened
    exact kept.1.locked l lease' found' unclosed
  · intro es w rs es' w' rs' σ along ran lost onward member
    obtain ⟨before, after⟩ := Machine.along_append along ran
    have kept := Machine.invariant_along (I := fun w => w.Sound ∧ w.Orderly)
      (fun _ _ _ _ both settled stepped => orderly_of_step both settled stepped)
      ⟨sound_initial, orderly_initial⟩ before ran
    have silent := Machine.reports_along (I := fun w => (w.Sound ∧ w.Orderly) ∧ w.Relinquished σ)
      (G := fun r => r ≠ .published σ)
      (fun w e w' r both settled stepped =>
        have h := step_cases stepped
        ⟨⟨orderly_of_step both.1 settled stepped, both.2.step h⟩,
          both.2.silent both.1.2 h⟩)
      ⟨kept, lost⟩ after onward
    exact silent _ member rfl

def servedRun : List Event :=
  [.resume 0 0 0, .mount 0 0, .start 0 true, .publish 0, .lock 0, .authorize 0, .write 0]

def fencedRun : List Event := servedRun ++ [.fence 0 0 0 .rotation false, .finish 0]

def packagedRun : List Event := [.hand 0, .register 0 0 true]

theorem scope_has_single_writer_rotation :
    (∃ w rs, (machine 7).run .initial servedRun = some (w, rs) ∧ ∀ σ, w.Authorized 7 σ → 0 = σ) ∧
    (∃ w rs w₁ w₂, (machine 7).run .initial fencedRun = some (w, rs) ∧
      step 7 w (.join 0) = some (w₁, .fenced .rotation (some 0)) ∧
      (machine 7).run w₁ packagedRun = some (w₂, [.quiet, .prepared 0]) ∧
      w₂.writerLock = some 0) ∧
    (∃ w rs w' rs', (machine 7).run .initial (fencedRun ++ [.join 0]) = some (w, rs) ∧
      (machine 7).run w packagedRun = some (w', rs') ∧ .published 0 ∉ rs') := by
  obtain ⟨exclusive, locked, silent⟩ := scope_has_single_writer 7
  refine ⟨⟨_, _, rfl, ?_⟩, ⟨_, _, _, _, rfl, rfl, rfl, ?_⟩, ⟨_, _, _, _, rfl, rfl, ?_⟩⟩
  · intro σ second
    refine exclusive servedRun _ _ rfl 0 σ ⟨_, rfl, rfl, ?_⟩ second
    decide
  · obtain ⟨lease, -, kept⟩ := locked fencedRun _ _ (.join 0) _ .rotation 0 rfl rfl
    refine kept packagedRun _ _ rfl ?_
    simp [Report.Ends]
  · refine silent (fencedRun ++ [.join 0]) _ _ packagedRun _ _ 0 ?_ rfl ⟨_, rfl, .inl rfl⟩ rfl
    refine settled_of_reports [.quiet, .quiet, .activated 0 (some 0), .quiet, .quiet, .quiet,
      .published 0, .quiet, .quiet, .fenced .rotation (some 0), .quiet, .prepared 0] rfl ?_
    simp

def Report.Settles : Report → Prop
  | .activated _ _ => True
  | .failed _ _ => True
  | .unregistered _ => True
  | _ => False

def LeaseNeverFree (scope : Int) : Prop :=
  ∀ es w rs e w₁ kind lease es' w₂ rs', (machine scope).run .initial es = some (w, rs) →
    step scope w e = some (w₁, .fenced kind lease) → (machine scope).run w₁ es' = some (w₂, rs') →
    (∀ r ∈ rs', ¬ r.Settles) → w₂.writerLock ≠ none

def PublishesUnderLease (scope : Int) : Prop :=
  ∀ es w rs es' w' rs' σ, (machine scope).run .initial es = some (w, rs) → w.Relinquished σ →
    (machine scope).run w es' = some (w', rs') → .published σ ∉ rs'

def closedRun : List Event :=
  servedRun ++ [.close 1 0 0, .finish 0, .join 1, .fence 1 0 0 .rotation false]

/-- Two threads activate one package; while the second waits for `publish.lock` the store of the
first is compacted, so that the second takes the lease out of the compaction, whose registration
then fails. -/
def overtakenRun : List Event :=
  fencedRun ++ [.join 0] ++ packagedRun ++
    [.activate 1 0 0 1, .activate 2 0 0 1,
      .enter 1, .install 1 1, .leave 1, .start 1 true,
      .fence 1 0 1 .compaction true, .finish 1, .join 1, .hand 1,
      .enter 2, .install 2 2, .leave 2, .start 2 true,
      .publish 2, .lock 2, .authorize 2,
      .register 1 1 false]

/-- A store that was closed is fenced without a lease, and a lease in a store can be closed by a
preparation that lost it to a second activation. -/
theorem lease_free_after_fence : ¬ LeaseNeverFree 7 ∧ ¬ PublishesUnderLease 7 := by
  constructor
  · intro never
    apply never closedRun _ _ (.join 1) _ .rotation none [] _ [] rfl rfl rfl
    · intro r member
      cases member
    · rfl
  · intro silent
    refine silent overtakenRun _ _ [.write 2] _ [.published 2] 2 rfl ?_ rfl List.mem_cons_self
    exact ⟨_, rfl, .inr ⟨0, _, rfl, rfl, rfl⟩⟩

end ProofRay.Engine.Writers
