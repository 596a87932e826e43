/- Who holds the leases of a scope: each open lease has the lock and one holder, in every world a
   step can lead to. -/

import ProofRay.Engine.WriterSteps

namespace ProofRay.Engine.Writers

open Function (update_apply update_of_ne update_self)

/-- Who has a lease for itself. -/
inductive Holder where
  | store (σ : Nat)
  | task (t : Nat)
  deriving DecidableEq

/-- A lease in somebody's hands, and the states it can be found in there. -/
structure Grip where
  lease : Nat
  process : Nat
  states : List LeaseState

def writerStates : List LeaseState := [.ownedByStore, .ownedByNewStore, .closed]

def fencedStates : List LeaseState := [.ownedByRotation, .ownedByCompaction, .closed]

def WriterStore.grip (s : WriterStore) : Option Grip :=
  s.lease.map fun l => ⟨l, s.process, writerStates⟩

def Task.grip (task : Task) : Option Grip :=
  match task.phase with
  | .activating _ l false => some ⟨l, task.process, writerStates⟩
  | .installing _ l false => some ⟨l, task.process, writerStates⟩
  | .resuming l => some ⟨l, task.process, writerStates⟩
  | .preparing _ (some l) => some ⟨l, task.process, fencedStates⟩
  | _ => none

/-- The lease a thread knows of without having it for itself: a package carries it. -/
def Task.mention (task : Task) : Option (Nat × Nat) :=
  match task.phase with
  | .activating _ l true => some (l, task.process)
  | .installing _ l true => some (l, task.process)
  | .registering _ (some l) => some (l, task.process)
  | _ => none

def Package.mention (package : Package) : Option (Nat × Nat) :=
  package.lease.map fun l => (l, package.process)

namespace World

def grip (w : World) : Holder → Option Grip
  | .store σ => (w.stores σ).bind WriterStore.grip
  | .task t => (w.tasks t).bind Task.grip

def Knows (w : World) (l p : Nat) : Prop :=
  ∃ lease, w.leases l = some lease ∧ lease.process = p

def Mentions (w : World) (l p : Nat) : Prop :=
  (∃ t task, w.tasks t = some task ∧ task.mention = some (l, p)) ∨
    ∃ g package, w.packages g = some package ∧ package.mention = some (l, p)

/-- The custody of the leases: an open lease has the lock, a held lease has one holder and a state
that fits it, a lease somebody mentions exists. -/
structure Sound (w : World) : Prop where
  locked : ∀ l lease, w.leases l = some lease → lease.state ≠ .closed → w.writerLock = some l
  held : ∀ h g, w.grip h = some g →
    ∃ lease, w.leases g.lease = some lease ∧ lease.process = g.process ∧ lease.state ∈ g.states
  unique : ∀ h h' g g', w.grip h = some g → w.grip h' = some g' → g.lease = g'.lease → h = h'
  known : ∀ l p, w.Mentions l p → w.Knows l p

variable {w : World}

variable {h : Holder} {l : Nat} {lease : ScopeWriterLease} {t : Nat} {s : WriterStore}
  {task : Option Task} {σ : Nat} {package : Package} {g : Grip}

@[simp] theorem tasks_setTask :
    (w.setTask t task).tasks = Function.update w.tasks t task := rfl

@[simp] theorem packages_setPackage {g : Nat} :
    (w.setPackage g package).packages = Function.update w.packages g (some package) := rfl

@[simp] theorem stores_setStore :
    (w.setStore σ s).stores = Function.update w.stores σ (some s) := rfl

theorem closed_mem_states (grip : w.grip h = some g) : LeaseState.closed ∈ g.states := by
  cases h with
  | store σ =>
    obtain ⟨s, -, grip⟩ := Option.bind_eq_some_iff.mp grip
    obtain ⟨l, -, rfl⟩ := Option.map_eq_some_iff.mp grip
    simp [writerStates]
  | task t =>
    obtain ⟨task, -, grip⟩ := Option.bind_eq_some_iff.mp grip
    unfold Task.grip at grip
    split at grip <;> cases grip <;> simp [writerStates, fencedStates]

@[simp] theorem grip_setTask :
    (w.setTask t task).grip h = if h = .task t then task.bind Task.grip else w.grip h := by
  cases h with
  | store σ => rfl
  | task t' =>
    by_cases same : t' = t
    · subst same
      simp [grip, setTask]
    · simp [grip, setTask, same]

@[simp] theorem grip_setStore :
    (w.setStore σ s).grip h = if h = .store σ then s.grip else w.grip h := by
  cases h with
  | task t => rfl
  | store σ' =>
    by_cases same : σ' = σ
    · subst same
      simp [grip, setStore]
    · simp [grip, setStore, same]

@[simp] theorem grip_setLease : (w.setLease l lease).grip h = w.grip h := by
  cases h <;> rfl

variable {holder : Option Actor}

@[simp] theorem grip_setPublishLock : (w.setPublishLock holder).grip h = w.grip h := by
  cases h <;> rfl

@[simp] theorem grip_setPackage {g : Nat} : (w.setPackage g package).grip h = w.grip h := by
  cases h <;> rfl

@[simp] theorem grip_acquire {scope : Int} {l p : Nat} :
    (w.acquire scope l p).grip h = w.grip h := by
  cases h <;> rfl

@[simp] theorem stores_closeLease : (w.closeLease l).stores = w.stores := by
  unfold closeLease
  split <;> rfl

@[simp] theorem tasks_closeLease : (w.closeLease l).tasks = w.tasks := by
  unfold closeLease
  split <;> rfl

@[simp] theorem packages_closeLease : (w.closeLease l).packages = w.packages := by
  unfold closeLease
  split <;> rfl

@[simp] theorem publishLock_closeLease : (w.closeLease l).publishLock = w.publishLock := by
  unfold closeLease
  split <;> rfl

theorem stores_closeCarried {lease : Option Nat} : (w.closeCarried lease).stores = w.stores := by
  cases lease with
  | none => rfl
  | some l => exact stores_closeLease

@[simp] theorem grip_closeLease : (w.closeLease l).grip h = w.grip h := by
  cases h <;> simp [grip]

theorem leases_closeLease {l l' : Nat} :
    (w.closeLease l).leases l' =
      if l' = l then (w.leases l).map ScopeWriterLease.close else w.leases l' := by
  unfold closeLease
  split
  · rename_i absent
    split
    · rename_i same
      rw [same, absent]
      rfl
    · rfl
  · rename_i lease found
    simp only [setLease, update_apply]
    split
    · rw [found]
      rfl
    · rfl

theorem writerLock_closeLease {l l' : Nat} (other : l' ≠ l) (locked : w.writerLock = some l') :
    (w.closeLease l).writerLock = some l' := by
  unfold closeLease
  split
  · exact locked
  · simp only [locked, Option.some.injEq, if_neg other]

theorem mentions_setTask {l p : Nat} (h : (w.setTask t task).Mentions l p) :
    task.bind Task.mention = some (l, p) ∨ w.Mentions l p := by
  rcases h with ⟨t', task', found, mention⟩ | package
  · by_cases same : t' = t
    · subst same
      rw [tasks_setTask, update_self] at found
      left
      rw [found]
      exact mention
    · rw [tasks_setTask, update_of_ne same] at found
      exact .inr (.inl ⟨t', task', found, mention⟩)
  · exact .inr (.inr package)

theorem mentions_setPackage {g : Nat} {l p : Nat} (h : (w.setPackage g package).Mentions l p) :
    package.mention = some (l, p) ∨ w.Mentions l p := by
  rcases h with task | ⟨g', package', found, mention⟩
  · exact .inr (.inl task)
  · by_cases same : g' = g
    · subst same
      rw [packages_setPackage, update_self] at found
      cases found
      exact .inl mention
    · rw [packages_setPackage, update_of_ne same] at found
      exact .inr (.inr ⟨g', package', found, mention⟩)

@[simp] theorem mentions_setStore {l p : Nat} :
    (w.setStore σ s).Mentions l p ↔ w.Mentions l p := Iff.rfl

@[simp] theorem mentions_setLease {l' : Nat} {l p : Nat} :
    (w.setLease l' lease).Mentions l p ↔ w.Mentions l p := Iff.rfl

@[simp] theorem mentions_setPublishLock {l p : Nat} :
    (w.setPublishLock holder).Mentions l p ↔ w.Mentions l p := Iff.rfl

@[simp] theorem mentions_acquire {scope : Int} {l' p' l p : Nat} :
    (w.acquire scope l' p').Mentions l p ↔ w.Mentions l p := Iff.rfl

@[simp] theorem mentions_closeLease {l' l p : Nat} :
    (w.closeLease l').Mentions l p ↔ w.Mentions l p := by
  simp [Mentions]

theorem mentions_of_setTask {l p : Nat} (silent : task.bind Task.mention = none)
    (h : (w.setTask t task).Mentions l p) : w.Mentions l p := by
  rcases mentions_setTask h with here | there
  · rw [silent] at here
    cases here
  · exact there

theorem Sound.frame {w' : World} (sound : w.Sound) (leases : w'.leases = w.leases)
    (lock : w'.writerLock = w.writerLock) (grips : ∀ h g, w'.grip h = some g → w.grip h = some g)
    (mentions : ∀ l p, w'.Mentions l p → w.Knows l p) : w'.Sound where
  locked := by
    rw [leases, lock]
    exact sound.locked
  held := by
    intro h g grip
    rw [leases]
    exact sound.held h g (grips h g grip)
  unique := by
    intro h h' g g' grip grip' same
    exact sound.unique h h' g g' (grips h g grip) (grips h' g' grip') same
  known := by
    intro l p mention
    unfold Knows
    rw [leases]
    exact mentions l p mention

def Free (w : World) (l : Nat) : Prop :=
  ∀ h g, w.grip h = some g → g.lease ≠ l

theorem Sound.free_of_release {w' : World} {g₀ : Grip} (sound : w.Sound) (h₀ : Holder)
    (owner : w.grip h₀ = some g₀) (released : w'.grip h₀ = none)
    (grips : ∀ h g, w'.grip h = some g → w.grip h = some g) : w'.Free g₀.lease := by
  intro h g grip same
  have here := sound.unique h h₀ g g₀ (grips h g grip) owner same
  rw [here, released] at grip
  cases grip

theorem Sound.setLease {lease lease' : ScopeWriterLease} {next : LeaseState} (sound : w.Sound)
    (free : w.Free l) (found : w.leases l = some lease) (moved : lease.transfer next = .ok lease') :
    (w.setLease l lease').Sound where
  locked := by
    intro l' x found' unclosed
    simp only [World.setLease, update_apply] at found'
    split at found'
    · rename_i same
      rw [same]
      exact sound.locked l lease found (ScopeWriterLease.open_of_transfer moved)
    · exact sound.locked l' x found' unclosed
  held := by
    intro h g grip
    rw [grip_setLease] at grip
    simp only [World.setLease, update_apply, if_neg (free h g grip)]
    exact sound.held h g grip
  unique := by
    intro h h' g g' grip grip' same
    rw [grip_setLease] at grip grip'
    exact sound.unique h h' g g' grip grip' same
  known := by
    intro l' p mention
    obtain ⟨x, found', own⟩ := sound.known l' p (mentions_setLease.mp mention)
    simp only [Knows, World.setLease, update_apply]
    split
    · rename_i same
      refine ⟨lease', rfl, ?_⟩
      rw [same, found] at found'
      cases found'
      rw [(ScopeWriterLease.transfer_eq_ok moved).2]
      exact own
    · exact ⟨x, found', own⟩

theorem Sound.give {w' : World} (sound : w.Sound) (h₀ : Holder) (g₀ : Grip) (free : w.Free g₀.lease)
    (leases : w'.leases = w.leases) (lock : w'.writerLock = w.writerLock)
    (found : w.leases g₀.lease = some lease) (own : lease.process = g₀.process)
    (fits : lease.state ∈ g₀.states)
    (grips : ∀ h g, w'.grip h = some g → (h = h₀ ∧ g = g₀) ∨ w.grip h = some g)
    (mentions : ∀ l p, w'.Mentions l p → w.Mentions l p) : w'.Sound where
  locked := by
    rw [leases, lock]
    exact sound.locked
  held := by
    intro h g grip
    rw [leases]
    rcases grips h g grip with ⟨-, rfl⟩ | before
    · exact ⟨lease, found, own, fits⟩
    · exact sound.held h g before
  unique := by
    intro h h' g g' grip grip' same
    rcases grips h g grip with ⟨here, rfl⟩ | before <;>
      rcases grips h' g' grip' with ⟨here', rfl⟩ | before'
    · rw [here, here']
    · exact absurd same.symm (free h' g' before')
    · exact absurd same (free h g before)
    · exact sound.unique h h' g g' before before' same
  known := by
    intro l p mention
    unfold Knows
    rw [leases]
    exact sound.known l p (mentions l p mention)

theorem Sound.closeLease (sound : w.Sound) (l : Nat) : (w.closeLease l).Sound where
  locked := by
    intro l' lease found unclosed
    rw [leases_closeLease] at found
    split at found
    · obtain ⟨lease₀, -, rfl⟩ := Option.map_eq_some_iff.mp found
      exact absurd rfl unclosed
    · rename_i other
      exact writerLock_closeLease other (sound.locked l' lease found unclosed)
  held := by
    intro h g grip
    rw [grip_closeLease] at grip
    obtain ⟨lease, found, own, fits⟩ := sound.held h g grip
    rw [leases_closeLease]
    split
    · rename_i same
      rw [← same, found]
      refine ⟨lease.close, rfl, own, ?_⟩
      exact closed_mem_states grip
    · exact ⟨lease, found, own, fits⟩
  unique := by
    intro h h' g g' grip grip' same
    rw [grip_closeLease] at grip grip'
    exact sound.unique h h' g g' grip grip' same
  known := by
    intro l' p mention
    obtain ⟨lease, found, own⟩ := sound.known l' p (mentions_closeLease.mp mention)
    unfold Knows
    rw [leases_closeLease]
    split
    · rename_i same
      rw [← same, found]
      exact ⟨lease.close, rfl, own⟩
    · exact ⟨lease, found, own⟩

theorem Sound.closeCarried (sound : w.Sound) (l : Option Nat) : (w.closeCarried l).Sound := by
  cases l with
  | none => exact sound
  | some l => exact sound.closeLease l

theorem Sound.setPublishLock (sound : w.Sound) (holder : Option Actor) :
    (w.setPublishLock holder).Sound := by
  refine sound.frame ?_ ?_ ?_ ?_
  · rfl
  · rfl
  · intro h g grip
    rwa [grip_setPublishLock] at grip
  · intro l p mention
    exact sound.known l p (mentions_setPublishLock.mp mention)

theorem Sound.setTask (sound : w.Sound) (t : Nat) (task : Option Task)
    (grip : task.bind Task.grip = none ∨ task.bind Task.grip = w.grip (.task t))
    (mention : ∀ l p, task.bind Task.mention = some (l, p) → w.Knows l p) :
    (w.setTask t task).Sound := by
  refine sound.frame ?_ ?_ ?_ ?_
  · rfl
  · rfl
  · intro h g held
    rw [grip_setTask] at held
    split at held
    · rename_i here
      rcases grip with nothing | same
      · rw [nothing] at held
        cases held
      · rw [here, ← same]
        exact held
    · exact held
  · intro l p mentioned
    rcases mentions_setTask mentioned with here | there
    · exact mention l p here
    · exact sound.known l p there

theorem Sound.setTask_without (sound : w.Sound) (t : Nat) (task : Option Task)
    (grip : task.bind Task.grip = none) (mention : task.bind Task.mention = none) :
    (w.setTask t task).Sound := by
  apply sound.setTask _ _ (.inl grip)
  intro l p mentioned
  rw [mention] at mentioned
  cases mentioned

theorem Sound.setStore (sound : w.Sound) (σ : Nat) (s : WriterStore)
    (grip : s.grip = none ∨ s.grip = w.grip (.store σ)) : (w.setStore σ s).Sound := by
  refine sound.frame ?_ ?_ ?_ ?_
  · rfl
  · rfl
  · intro h g held
    rw [grip_setStore] at held
    split at held
    · rename_i here
      rcases grip with nothing | same
      · rw [nothing] at held
        cases held
      · rw [here, ← same]
        exact held
    · exact held
  · intro l p mentioned
    exact sound.known l p (mentions_setStore.mp mentioned)

theorem Sound.setStore_same (sound : w.Sound) (s' : WriterStore) (found : w.stores σ = some s)
    (lease : s'.lease = s.lease) (process : s'.process = s.process) : (w.setStore σ s').Sound := by
  apply sound.setStore _ _
  right
  simp only [grip, found, Option.bind_some, WriterStore.grip, lease, process]

theorem Sound.setPackage {g p : Nat} {kind : PackageKind} {lease : Option Nat} (sound : w.Sound)
    (known : ∀ l, lease = some l → w.Knows l p) : (w.setPackage g ⟨p, kind, lease⟩).Sound := by
  refine sound.frame ?_ ?_ ?_ ?_
  · rfl
  · rfl
  · intro h x grip
    rwa [grip_setPackage] at grip
  · intro l p' mentioned
    rcases mentions_setPackage mentioned with here | there
    · obtain ⟨l', carried, same⟩ := Option.map_eq_some_iff.mp here
      cases same
      exact known l carried
    · exact sound.known l p' there

theorem Sound.acquire (sound : w.Sound) (scope : Int) (p : Nat) (unlocked : w.writerLock = none)
    (fresh : w.leases l = none) : (w.acquire scope l p).Sound ∧ (w.acquire scope l p).Free l := by
  have apart : w.Free l := by
    intro h g grip same
    obtain ⟨lease, found, -⟩ := sound.held h g grip
    rw [same, fresh] at found
    cases found
  refine ⟨⟨?_, ?_, ?_, ?_⟩, ?_⟩
  · intro l' lease found unclosed
    simp only [World.acquire, World.setLease, update_apply] at found ⊢
    split at found
    · rename_i same
      rw [same]
    · have taken := sound.locked l' lease found unclosed
      rw [unlocked] at taken
      cases taken
  · intro h g grip
    rw [grip_acquire] at grip
    simp only [World.acquire, World.setLease, update_apply, if_neg (apart h g grip)]
    exact sound.held h g grip
  · intro h h' g g' grip grip' same
    rw [grip_acquire] at grip grip'
    exact sound.unique h h' g g' grip grip' same
  · intro l' p' mention
    obtain ⟨lease, found, own⟩ := sound.known l' p' (mentions_acquire.mp mention)
    have other : l' ≠ l := by
      intro same
      rw [same, fresh] at found
      cases found
    simp only [Knows, World.acquire, World.setLease, update_apply, if_neg other]
    exact ⟨lease, found, own⟩
  · intro h g grip
    rw [grip_acquire] at grip
    exact apart h g grip

theorem leases_die {p l : Nat} :
    (w.die p).leases l =
      (w.leases l).map fun lease => if lease.process = p then lease.close else lease := rfl

theorem writerLock_die {p l : Nat} (found : w.leases l = some lease) (other : lease.process ≠ p)
    (locked : w.writerLock = some l) : (w.die p).writerLock = some l := by
  have kept : (w.leases l).map ScopeWriterLease.process ≠ some p := by
    rw [found]
    intro same
    exact other (Option.some.inj same)
  simp only [die, locked, Option.filter_some, kept, ne_eq, not_false_eq_true, decide_true, if_true]

theorem grip_of_die {p : Nat} (grip : (w.die p).grip h = some g) : w.grip h = some g := by
  cases h with
  | store σ =>
    obtain ⟨s', found, grip⟩ := Option.bind_eq_some_iff.mp grip
    obtain ⟨s, before, rfl⟩ := Option.map_eq_some_iff.mp found
    refine Option.bind_eq_some_iff.mpr ⟨s, before, ?_⟩
    split at grip
    · exact grip
    · exact grip
  | task t =>
    obtain ⟨task, found, grip⟩ := Option.bind_eq_some_iff.mp grip
    exact Option.bind_eq_some_iff.mpr ⟨task, (Option.filter_eq_some_iff.mp found).1, grip⟩

theorem Sound.die (sound : w.Sound) (p : Nat) : (w.die p).Sound where
  locked := by
    intro l lease found unclosed
    obtain ⟨before, known, rfl⟩ := Option.map_eq_some_iff.mp found
    split at unclosed
    · exact absurd rfl unclosed
    · rename_i other
      exact writerLock_die known other (sound.locked l before known unclosed)
  held := by
    intro h g grip
    obtain ⟨lease, found, own, fits⟩ := sound.held h g (grip_of_die grip)
    rw [leases_die, found]
    refine ⟨_, rfl, ?_, ?_⟩ <;> dsimp only
    · split <;> exact own
    · split
      · exact closed_mem_states grip
      · exact fits
  unique := by
    intro h h' g g' grip grip' same
    exact sound.unique h h' g g' (grip_of_die grip) (grip_of_die grip') same
  known := by
    intro l p' mention
    have before : w.Mentions l p' := by
      rcases mention with ⟨t, task, found, mention⟩ | package
      · exact .inl ⟨t, task, (Option.filter_eq_some_iff.mp found).1, mention⟩
      · exact .inr package
    obtain ⟨lease, found, own⟩ := sound.known l p' before
    unfold Knows
    rw [leases_die, found]
    refine ⟨_, rfl, ?_⟩
    dsimp only
    split <;> exact own

theorem Sound.setStore_paused {σ p l : Nat} (sound : w.Sound) (free : w.Free l)
    (found : w.leases l = some lease) (own : lease.process = p) (fits : lease.state ∈ writerStates)
    : (w.setStore σ (.paused p l)).Sound := by
  refine sound.give (.store σ) ⟨l, p, writerStates⟩ free ?_ ?_ found own fits ?_ ?_
  · rfl
  · rfl
  · intro h g grip
    rw [grip_setStore] at grip
    split at grip
    · rename_i here
      cases grip
      exact .inl ⟨here, rfl⟩
    · exact .inr grip
  · intro l' p' mentioned
    exact mentions_setStore.mp mentioned

theorem Sound.setTask_give {task : Task} (sound : w.Sound) (g : Grip) (free : w.Free g.lease)
    (grip : task.grip = some g) (mention : task.mention = none)
    (found : w.leases g.lease = some lease) (own : lease.process = g.process)
    (fits : lease.state ∈ g.states) : (w.setTask t (some task)).Sound := by
  refine sound.give (.task t) g free ?_ ?_ found own fits ?_ ?_
  · rfl
  · rfl
  · intro h x held
    rw [grip_setTask] at held
    split at held
    · rename_i here
      rw [Option.bind_some, grip] at held
      cases held
      exact .inl ⟨here, rfl⟩
    · exact .inr held
  · intro l p mentioned
    apply mentions_of_setTask _ mentioned
    rw [Option.bind_some, mention]

theorem Sound.free_setTask {task : Task} (sound : w.Sound) (task' : Option Task)
    (running : w.tasks t = some task) (grip : task.grip = some g)
    (released : task'.bind Task.grip = none) : (w.setTask t task').Free g.lease := by
  apply sound.free_of_release (.task t)
  · simpa [World.grip, running] using grip
  · rw [grip_setTask, if_pos rfl]
    exact released
  · intro h x held
    rw [grip_setTask] at held
    split at held
    · rw [released] at held
      cases held
    · exact held

theorem Sound.free_setStore {σ l : Nat} (sound : w.Sound) (s' : WriterStore)
    (found : w.stores σ = some s) (owned : s.lease = some l) (released : s'.lease = none) :
    (w.setStore σ s').Free l := by
  have grip : w.grip (.store σ) = some ⟨l, s.process, writerStates⟩ := by
    simp [World.grip, found, WriterStore.grip, owned]
  have nothing : s'.grip = none := by
    simp [WriterStore.grip, released]
  apply sound.free_of_release (.store σ) grip
  · rw [grip_setStore, if_pos rfl]
    exact nothing
  · intro h x held
    rw [grip_setStore] at held
    split at held
    · rw [nothing] at held
      cases held
    · exact held

theorem Sound.free_of_state (sound : w.Sound) (found : w.leases l = some lease)
    (state : lease.state ∉ writerStates ∧ lease.state ∉ fencedStates) : w.Free l := by
  intro h g grip same
  obtain ⟨lease', found', -, fits⟩ := sound.held h g grip
  rw [same, found] at found'
  cases found'
  cases h with
  | store σ =>
    obtain ⟨s, -, grip⟩ := Option.bind_eq_some_iff.mp grip
    obtain ⟨l', -, rfl⟩ := Option.map_eq_some_iff.mp grip
    exact state.1 fits
  | task t =>
    obtain ⟨task, -, grip⟩ := Option.bind_eq_some_iff.mp grip
    unfold Task.grip at grip
    split at grip <;> cases grip
    · exact state.1 fits
    · exact state.1 fits
    · exact state.1 fits
    · exact state.2 fits

theorem package_of_newStore {lease lease' : ScopeWriterLease}
    (moved : lease.transfer .ownedByNewStore = .ok lease') :
    lease.state ∉ writerStates ∧ lease.state ∉ fencedStates := by
  have legal := (ScopeWriterLease.transfer_eq_ok moved).1
  revert legal
  cases lease.state <;> decide

end World

section

variable {scope : Int} {w w' : World} {r : Report}

open World

theorem sound_initial : World.initial.Sound where
  locked := by
    intro l lease found
    cases found
  held := by
    intro h g grip
    cases h <;> cases grip
  unique := by
    intro h h' g g' grip
    cases h <;> cases grip
  known := by
    intro l p mention
    rcases mention with ⟨t, task, found, -⟩ | ⟨g, package, found, -⟩ <;> cases found

theorem World.Sound.step (sound : w.Sound) (h : Step scope w w' r) : w'.Sound := by
  cases h with
  | refused => exact sound
  | genesis absent => exact sound.setStore _ _ (.inl rfl)
  | carry free alive found own carried known =>
    apply sound.setTask _ _ (.inl rfl)
    intro l' p' mention
    cases mention
    apply sound.known
    refine .inr ⟨_, _, found, ?_⟩
    rw [Package.mention, carried, ← own]
    rfl
  | @acquire t p l phase free alive unlocked fresh purpose =>
    obtain ⟨acquired, apart⟩ := sound.acquire scope p unlocked fresh
    have found : (w.acquire scope l p).leases l = some ⟨p, scope, .ownedByStore, true⟩ := by
      simp [World.acquire, World.setLease]
    have fits : LeaseState.ownedByStore ∈ writerStates := by decide
    rcases purpose with rfl | rfl
    · exact acquired.setTask_give ⟨l, p, writerStates⟩ apart rfl rfl found rfl fits
    · exact acquired.setTask_give ⟨l, p, writerStates⟩ apart rfl rfl found rfl fits
  | @enter t p l kind carried task unlocked =>
    apply Sound.setPublishLock
    cases carried with
    | false =>
      apply sound.setTask _ _
      · right
        simp [World.grip, task, Task.grip]
      · intro l' p' mention
        cases mention
    | true =>
      apply sound.setTask _ _ (.inl rfl)
      intro l' p' mention
      exact sound.known l' p' (.inl ⟨t, _, task, mention⟩)
  | @installFresh t p l σ kind task absent =>
    obtain ⟨lease, found, own, fits⟩ := sound.held (.task t) ⟨l, p, writerStates⟩
      (by simp [World.grip, task, Task.grip])
    have apart := sound.free_setTask (some ⟨p, .leaving (some σ)⟩) task
      (g := ⟨l, p, writerStates⟩) rfl rfl
    have left := sound.setTask_without t (some ⟨p, .leaving (some σ)⟩) rfl rfl
    exact left.setStore_paused apart found own fits
  | @installCarried t p l σ kind lease lease' task absent known moved =>
    obtain ⟨x, found, own⟩ := sound.known l p (.inl ⟨t, _, task, rfl⟩)
    rw [known] at found
    cases found
    have left := sound.setTask_without t (some ⟨p, .leaving (some σ)⟩) rfl rfl
    have apart := left.free_of_state (l := l) known (package_of_newStore moved)
    have handed := left.setLease apart known moved
    have free : ((w.setTask t (some ⟨p, .leaving (some σ)⟩)).setLease l lease').Free l := by
      intro h g grip
      rw [grip_setLease] at grip
      exact apart h g grip
    have state := (ScopeWriterLease.transfer_eq_ok moved).2
    refine handed.setStore_paused free (update_self ..) ?_ ?_
    · rw [state]
      exact own
    · rw [state]
      exact List.mem_cons_of_mem _ List.mem_cons_self
  | withdraw task => exact sound.setTask_without _ _ rfl rfl
  | abort task => exact (sound.closeLease _).setTask_without _ _ rfl rfl
  | @leave t p built task =>
    apply Sound.setPublishLock
    cases built with
    | none => exact sound.setTask_without _ _ rfl rfl
    | some σ => exact sound.setTask_without _ _ rfl rfl
  | start task found paused =>
    exact (sound.setTask_without _ _ rfl rfl).setStore_same _ found rfl rfl
  | startFails task found paused =>
    exact ((sound.closeCarried _).setTask_without _ _ rfl rfl).setStore _ _ (.inl rfl)
  | @mount t p l σ task absent =>
    obtain ⟨lease, found, own, fits⟩ := sound.held (.task t) ⟨l, p, writerStates⟩
      (by simp [World.grip, task, Task.grip])
    have apart := sound.free_setTask (some ⟨p, .starting σ⟩) task
      (g := ⟨l, p, writerStates⟩) rfl rfl
    have left := sound.setTask_without t (some ⟨p, .starting σ⟩) rfl rfl
    exact left.setStore_paused apart found own fits
  | abandon task => exact (sound.closeLease _).setTask_without _ _ rfl rfl
  | shut free found own purpose =>
    have stopped := sound.setStore_same (WriterStore.halt _) found rfl rfl
    rcases purpose with rfl | ⟨kind, rfl⟩
    · exact stopped.setTask_without _ (some ⟨_, .closing _⟩) rfl rfl
    · exact stopped.setTask_without _ (some ⟨_, .fencing kind _⟩) rfl rfl
  | closed task found joined =>
    exact ((sound.closeCarried _).setTask_without _ _ rfl rfl).setStore _ _ (.inl rfl)
  | fencedFree task found joined without => exact sound.setTask_without _ _ rfl rfl
  | @fenced t p σ l kind s lease lease' task found joined own owned known moved =>
    obtain ⟨x, found', process, -⟩ := sound.held (.store σ) ⟨l, s.process, writerStates⟩
      (by simp [World.grip, found, WriterStore.grip, owned])
    rw [known] at found'
    cases found'
    have detached := sound.setStore σ s.detach (.inl rfl)
    have apart := sound.free_setStore s.detach found owned rfl
    have handed := detached.setLease apart known moved
    have free : ((w.setStore σ s.detach).setLease l lease').Free l := by
      intro h g grip
      rw [grip_setLease] at grip
      exact apart h g grip
    have state := (ScopeWriterLease.transfer_eq_ok moved).2
    refine handed.setTask_give ⟨l, p, fencedStates⟩ free rfl rfl (update_self ..) ?_ ?_
    · rw [state]
      exact process.trans own
    · rw [state]
      cases kind <;> simp [PackageKind.fenced, fencedStates]
  | fenceFails task found joined owned =>
    exact (sound.setStore _ _ (.inl rfl)).setTask_without _ _ rfl rfl
  | gaveUp task => exact (sound.closeCarried _).setTask_without _ _ rfl rfl
  | handFree task => exact sound.setTask_without _ _ rfl rfl
  | @hand t p l kind lease lease' task known moved =>
    have grip : w.grip (.task t) = some ⟨l, p, fencedStates⟩ := by
      simp [World.grip, task, Task.grip]
    obtain ⟨x, found, own, -⟩ := sound.held (.task t) _ grip
    have apart := sound.free_setTask (some ⟨p, .registering kind (some l)⟩) task
      (g := ⟨l, p, fencedStates⟩) rfl rfl
    have left := sound.setTask t (some ⟨p, .registering kind (some l)⟩) (.inl rfl)
      (by
        intro l' p' mention
        cases mention
        exact ⟨x, found, own⟩)
    exact left.setLease apart known moved
  | handFails task => exact sound.setTask_without _ _ rfl rfl
  | @registered t p g kind lease task absent =>
    apply (sound.setTask_without t none rfl rfl).setPackage
    intro l carried
    apply sound.known
    rw [carried] at task
    exact .inl ⟨t, _, task, rfl⟩
  | unregistered task => exact (sound.closeCarried _).setTask_without _ _ rfl rfl
  | escaped running outside => exact sound.setTask_without _ _ rfl rfl
  | offered found idle => exact sound.setStore_same _ found rfl rfl
  | locked found offering unlocked =>
    apply Sound.setPublishLock
    exact sound.setStore_same _ found rfl rfl
  | authorized found deciding accepted => exact sound.setStore_same _ found rfl rfl
  | wrote found writing =>
    apply Sound.setPublishLock
    exact sound.setStore_same _ found rfl rfl
  | skipped found deciding =>
    apply Sound.setPublishLock
    exact sound.setStore_same _ found rfl rfl
  | poisoned found started outside plain => exact sound.setStore_same _ found rfl rfl
  | poisonedInside found inside plain =>
    apply Sound.setPublishLock
    exact sound.setStore_same _ found rfl rfl
  | released found poisoning => exact (sound.closeCarried _).setStore _ _ (.inl rfl)
  | finished found idle => exact sound.setStore_same _ found rfl rfl
  | died => exact sound.die _

end

end ProofRay.Engine.Writers
