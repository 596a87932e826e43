/- The writer lease of a scope and everything that moves it, one atomic step at a time. -/

import ProofRay.Engine.Publication
import ProofRay.Lib.Machine

namespace ProofRay.Engine.Writers

open Lib (Machine)

/-- `_LEASE_TRANSITIONS`: where a transfer may go; closing is apart. -/
def transitions : LeaseState → List LeaseState
  | .ownedByStore => [.ownedByRotation, .ownedByCompaction]
  | .ownedByNewStore => [.ownedByRotation, .ownedByCompaction]
  | .ownedByRotation => [.ownedByPrepared]
  | .ownedByPrepared => [.ownedByNewStore]
  | .ownedByCompaction => [.ownedByCompactionPrepared]
  | .ownedByCompactionPrepared => [.ownedByNewStore]
  | .closed => []

structure ScopeWriterLease where
  process : Nat
  scopeId : Int
  state : LeaseState
  fdOpen : Bool
  deriving DecidableEq, Repr

namespace ScopeWriterLease

def held (lease : ScopeWriterLease) : Bool := lease.state ≠ .closed

/-- `transfer` to a state other than `CLOSED`. -/
def transfer (lease : ScopeWriterLease) (next : LeaseState) : Except PyError ScopeWriterLease :=
  if next ∈ transitions lease.state then .ok { lease with state := next }
  else .error (.walError s!"transição de lease ilegal: {lease.state.name} → {next.name}")

variable {lease lease' : ScopeWriterLease} {next : LeaseState}

theorem transfer_eq_ok (h : lease.transfer next = .ok lease') :
    next ∈ transitions lease.state ∧ lease' = { lease with state := next } := by
  unfold transfer at h
  split at h
  · rename_i legal
    cases h
    exact ⟨legal, rfl⟩
  · cases h

/-- `CLOSED` is terminal. -/
theorem open_of_transfer (h : lease.transfer next = .ok lease') : lease.state ≠ .closed := by
  intro closed
  have legal := (transfer_eq_ok h).1
  rw [closed] at legal
  cases legal

/-- What `close` leaves of the lease; the lock it frees is the world's. -/
def close (lease : ScopeWriterLease) : ScopeWriterLease :=
  { lease with state := .closed, fdOpen := false }

def authority (lease : ScopeWriterLease) : Lease where
  isSealed := true
  held := lease.held
  fdOpen := lease.fdOpen
  scopeId := lease.scopeId
  state := lease.state

end ScopeWriterLease

/-- The two kinds of packages that carry a lease from a fenced store to its successor. -/
inductive PackageKind where
  | rotation
  | compaction
  deriving DecidableEq, Repr

def PackageKind.fenced : PackageKind → LeaseState
  | .rotation => .ownedByRotation
  | .compaction => .ownedByCompaction

def PackageKind.prepared : PackageKind → LeaseState
  | .rotation => .ownedByPrepared
  | .compaction => .ownedByCompactionPrepared

def PackageKind.checkCarried (kind : PackageKind) (scope : Int) (carried : ScopeWriterLease) :
    Option String :=
  if ¬ carried.held then some "lease inválido no pacote"
  else if carried.state ≠ kind.prepared then
    some s!"lease carregado não está {kind.prepared.name}"
  else if carried.scopeId ≠ scope then some "lease carregado é de outro scope"
  else none

/-- A sealed package, as far as its lease goes. -/
structure Package where
  process : Nat
  kind : PackageKind
  lease : Option Nat
  deriving DecidableEq, Repr

/-- Where the worker of a store stands. A publication is `offering` from the call of
`publish_batch` on, `deciding` once it holds `publish.lock`, and `writing` once its authority has
been accepted; each carries the lease that was read at the call. -/
inductive Worker where
  | unstarted
  | idle
  | offering (authority : Option Nat)
  | deciding (authority : Option Nat)
  | writing (authority : Option Nat)
  | poisoning
  | ended
  deriving DecidableEq, Repr

def Worker.authority : Worker → Option (Option Nat)
  | .offering authority => some authority
  | .deciding authority => some authority
  | .writing authority => some authority
  | _ => none

/-- The worker holds `publish.lock`. -/
def Worker.locked : Worker → Bool
  | .deciding _ => true
  | .writing _ => true
  | _ => false

/-- A `GroupCommitStore`; `published` tells whether it has a publication context. -/
structure WriterStore where
  process : Nat
  published : Bool
  lease : Option Nat
  worker : Worker
  poisoned : Bool
  stop : Bool
  deriving DecidableEq, Repr

def WriterStore.paused (process lease : Nat) : WriterStore :=
  ⟨process, true, some lease, .unstarted, false, false⟩

def WriterStore.genesis (process : Nat) : WriterStore :=
  ⟨process, false, none, .idle, false, false⟩

def WriterStore.started (s : WriterStore) : Bool := s.worker ≠ .unstarted

/-- The store without its lease: `detach_writer_lease`, and the first half of a release. -/
def WriterStore.detach (s : WriterStore) : WriterStore :=
  { s with lease := none }

/-- `_stop` is set. -/
def WriterStore.halt (s : WriterStore) : WriterStore :=
  { s with stop := true }

def WriterStore.poison (s : WriterStore) : WriterStore :=
  { s with worker := .poisoning, poisoned := true, stop := true }

/-- What a thread is in the middle of. -/
inductive Phase where
  /-- the lease is in hand, `publish.lock` is not; `carried` when it came in the package -/
  | activating (kind : PackageKind) (lease : Nat) (carried : Bool)
  /-- under `publish.lock` -/
  | installing (kind : PackageKind) (lease : Nat) (carried : Bool)
  /-- the outcome under `publish.lock` is settled, the lock not released yet -/
  | leaving (built : Option Nat)
  | starting (store : Nat)
  | resuming (lease : Nat)
  | closing (store : Nat)
  | fencing (kind : PackageKind) (store : Nat)
  | preparing (kind : PackageKind) (lease : Option Nat)
  /-- the lease is in its package state, the package not registered yet -/
  | registering (kind : PackageKind) (lease : Option Nat)
  deriving DecidableEq, Repr

/-- The phases that hold `publish.lock`. -/
def Phase.inside : Phase → Bool
  | .installing _ _ _ => true
  | .leaving _ => true
  | _ => false

structure Task where
  process : Nat
  phase : Phase
  deriving DecidableEq, Repr

/-- Who can hold `publish.lock`. -/
inductive Actor where
  | task (thread : Nat)
  | worker (store : Nat)
  deriving DecidableEq, Repr

structure World where
  alive : Nat → Bool
  leases : Nat → Option ScopeWriterLease
  /-- the lease whose descriptor holds the `flock` on `.writer.lock` -/
  writerLock : Option Nat
  publishLock : Option Actor
  stores : Nat → Option WriterStore
  packages : Nat → Option Package
  tasks : Nat → Option Task

namespace World

def initial : World where
  alive := fun _ => true
  leases := fun _ => none
  writerLock := none
  publishLock := none
  stores := fun _ => none
  packages := fun _ => none
  tasks := fun _ => none

def setTask (w : World) (t : Nat) (task : Option Task) : World :=
  { w with tasks := Function.update w.tasks t task }

def setStore (w : World) (σ : Nat) (s : WriterStore) : World :=
  { w with stores := Function.update w.stores σ (some s) }

def setLease (w : World) (l : Nat) (lease : ScopeWriterLease) : World :=
  { w with leases := Function.update w.leases l (some lease) }

def setPackage (w : World) (g : Nat) (package : Package) : World :=
  { w with packages := Function.update w.packages g (some package) }

def setPublishLock (w : World) (holder : Option Actor) : World :=
  { w with publishLock := holder }

/-- `acquire` on a free lock. -/
def acquire (w : World) (scope : Int) (l process : Nat) : World :=
  { w.setLease l ⟨process, scope, .ownedByStore, true⟩ with writerLock := some l }

/-- `close` of a lease: it is released once, whoever closes it. -/
def closeLease (w : World) (l : Nat) : World :=
  match w.leases l with
  | none => w
  | some lease =>
    { w.setLease l lease.close with
      writerLock := if w.writerLock = some l then none else w.writerLock }

/-- The `close` of a lease that may be absent. -/
def closeCarried (w : World) : Option Nat → World
  | none => w
  | some l => w.closeLease l

def authority (w : World) (lease : Option Nat) : Option Lease :=
  (lease.bind w.leases).map ScopeWriterLease.authority

/-- `_check_authority` for a batch. -/
def checkBatch (w : World) (scope : Int) (lease : Option Nat) : Option String :=
  checkAuthority (w.authority lease) .batch (some scope)

def processOf (w : World) : Actor → Option Nat
  | .task t => (w.tasks t).map Task.process
  | .worker σ => (w.stores σ).map WriterStore.process

/-- The death of a process: the system closes its descriptors, and with them its locks; its
threads are gone. -/
def die (w : World) (p : Nat) : World where
  alive := Function.update w.alive p false
  leases l := (w.leases l).map fun lease =>
    if lease.process = p then lease.close else lease
  writerLock := w.writerLock.filter fun l => (w.leases l).map ScopeWriterLease.process ≠ some p
  publishLock := w.publishLock.filter fun holder => w.processOf holder ≠ some p
  stores σ := (w.stores σ).map fun s => if s.process = p then { s with worker := .ended } else s
  packages := w.packages
  tasks t := (w.tasks t).filter fun task => task.process ≠ p

end World

/-- The atomic steps. What the code decides on the disk (the proof, `CURRENT`, the active file) is
left to the schedule: `abort`, `abandon` and `fail` may come whatever the disk holds. -/
inductive Event where
  | genesis (process store : Nat)
  | activate (thread process package lease : Nat)
  | enter (thread : Nat)
  | install (thread store : Nat)
  | abort (thread : Nat) (reason : String)
  | leave (thread : Nat)
  | start (thread : Nat) (started : Bool)
  | resume (thread process lease : Nat)
  | mount (thread store : Nat)
  | abandon (thread : Nat) (reason : String)
  | close (thread process store : Nat)
  | fence (thread process store : Nat) (kind : PackageKind) (emptyAndIdle : Bool)
  | join (thread : Nat)
  | fail (thread : Nat) (reason : String)
  | hand (thread : Nat)
  | register (thread package : Nat) (registered : Bool)
  | escape (thread : Nat)
  | publish (store : Nat)
  | lock (store : Nat)
  | authorize (store : Nat)
  | write (store : Nat)
  | already (store : Nat)
  | poison (store : Nat)
  | release (store : Nat)
  | finish (store : Nat)
  | die (process : Nat)
  deriving DecidableEq, Repr

inductive Report where
  | quiet
  /-- refused before any lease moved -/
  | refused (reason : String)
  /-- an exception that leaves the lease as it is -/
  | raised
  /-- the fence is done; the lease it detached, if the store had one -/
  | fenced (kind : PackageKind) (lease : Option Nat)
  | prepared (package : Nat)
  | activated (store : Nat) (lease : Option Nat)
  /-- a preparation or an activation that ends without its result, and the lease it had -/
  | failed (lease : Option Nat) (reason : String)
  /-- the preparation fails because its package could not be registered -/
  | unregistered (lease : Option Nat)
  | published (store : Nat)
  | closed (store : Nat)
  | poisoned (store : Nat)
  | died (process : Nat)
  deriving DecidableEq, Repr

section

variable (scope : Int) (w : World)

/-- `activate_prepared` and `activate_compacted` up to the lease. -/
def activate (t p g l : Nat) : Option (World × Report) :=
  match w.tasks t, w.packages g with
  | none, some package =>
    if w.alive p = true ∧ package.process = p then
      match package.lease with
      | some carried =>
        match w.leases carried with
        | none => none
        | some lease =>
          match package.kind.checkCarried scope lease with
          | some why => some (w, .refused why)
          | none => some (w.setTask t (some ⟨p, .activating package.kind carried true⟩), .quiet)
      | none =>
        match package.kind with
        | .compaction => some (w, .refused "pacote de compaction sem lease")
        | .rotation =>
          if w.writerLock ≠ none then some (w, .refused "outro writer ativo no scope")
          else if w.leases l = none then
            some ((w.acquire scope l p).setTask t (some ⟨p, .activating .rotation l false⟩), .quiet)
          else none
    else none
  | _, _ => none

/-- The end of an activation under `publish.lock`: the store is built and takes the lease. -/
def install (t σ : Nat) : Option (World × Report) :=
  match w.tasks t, w.stores σ with
  | some ⟨p, .installing _ l carried⟩, none =>
    if carried then
      match w.leases l with
      | none => none
      | some lease =>
        match lease.transfer .ownedByNewStore with
        | .error _ => some (w.setTask t (some ⟨p, .leaving none⟩), .raised)
        | .ok lease' =>
          some (((w.setTask t (some ⟨p, .leaving (some σ)⟩)).setLease l lease').setStore σ
            (.paused p l), .quiet)
    else some ((w.setTask t (some ⟨p, .leaving (some σ)⟩)).setStore σ (.paused p l), .quiet)
  | _, _ => none

def start (t : Nat) (started : Bool) : Option (World × Report) :=
  match w.tasks t with
  | some ⟨_, .starting σ⟩ =>
    match w.stores σ with
    | none => none
    | some s =>
      if s.started then none
      else if started then
        some ((w.setTask t none).setStore σ { s with worker := .idle }, .activated σ s.lease)
      else
        some (((w.closeCarried s.lease).setTask t none).setStore σ s.detach,
          .failed s.lease "falha ao iniciar o worker")
  | _ => none

/-- `resume_from_recovery` up to the lease. -/
def resume (t p l : Nat) : Option (World × Report) :=
  if w.tasks t = none ∧ w.alive p = true then
    if w.writerLock ≠ none then some (w, .refused "outro writer ativo no scope")
    else if w.leases l = none then
      some ((w.acquire scope l p).setTask t (some ⟨p, .resuming l⟩), .quiet)
    else none
  else none

/-- `begin_rotation` and `begin_compaction` up to the join. -/
def fence (t p σ : Nat) (kind : PackageKind) (emptyAndIdle : Bool) : Option (World × Report) :=
  match w.tasks t, w.stores σ with
  | none, some s =>
    if w.alive p = true ∧ s.process = p ∧ s.started then
      if s.poisoned then some (w, .refused "writer POISONED")
      else if kind = .rotation ∧ emptyAndIdle then some (w, .refused "sem registros novos")
      else some ((w.setStore σ s.halt).setTask t (some ⟨p, .fencing kind σ⟩), .quiet)
    else none
  | _, _ => none

/-- The worker has ended: a close releases the lease, a fence detaches and transfers it. -/
def join (t : Nat) : Option (World × Report) :=
  match w.tasks t with
  | some ⟨_, .closing σ⟩ =>
    match w.stores σ with
    | none => none
    | some s =>
      if s.worker = .ended then
        some (((w.closeCarried s.lease).setTask t none).setStore σ s.detach, .closed σ)
      else none
  | some ⟨p, .fencing kind σ⟩ =>
    match w.stores σ with
    | none => none
    | some s =>
      -- a thread only reaches the stores of its own process
      if s.worker ≠ .ended ∨ s.process ≠ p then none
      else if s.poisoned then some (w.setTask t none, .raised)
      else
        match s.lease with
        | none => some (w.setTask t (some ⟨p, .preparing kind none⟩), .fenced kind none)
        | some l =>
          match w.leases l with
          | none => none
          | some lease =>
            match lease.transfer kind.fenced with
            | .error _ =>
              some ((w.setStore σ s.detach).setTask t none, .failed (some l) "fence/dreno")
            | .ok lease' =>
              some (((w.setStore σ s.detach).setLease l lease').setTask t
                (some ⟨p, .preparing kind (some l)⟩), .fenced kind (some l))
  | _ => none

/-- The transfer of the lease into the package. A compaction has refused before when it has no
lease. -/
def hand (t : Nat) : Option (World × Report) :=
  match w.tasks t with
  | some ⟨p, .preparing .rotation none⟩ =>
    some (w.setTask t (some ⟨p, .registering .rotation none⟩), .quiet)
  | some ⟨p, .preparing kind (some l)⟩ =>
    match w.leases l with
    | none => none
    | some lease =>
      match lease.transfer kind.prepared with
      | .error _ => some (w.setTask t none, .failed (some l) "transição de lease ilegal")
      | .ok lease' =>
        some ((w.setTask t (some ⟨p, .registering kind (some l)⟩)).setLease l lease', .quiet)
  | _ => none

def register (t g : Nat) (registered : Bool) : Option (World × Report) :=
  match w.tasks t with
  | some ⟨p, .registering kind lease⟩ =>
    if registered then
      if w.packages g = none then
        some ((w.setTask t none).setPackage g ⟨p, kind, lease⟩, .prepared g)
      else none
    else some ((w.closeCarried lease).setTask t none, .unregistered lease)
  | _ => none

/-- An exception, a timeout included: it releases `publish.lock` and no lease. -/
def escape (t : Nat) : Option (World × Report) :=
  match w.tasks t with
  | some ⟨p, .installing _ _ _⟩ => some (w.setTask t (some ⟨p, .leaving none⟩), .raised)
  | some ⟨_, .leaving _⟩ => none
  | some ⟨_, .starting _⟩ => none
  | some _ => some (w.setTask t none, .raised)
  | none => none

/-- `publish_batch` up to `publish.lock`; a refused batch poisons its store. -/
def publish (σ : Nat) : Option (World × Report) :=
  match w.stores σ with
  | some s =>
    if s.worker = .idle ∧ s.published = true then
      match w.checkBatch scope s.lease with
      | none => some (w.setStore σ { s with worker := .offering s.lease }, .quiet)
      | some why => some (w.setStore σ s.poison, .refused why)
    else none
  | none => none

/-- The authority is looked at again under `publish.lock`. -/
def authorize (σ : Nat) : Option (World × Report) :=
  match w.stores σ with
  | some s =>
    match s.worker with
    | .deciding authority =>
      match w.checkBatch scope authority with
      | none => some (w.setStore σ { s with worker := .writing authority }, .quiet)
      | some why => some ((w.setStore σ s.poison).setPublishLock none, .refused why)
    | _ => none
  | none => none

def poison (σ : Nat) : Option (World × Report) :=
  match w.stores σ with
  | some s =>
    match s.worker with
    | .idle => some (w.setStore σ s.poison, .quiet)
    | .offering _ => some (w.setStore σ s.poison, .quiet)
    | .deciding _ => some ((w.setStore σ s.poison).setPublishLock none, .quiet)
    | .writing _ => some ((w.setStore σ s.poison).setPublishLock none, .quiet)
    | _ => none
  | none => none

def step : Event → Option (World × Report)
  | .genesis p σ =>
    if w.alive p = true ∧ w.stores σ = none then some (w.setStore σ (.genesis p), .quiet) else none
  | .activate t p g l => activate scope w t p g l
  | .enter t =>
    match w.tasks t with
    | some ⟨p, .activating kind l carried⟩ =>
      if w.publishLock = none then
        some ((w.setTask t (some ⟨p, .installing kind l carried⟩)).setPublishLock
          (some (.task t)), .quiet)
      else none
    | _ => none
  | .install t σ => install w t σ
  | .abort t reason =>
    match w.tasks t with
    | some ⟨p, .installing _ l _⟩ =>
      some ((w.closeLease l).setTask t (some ⟨p, .leaving none⟩), .failed (some l) reason)
    | _ => none
  | .leave t =>
    match w.tasks t with
    | some ⟨p, .leaving built⟩ =>
      some ((w.setTask t (built.map fun σ => ⟨p, .starting σ⟩)).setPublishLock none, .quiet)
    | _ => none
  | .start t started => start w t started
  | .resume t p l => resume scope w t p l
  | .mount t σ =>
    match w.tasks t, w.stores σ with
    | some ⟨p, .resuming l⟩, none =>
      some ((w.setTask t (some ⟨p, .starting σ⟩)).setStore σ (.paused p l), .quiet)
    | _, _ => none
  | .abandon t reason =>
    match w.tasks t with
    | some ⟨_, .resuming l⟩ => some ((w.closeLease l).setTask t none, .failed (some l) reason)
    | _ => none
  | .close t p σ =>
    match w.tasks t, w.stores σ with
    | none, some s =>
      if w.alive p = true ∧ s.process = p ∧ s.started then
        some ((w.setStore σ s.halt).setTask t (some ⟨p, .closing σ⟩), .quiet)
      else none
    | _, _ => none
  | .fence t p σ kind emptyAndIdle => fence w t p σ kind emptyAndIdle
  | .join t => join w t
  | .fail t reason =>
    match w.tasks t with
    | some ⟨_, .preparing _ lease⟩ =>
      some ((w.closeCarried lease).setTask t none, .failed lease reason)
    | _ => none
  | .hand t => hand w t
  | .register t g registered => register w t g registered
  | .escape t => escape w t
  | .publish σ => publish scope w σ
  | .lock σ =>
    match w.stores σ with
    | some s =>
      match s.worker with
      | .offering authority =>
        if w.publishLock = none then
          some ((w.setStore σ { s with worker := .deciding authority }).setPublishLock
            (some (.worker σ)), .quiet)
        else none
      | _ => none
    | none => none
  | .authorize σ => authorize scope w σ
  | .write σ =>
    match w.stores σ with
    | some s =>
      match s.worker with
      | .writing _ =>
        some ((w.setStore σ { s with worker := .idle }).setPublishLock none, .published σ)
      | _ => none
    | none => none
  | .already σ =>
    match w.stores σ with
    | some s =>
      match s.worker with
      | .deciding _ =>
        -- `ALREADY_PUBLISHED` comes before the authority is asked for and writes nothing
        some ((w.setStore σ { s with worker := .idle }).setPublishLock none, .quiet)
      | _ => none
    | none => none
  | .poison σ => poison w σ
  | .release σ =>
    match w.stores σ with
    | some s =>
      if s.worker = .poisoning then
        some ((w.closeCarried s.lease).setStore σ { s with lease := none, worker := .ended },
          .poisoned σ)
      else none
    | none => none
  | .finish σ =>
    match w.stores σ with
    | some s =>
      if s.worker = .idle then some (w.setStore σ { s with worker := .ended }, .quiet) else none
    | none => none
  | .die p => if w.alive p = true then some (w.die p, .died p) else none

end

def machine (scope : Int) : Machine World Event Report := ⟨step scope⟩

end ProofRay.Engine.Writers
