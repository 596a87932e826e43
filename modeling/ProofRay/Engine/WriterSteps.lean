/- Everything one step of a scope can do: the inversion of the step function. -/

import ProofRay.Engine.WriterLease

namespace ProofRay.Engine.Writers

/-- Everything a step can do. -/
inductive Step (scope : Int) (w : World) : World → Report → Prop where
  | refused {why : String} : Step scope w w (.refused why)
  | genesis {p σ : Nat} (absent : w.stores σ = none) :
      Step scope w (w.setStore σ (.genesis p)) .quiet
  | carry {t p g l : Nat} {package : Package} {lease : ScopeWriterLease} (free : w.tasks t = none)
      (alive : w.alive p = true) (found : w.packages g = some package)
      (own : package.process = p) (carried : package.lease = some l)
      (known : w.leases l = some lease) :
      Step scope w (w.setTask t (some ⟨p, .activating package.kind l true⟩)) .quiet
  | acquire {t p l : Nat} {phase : Phase} (free : w.tasks t = none) (alive : w.alive p = true)
      (unlocked : w.writerLock = none) (fresh : w.leases l = none)
      (purpose : phase = .activating .rotation l false ∨ phase = .resuming l) :
      Step scope w ((w.acquire scope l p).setTask t (some ⟨p, phase⟩)) .quiet
  | enter {t p l : Nat} {kind : PackageKind} {carried : Bool}
      (task : w.tasks t = some ⟨p, .activating kind l carried⟩) (unlocked : w.publishLock = none) :
      Step scope w ((w.setTask t (some ⟨p, .installing kind l carried⟩)).setPublishLock
        (some (.task t))) .quiet
  | installFresh {t p l σ : Nat} {kind : PackageKind}
      (task : w.tasks t = some ⟨p, .installing kind l false⟩) (absent : w.stores σ = none) :
      Step scope w ((w.setTask t (some ⟨p, .leaving (some σ)⟩)).setStore σ (.paused p l)) .quiet
  | installCarried {t p l σ : Nat} {kind : PackageKind} {lease lease' : ScopeWriterLease}
      (task : w.tasks t = some ⟨p, .installing kind l true⟩) (absent : w.stores σ = none)
      (known : w.leases l = some lease) (moved : lease.transfer .ownedByNewStore = .ok lease') :
      Step scope w (((w.setTask t (some ⟨p, .leaving (some σ)⟩)).setLease l lease').setStore σ
        (.paused p l)) .quiet
  | withdraw {t p l : Nat} {kind : PackageKind} {carried : Bool}
      (task : w.tasks t = some ⟨p, .installing kind l carried⟩) :
      Step scope w (w.setTask t (some ⟨p, .leaving none⟩)) .raised
  | abort {t p l : Nat} {kind : PackageKind} {carried : Bool} {reason : String}
      (task : w.tasks t = some ⟨p, .installing kind l carried⟩) :
      Step scope w ((w.closeLease l).setTask t (some ⟨p, .leaving none⟩)) (.failed (some l) reason)
  | leave {t p : Nat} {built : Option Nat} (task : w.tasks t = some ⟨p, .leaving built⟩) :
      Step scope w ((w.setTask t (built.map fun σ => ⟨p, .starting σ⟩)).setPublishLock none) .quiet
  | start {t p σ : Nat} {s : WriterStore} (task : w.tasks t = some ⟨p, .starting σ⟩)
      (found : w.stores σ = some s) (paused : s.worker = .unstarted) :
      Step scope w ((w.setTask t none).setStore σ { s with worker := .idle }) (.activated σ s.lease)
  | startFails {t p σ : Nat} {s : WriterStore} {reason : String}
      (task : w.tasks t = some ⟨p, .starting σ⟩) (found : w.stores σ = some s)
      (paused : s.worker = .unstarted) :
      Step scope w (((w.closeCarried s.lease).setTask t none).setStore σ s.detach)
        (.failed s.lease reason)
  | mount {t p l σ : Nat} (task : w.tasks t = some ⟨p, .resuming l⟩)
      (absent : w.stores σ = none) :
      Step scope w ((w.setTask t (some ⟨p, .starting σ⟩)).setStore σ (.paused p l)) .quiet
  | abandon {t p l : Nat} {reason : String} (task : w.tasks t = some ⟨p, .resuming l⟩) :
      Step scope w ((w.closeLease l).setTask t none) (.failed (some l) reason)
  | shut {t p σ : Nat} {s : WriterStore} {phase : Phase} (free : w.tasks t = none)
      (found : w.stores σ = some s) (own : s.process = p)
      (purpose : phase = .closing σ ∨ ∃ kind, phase = .fencing kind σ) :
      Step scope w ((w.setStore σ s.halt).setTask t (some ⟨p, phase⟩)) .quiet
  | closed {t p σ : Nat} {s : WriterStore} (task : w.tasks t = some ⟨p, .closing σ⟩)
      (found : w.stores σ = some s) (joined : s.worker = .ended) :
      Step scope w (((w.closeCarried s.lease).setTask t none).setStore σ s.detach) (.closed σ)
  | fencedFree {t p σ : Nat} {kind : PackageKind} {s : WriterStore}
      (task : w.tasks t = some ⟨p, .fencing kind σ⟩) (found : w.stores σ = some s)
      (joined : s.worker = .ended) (without : s.lease = none) :
      Step scope w (w.setTask t (some ⟨p, .preparing kind none⟩)) (.fenced kind none)
  | fenced {t p σ l : Nat} {kind : PackageKind} {s : WriterStore} {lease lease' : ScopeWriterLease}
      (task : w.tasks t = some ⟨p, .fencing kind σ⟩) (found : w.stores σ = some s)
      (joined : s.worker = .ended) (own : s.process = p) (owned : s.lease = some l)
      (known : w.leases l = some lease) (moved : lease.transfer kind.fenced = .ok lease') :
      Step scope w (((w.setStore σ s.detach).setLease l lease').setTask t
        (some ⟨p, .preparing kind (some l)⟩)) (.fenced kind (some l))
  | fenceFails {t p σ l : Nat} {kind : PackageKind} {s : WriterStore} {reason : String}
      (task : w.tasks t = some ⟨p, .fencing kind σ⟩) (found : w.stores σ = some s)
      (joined : s.worker = .ended) (owned : s.lease = some l) :
      Step scope w ((w.setStore σ s.detach).setTask t none) (.failed (some l) reason)
  | gaveUp {t p : Nat} {kind : PackageKind} {lease : Option Nat} {reason : String}
      (task : w.tasks t = some ⟨p, .preparing kind lease⟩) :
      Step scope w ((w.closeCarried lease).setTask t none) (.failed lease reason)
  | handFree {t p : Nat} (task : w.tasks t = some ⟨p, .preparing .rotation none⟩) :
      Step scope w (w.setTask t (some ⟨p, .registering .rotation none⟩)) .quiet
  | hand {t p l : Nat} {kind : PackageKind} {lease lease' : ScopeWriterLease}
      (task : w.tasks t = some ⟨p, .preparing kind (some l)⟩) (known : w.leases l = some lease)
      (moved : lease.transfer kind.prepared = .ok lease') :
      Step scope w ((w.setTask t (some ⟨p, .registering kind (some l)⟩)).setLease l lease') .quiet
  | handFails {t p l : Nat} {kind : PackageKind} {reason : String}
      (task : w.tasks t = some ⟨p, .preparing kind (some l)⟩) :
      Step scope w (w.setTask t none) (.failed (some l) reason)
  | registered {t p g : Nat} {kind : PackageKind} {lease : Option Nat}
      (task : w.tasks t = some ⟨p, .registering kind lease⟩) (absent : w.packages g = none) :
      Step scope w ((w.setTask t none).setPackage g ⟨p, kind, lease⟩) (.prepared g)
  | unregistered {t p : Nat} {kind : PackageKind} {lease : Option Nat}
      (task : w.tasks t = some ⟨p, .registering kind lease⟩) :
      Step scope w ((w.closeCarried lease).setTask t none) (.unregistered lease)
  | escaped {t : Nat} {task : Task} (running : w.tasks t = some task)
      (outside : task.phase.inside = false) :
      Step scope w (w.setTask t none) .raised
  | offered {σ : Nat} {s : WriterStore} (found : w.stores σ = some s) (idle : s.worker = .idle) :
      Step scope w (w.setStore σ { s with worker := .offering s.lease }) .quiet
  | locked {σ : Nat} {s : WriterStore} {authority : Option Nat} (found : w.stores σ = some s)
      (offering : s.worker = .offering authority) (unlocked : w.publishLock = none) :
      Step scope w ((w.setStore σ { s with worker := .deciding authority }).setPublishLock
        (some (.worker σ))) .quiet
  | authorized {σ : Nat} {s : WriterStore} {authority : Option Nat} (found : w.stores σ = some s)
      (deciding : s.worker = .deciding authority)
      (accepted : w.checkBatch scope authority = none) :
      Step scope w (w.setStore σ { s with worker := .writing authority }) .quiet
  | wrote {σ : Nat} {s : WriterStore} {authority : Option Nat} (found : w.stores σ = some s)
      (writing : s.worker = .writing authority) :
      Step scope w ((w.setStore σ { s with worker := .idle }).setPublishLock none) (.published σ)
  | skipped {σ : Nat} {s : WriterStore} {authority : Option Nat} (found : w.stores σ = some s)
      (deciding : s.worker = .deciding authority) :
      Step scope w ((w.setStore σ { s with worker := .idle }).setPublishLock none) .quiet
  | poisoned {σ : Nat} {s : WriterStore} {r : Report} (found : w.stores σ = some s)
      (started : s.started) (outside : s.worker = .idle ∨ ∃ a, s.worker = .offering a)
      (plain : r = .quiet ∨ ∃ why, r = .refused why) : Step scope w (w.setStore σ s.poison) r
  | poisonedInside {σ : Nat} {s : WriterStore} {r : Report} {authority : Option Nat}
      (found : w.stores σ = some s)
      (inside : s.worker = .deciding authority ∨ s.worker = .writing authority)
      (plain : r = .quiet ∨ ∃ why, r = .refused why) :
      Step scope w ((w.setStore σ s.poison).setPublishLock none) r
  | released {σ : Nat} {s : WriterStore} (found : w.stores σ = some s)
      (poisoning : s.worker = .poisoning) :
      Step scope w ((w.closeCarried s.lease).setStore σ { s with lease := none, worker := .ended })
        (.poisoned σ)
  | finished {σ : Nat} {s : WriterStore} (found : w.stores σ = some s) (idle : s.worker = .idle) :
      Step scope w (w.setStore σ { s with worker := .ended }) .quiet
  | died {p : Nat} : Step scope w (w.die p) (.died p)

section

variable {scope : Int} {w w' : World} {r : Report}

private theorem step_of_activate {t p g l : Nat} (h : activate scope w t p g l = some (w', r)) :
    Step scope w w' r := by
  unfold activate at h
  split at h
  · rename_i package free found
    split at h
    · rename_i own
      split at h
      · rename_i carried held
        split at h
        · cases h
        · rename_i lease known
          split at h
          · cases h
            exact .refused
          · cases h
            exact .carry free own.1 found own.2 held known
      · split at h
        · cases h
          exact .refused
        · split at h
          · cases h
            exact .refused
          · rename_i unlocked
            split at h
            · rename_i fresh
              cases h
              exact .acquire free own.1 (not_not.mp unlocked) fresh (.inl rfl)
            · cases h
    · cases h
  · cases h

private theorem step_of_install {t σ : Nat} (h : install w t σ = some (w', r)) :
    Step scope w w' r := by
  unfold install at h
  split at h
  · rename_i p kind l carried task absent
    cases carried with
    | false =>
      cases h
      exact .installFresh task absent
    | true =>
      rw [if_pos rfl] at h
      split at h
      · cases h
      · rename_i lease known
        split at h
        · cases h
          exact .withdraw task
        · rename_i lease' moved
          cases h
          exact .installCarried task absent known moved
  · cases h

variable {t : Nat} {σ : Nat}

private theorem step_of_start {started : Bool} (h : start w t started = some (w', r)) :
    Step scope w w' r := by
  unfold start at h
  split at h
  · rename_i p σ task
    split at h
    · cases h
    · rename_i s found
      split at h
      · cases h
      · rename_i waiting
        have paused : s.worker = .unstarted := by
          by_contra running
          exact waiting (by simp [WriterStore.started, running])
        split at h
        · cases h
          exact .start task found paused
        · cases h
          exact .startFails task found paused
  · cases h

private theorem step_of_resume {t p l : Nat} (h : resume scope w t p l = some (w', r)) :
    Step scope w w' r := by
  unfold resume at h
  split at h
  · rename_i own
    split at h
    · cases h
      exact .refused
    · rename_i unlocked
      split at h
      · rename_i fresh
        cases h
        exact .acquire own.1 own.2 (not_not.mp unlocked) fresh (.inr rfl)
      · cases h
  · cases h

private theorem step_of_fence {t p σ : Nat} {kind : PackageKind} {emptyAndIdle : Bool}
    (h : fence w t p σ kind emptyAndIdle = some (w', r)) : Step scope w w' r := by
  unfold fence at h
  split at h
  · rename_i s free found
    split at h
    · rename_i own
      split at h
      · cases h
        exact .refused
      · split at h
        · cases h
          exact .refused
        · cases h
          exact .shut free found own.2.1 (.inr ⟨kind, rfl⟩)
    · cases h
  · cases h

private theorem step_of_join (h : join w t = some (w', r)) : Step scope w w' r := by
  unfold join at h
  split at h
  · rename_i p σ task
    split at h
    · cases h
    · rename_i s found
      split at h
      · rename_i joined
        cases h
        exact .closed task found joined
      · cases h
  · rename_i p kind σ task
    split at h
    · cases h
    · rename_i s found
      split at h
      · cases h
      · rename_i joined
        have ended : s.worker = .ended := not_not.mp fun running => joined (.inl running)
        have own : s.process = p := not_not.mp fun apart => joined (.inr apart)
        split at h
        · cases h
          exact .escaped task rfl
        · split at h
          · rename_i without
            cases h
            exact .fencedFree task found ended without
          · rename_i l owned
            split at h
            · cases h
            · rename_i lease known
              split at h
              · cases h
                exact .fenceFails task found ended owned
              · rename_i lease' moved
                cases h
                exact .fenced task found ended own owned known moved
  · cases h

private theorem step_of_hand (h : hand w t = some (w', r)) : Step scope w w' r := by
  unfold hand at h
  split at h
  · rename_i p task
    cases h
    exact .handFree task
  · rename_i p kind l task
    split at h
    · cases h
    · rename_i lease known
      split at h
      · cases h
        exact .handFails task
      · rename_i lease' moved
        cases h
        exact .hand task known moved
  · cases h

private theorem step_of_register {t g : Nat} {registered : Bool}
    (h : register w t g registered = some (w', r)) : Step scope w w' r := by
  unfold register at h
  split at h
  · rename_i p kind lease task
    split at h
    · split at h
      · rename_i absent
        cases h
        exact .registered task absent
      · cases h
    · cases h
      exact .unregistered task
  · cases h

private theorem step_of_escape (h : escape w t = some (w', r)) : Step scope w w' r := by
  unfold escape at h
  cases running : w.tasks t with
  | none =>
    rw [running] at h
    cases h
  | some task =>
    obtain ⟨p, phase⟩ := task
    rw [running] at h
    cases phase with
    | leaving built => cases h
    | starting σ => cases h
    | installing kind l carried =>
      cases h
      exact .withdraw running
    | activating kind l carried =>
      cases h
      exact .escaped running rfl
    | resuming l =>
      cases h
      exact .escaped running rfl
    | closing σ =>
      cases h
      exact .escaped running rfl
    | fencing kind σ =>
      cases h
      exact .escaped running rfl
    | preparing kind lease =>
      cases h
      exact .escaped running rfl
    | registering kind lease =>
      cases h
      exact .escaped running rfl

private theorem step_of_worker {σ : Nat}
    (h : step scope w (.lock σ) = some (w', r) ∨ step scope w (.write σ) = some (w', r) ∨
      step scope w (.already σ) = some (w', r)) : Step scope w w' r := by
  simp only [step] at h
  cases found : w.stores σ with
  | none => simp [found] at h
  | some s =>
    simp only [found] at h
    rcases h with h | h | h
    · split at h
      · rename_i authority offering
        split at h
        · rename_i unlocked
          cases h
          exact .locked found offering unlocked
        · cases h
      · cases h
    · split at h
      · rename_i authority writing
        cases h
        exact .wrote found writing
      · cases h
    · split at h
      · rename_i authority deciding
        cases h
        exact .skipped found deciding
      · cases h

private theorem step_of_publish (h : publish scope w σ = some (w', r)) : Step scope w w' r := by
  unfold publish at h
  split at h
  · rename_i s found
    split at h
    · rename_i ready
      split at h
      · cases h
        exact .offered found ready.1
      · cases h
        refine .poisoned found ?_ (.inl ready.1) (.inr ⟨_, rfl⟩)
        simp [WriterStore.started, ready.1]
    · cases h
  · cases h

private theorem step_of_authorize (h : authorize scope w σ = some (w', r)) : Step scope w w' r := by
  unfold authorize at h
  split at h
  · rename_i s found
    split at h
    · rename_i authority deciding
      split at h
      · rename_i accepted
        cases h
        exact .authorized found deciding accepted
      · cases h
        exact .poisonedInside found (.inl deciding) (.inr ⟨_, rfl⟩)
    · cases h
  · cases h

private theorem step_of_poison (h : poison w σ = some (w', r)) : Step scope w w' r := by
  unfold poison at h
  split at h
  · rename_i s found
    split at h
    · rename_i idle
      cases h
      refine .poisoned found ?_ (.inl idle) (.inl rfl)
      simp [WriterStore.started, idle]
    · rename_i a offering
      cases h
      refine .poisoned found ?_ (.inr ⟨a, offering⟩) (.inl rfl)
      simp [WriterStore.started, offering]
    · rename_i a deciding
      cases h
      exact .poisonedInside found (.inl deciding) (.inl rfl)
    · rename_i a writing
      cases h
      exact .poisonedInside found (.inr writing) (.inl rfl)
    · cases h
  · cases h

theorem step_cases {e : Event} (h : step scope w e = some (w', r)) : Step scope w w' r := by
  cases e with
  | genesis p σ =>
    simp only [step] at h
    split at h
    · rename_i own
      cases h
      exact .genesis own.2
    · cases h
  | activate t p g l => exact step_of_activate h
  | enter t =>
    simp only [step] at h
    split at h
    · rename_i p kind l carried task
      split at h
      · rename_i unlocked
        cases h
        exact .enter task unlocked
      · cases h
    · cases h
  | install t σ => exact step_of_install h
  | abort t reason =>
    simp only [step] at h
    split at h
    · rename_i p kind l carried task
      cases h
      exact .abort task
    · cases h
  | leave t =>
    simp only [step] at h
    split at h
    · rename_i p built task
      cases h
      exact .leave task
    · cases h
  | start t started => exact step_of_start h
  | resume t p l => exact step_of_resume h
  | mount t σ =>
    simp only [step] at h
    split at h
    · rename_i p l task absent
      cases h
      exact .mount task absent
    · cases h
  | abandon t reason =>
    simp only [step] at h
    split at h
    · rename_i p l task
      cases h
      exact .abandon task
    · cases h
  | close t p σ =>
    simp only [step] at h
    split at h
    · rename_i s free found
      split at h
      · rename_i own
        cases h
        exact .shut free found own.2.1 (.inl rfl)
      · cases h
    · cases h
  | fence t p σ kind emptyAndIdle => exact step_of_fence h
  | join t => exact step_of_join h
  | fail t reason =>
    simp only [step] at h
    split at h
    · rename_i p kind lease task
      cases h
      exact .gaveUp task
    · cases h
  | hand t => exact step_of_hand h
  | register t g registered => exact step_of_register h
  | escape t => exact step_of_escape h
  | publish σ => exact step_of_publish h
  | lock σ => exact step_of_worker (.inl h)
  | authorize σ => exact step_of_authorize h
  | write σ => exact step_of_worker (.inr (.inl h))
  | already σ => exact step_of_worker (.inr (.inr h))
  | poison σ => exact step_of_poison h
  | release σ =>
    simp only [step] at h
    split at h
    · rename_i s found
      split at h
      · rename_i poisoning
        cases h
        exact .released found poisoning
      · cases h
    · cases h
  | finish σ =>
    simp only [step] at h
    split at h
    · rename_i s found
      split at h
      · rename_i idle
        cases h
        exact .finished found idle
      · cases h
    · cases h
  | die p =>
    simp only [step] at h
    split at h
    · cases h
      exact .died
    · cases h

end

end ProofRay.Engine.Writers
