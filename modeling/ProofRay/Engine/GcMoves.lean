/- The moves of the collector: what a plan lists, what the renames of a run change, and what
   the run has decided by its first one. -/

import ProofRay.Engine.Gc

namespace ProofRay.Engine

open Lib (Dict)
open Lib.Guard
open GcDisk (quarantineItems)

variable {c : Crypto} {keyring : Keyring}

private theorem hexValue_hexDigit : ∀ n < 16, hexValue (hexDigit n) = n := by decide

theorem unhexText_hexText (b : Bytes) : unhexText (hexText b) = b := by
  induction b with
  | nil => rfl
  | cons x xs ih =>
    have high : x.toNat / 16 < 16 := by
      have := x.toNat_lt
      omega
    have low : x.toNat % 16 < 16 := Nat.mod_lt _ (by decide)
    show UInt8.ofNat (hexValue (hexDigit (x.toNat / 16)) * 16 + hexValue (hexDigit (x.toNat % 16))) ::
      unhexText (hexText xs) = x :: xs
    rw [hexValue_hexDigit _ high, hexValue_hexDigit _ low, ih, Nat.div_add_mod', UInt8.ofNat_toNat]

theorem hexText_injective : Function.Injective hexText :=
  Function.LeftInverse.injective unhexText_hexText

@[simp] theorem objItem_inj {d d' : Bytes} : objItem d = objItem d' ↔ d = d' := by
  constructor
  · intro same
    exact hexText_injective (congrArg GcItem.key same)
  · rintro rfl
    rfl

theorem objItem_ne_activeItem (d : Bytes) (identity : WalIdentity) :
    objItem d ≠ activeItem identity := by
  intro same
  cases congrArg GcItem.kind same

variable {item : GcItem} {call : GcCall} {disk : GcDisk}

@[simp] theorem mem_sortItems {items : List GcItem} : item ∈ sortItems items ↔ item ∈ items := by
  rw [sortItems, List.mem_insertionSort, List.mem_dedup]

theorem mem_movable {plan : GcPlan} :
    item ∈ plan.movable ↔ item ∈ plan.unreachable ∧ item.kind = .object := by
  simp [GcPlan.movable]

variable {execution : GcExecution} {result : GcRunResult} {d : Bytes}

theorem objItem_mem_presentItems {store : ObjectStore} {walStore : WalStore} :
    objItem d ∈ presentItems store walStore ↔ ∃ blob, store.get d = some blob := by
  have active : objItem d ∉ enumerateActive walStore := by
    intro member
    obtain ⟨identity, -, same⟩ := List.mem_map.mp member
    exact objItem_ne_activeItem d identity same.symm
  have objects : objItem d ∈ enumerateObjects store ↔ d ∈ store.objects.keys := by
    simp [enumerateObjects]
  rw [presentItems, List.mem_append, objects, or_iff_left active, Dict.mem_keys_iff]
  rfl

theorem exists_objItem_of_mem_presentItems {store : ObjectStore} {walStore : WalStore}
    (present : item ∈ presentItems store walStore) (object : item.kind = .object) :
    ∃ d ∈ store.objects.keys, item = objItem d := by
  rcases List.mem_append.mp present with inObjects | inActive
  · obtain ⟨d, member, rfl⟩ := List.mem_map.mp inObjects
    exact ⟨d, member, rfl⟩
  · obtain ⟨identity, -, rfl⟩ := List.mem_map.mp inActive
    cases object

def ObjectStore.Named (store : ObjectStore) : Prop := ∀ d ∈ store.objects.keys, d.length = 32

section

variable {store : ObjectStore} {walStore : WalStore} {roots : GcRoots} {limits : GcLimits}
  {plan : GcPlan}

theorem planReachability_cases
    (decided : planReachability c keyring store walStore roots limits = .ok plan) :
    (∃ closures, reachAll c keyring store walStore limits roots.allPublicationDigests
        limits.maxTraversalNodes = .ok closures ∧ plan.state = .planned ∧
      plan.reachable = (presentItems store walStore).filter (fun item =>
        item ∈ roots.reachable closures) ∧
      plan.unreachable = (presentItems store walStore).filter fun item =>
        item ∉ roots.reachable closures) ∨
    (∃ state reason, reachAll c keyring store walStore limits roots.allPublicationDigests
        limits.maxTraversalNodes = .error (.abort state reason) ∧
      plan = .aborted state reason) := by
  unfold planReachability at decided
  split at decided
  · cases decided
  · rename_i state reason stopped
    cases decided
    exact .inr ⟨state, reason, stopped, rfl⟩
  · rename_i closures reached
    obtain ⟨planDigest, -, made⟩ := bind_eq_ok.mp decided
    cases made
    exact .inl ⟨closures, reached, rfl, rfl, rfl⟩

variable {state : GcState} {reason : String}

private theorem reachSegments_abort {scopeId : Int} {ss : List WalSegmentDescriptor}
    (stopped : reachSegments scopeId ss = .error (.abort state reason)) : state ≠ .planned := by
  induction ss with
  | nil => cases stopped
  | cons s ss ih =>
    unfold reachSegments at stopped
    split at stopped
    · split at stopped
      · cases stopped
        decide
      · simp only [bind_eq_error, pure_ne_error, and_false, exists_false, or_false] at stopped
        exact ih stopped
    · split at stopped
      · simp only [bind_eq_error, pure_ne_error, and_false, exists_false, or_false] at stopped
        exact ih stopped
      · cases stopped
        decide

theorem reachFromPublication_abort {pub : Bytes} {state : GcState} {reason : String}
    (stopped : reachFromPublication c keyring store walStore limits pub =
      .error (.abort state reason)) : state ≠ .planned := by
  unfold reachFromPublication at stopped
  simp only [bind_eq_error, mapError_eq_error, require_eq_error, pure_ne_error, and_false,
    exists_false, or_false] at stopped
  rcases stopped with ⟨_, _, same⟩ | ⟨_, _, ⟨_, _, same⟩ | ⟨record, _, ⟨_, _, same⟩ | ⟨_, _,
    ⟨_, same⟩ | ⟨_, _, ⟨_, _, same⟩ | ⟨_, _, ⟨failure, _, same⟩ | ⟨_, _, ⟨_, same⟩ |
    ⟨_, _, segments⟩⟩⟩⟩⟩⟩⟩
  · cases same
    decide
  · cases same
    decide
  · cases same
    decide
  · cases same
    decide
  · cases same
    decide
  · cases failure with
    | raised e => cases same
    | state s why =>
      cases same
      decide
  · cases same
    decide
  · exact reachSegments_abort segments

variable {pubs : List Bytes} {budget : Int}

theorem reachAll_abort
    (stopped : reachAll c keyring store walStore limits pubs budget = .error (.abort state reason))
    : state ≠ .planned := by
  induction pubs generalizing budget with
  | nil => cases stopped
  | cons pub pubs ih =>
    simp only [reachAll, bind_eq_error, require_eq_error, pure_ne_error, and_false, exists_false,
      or_false] at stopped
    rcases stopped with ⟨-, same⟩ | ⟨-, -, closure | ⟨-, -, rest⟩⟩
    · cases same
      decide
    · exact reachFromPublication_abort closure
    · exact ih rest

theorem closure_of_reachAll {closures : List GcItem}
    (reached : reachAll c keyring store walStore limits pubs budget = .ok closures) :
    ∀ pub ∈ pubs, ∃ closure, reachFromPublication c keyring store walStore limits pub =
      .ok closure ∧ closure ⊆ closures := by
  induction pubs generalizing budget closures with
  | nil => simp
  | cons pub pubs ih =>
    simp only [reachAll, bind_eq_ok, pure_eq_ok] at reached
    obtain ⟨-, -, closure, first, rest, others, rfl⟩ := reached
    intro pub' member
    rcases List.mem_cons.mp member with rfl | later
    · exact ⟨closure, first, List.subset_append_left closure rest⟩
    · obtain ⟨closure', opened, inside⟩ := ih others pub' later
      exact ⟨closure', opened, fun item here => List.mem_append_right closure (inside here)⟩

end

/-- The effect of a series of renames into quarantine. -/
structure Quarantined (disk final : GcDisk) (moved : List GcItem) : Prop where
  objects : ∀ d, final.objects.get d = if objItem d ∈ moved then none else disk.objects.get d
  quarantine : ∀ d, final.quarantine.get d =
    if objItem d ∈ moved then (disk.objects.get d).or (disk.quarantine.get d)
    else disk.quarantine.get d
  active : final.active = disk.active
  scopes : final.scopes = disk.scopes
  journals : final.journals = disk.journals
  legacyJournal : final.legacyJournal = disk.legacyJournal

theorem Quarantined.refl (disk : GcDisk) : Quarantined disk disk [] := by
  constructor <;> simp

theorem Quarantined.cons {disk mid final : GcDisk} {moved : List GcItem}
    (first : Quarantined disk mid [item]) (rest : Quarantined mid final moved) :
    Quarantined disk final (item :: moved) := by
  constructor
  · intro d
    rw [rest.objects, first.objects]
    by_cases later : objItem d ∈ moved
    · simp [later]
    · simp [later]
  · intro d
    rw [rest.quarantine, first.objects, first.quarantine]
    by_cases later : objItem d ∈ moved
    · by_cases here : objItem d = item <;> simp [later, here]
    · by_cases here : objItem d = item <;> simp [later, here]
  · rw [rest.active, first.active]
  · rw [rest.scopes, first.scopes]
  · rw [rest.journals, first.journals]
  · rw [rest.legacyJournal, first.legacyJournal]

theorem quarantined_of_quarantineItem {disk mid : GcDisk}
    (moved : disk.quarantineItem (objItem d) = .ok mid) : Quarantined disk mid [objItem d] := by
  have name : unhexText (objItem d).key = d := unhexText_hexText d
  obtain ⟨⟨objects, quarantine⟩, renamed, made⟩ := bind_eq_ok.mp moved
  rw [name] at renamed
  cases made
  unfold moveFile at renamed
  split at renamed
  · rename_i blob found
    cases renamed
    constructor
    · intro d'
      show (disk.objects.objects.erase d).get d' = _
      rw [Dict.get_erase]
      simp [ObjectStore.get]
    · intro d'
      show (disk.quarantine.set d blob).get d' = _
      rw [Dict.get_set]
      by_cases same : d = d'
      · subst same
        simp [ObjectStore.get, found]
      · simp [same, Ne.symm same]
    · rfl
    · rfl
    · rfl
    · rfl
  · rename_i absent
    split at renamed
    · cases renamed
      constructor
      · intro d'
        by_cases same : d' = d
        · subst same
          simpa [ObjectStore.get] using absent
        · simp [ObjectStore.get, same]
      · intro d'
        by_cases same : d' = d
        · subst same
          simp [ObjectStore.get, absent]
        · simp [same]
      · rfl
      · rfl
      · rfl
      · rfl
    · cases renamed

theorem quarantineItem_of_present {d blob : Bytes} (present : disk.objects.get d = some blob) :
    ∃ mid, disk.quarantineItem (objItem d) = .ok mid := by
  have name : unhexText (objItem d).key = d := unhexText_hexText d
  have found : disk.objects.objects.get d = some blob := present
  simp [GcDisk.quarantineItem, name, moveFile, found]

/-- The renames that take place when the loop stands at `idx`. -/
def renamed (renameFault : Option (Nat × String)) (idx : Nat) (items : List GcItem) : List GcItem :=
  match renameFault with
  | none => items
  | some (refused, _) => items.take (refused - idx)

section

variable (renameFault : Option (Nat × String)) {items : List GcItem} (idx : Nat)

theorem quarantined_of_quarantineItems (disk : GcDisk)
    (objects : ∀ item ∈ items, ∃ d, item = objItem d) :
    Quarantined disk (quarantineItems renameFault items idx disk).1
      (quarantineItems renameFault items idx disk).2.1 := by
  induction items generalizing idx disk with
  | nil => exact Quarantined.refl disk
  | cons item items ih =>
    obtain ⟨⟨d, rfl⟩, rest⟩ := List.forall_mem_cons.mp objects
    have go (mid : GcDisk) (moved : disk.quarantineItem (objItem d) = .ok mid) :
        Quarantined disk (quarantineItems renameFault items (idx + 1) mid).1
          (objItem d :: (quarantineItems renameFault items (idx + 1) mid).2.1) :=
      (quarantined_of_quarantineItem moved).cons (ih (idx + 1) mid rest)
    cases renameFault with
    | none =>
      cases moved : disk.quarantineItem (objItem d) with
      | error reason => simpa [quarantineItems, moved] using Quarantined.refl disk
      | ok mid => simpa [quarantineItems, moved] using go mid moved
    | some fault =>
      by_cases refused : fault.1 = idx
      · simpa [quarantineItems, refused] using Quarantined.refl disk
      · cases moved : disk.quarantineItem (objItem d) with
        | error reason => simpa [quarantineItems, refused, moved] using Quarantined.refl disk
        | ok mid => simpa [quarantineItems, refused, moved] using go mid moved

theorem moved_quarantineItems (disk : GcDisk) (nodup : items.Nodup)
    (present : ∀ item ∈ items, ∃ d blob, item = objItem d ∧ disk.objects.get d = some blob)
    (ahead : ∀ fault ∈ renameFault, idx ≤ fault.1) :
    (quarantineItems renameFault items idx disk).2.1 = renamed renameFault idx items ∧
      ((quarantineItems renameFault items idx disk).2.2 = none ↔
        renamed renameFault idx items = items) := by
  induction items generalizing idx disk with
  | nil => cases renameFault <;> simp [quarantineItems, renamed]
  | cons item items ih =>
    obtain ⟨⟨d, blob, rfl, found⟩, rest⟩ := List.forall_mem_cons.mp present
    obtain ⟨fresh, nodup'⟩ := List.nodup_cons.mp nodup
    obtain ⟨mid, moved⟩ := quarantineItem_of_present found
    have effect := quarantined_of_quarantineItem moved
    have present' : ∀ item ∈ items, ∃ d blob, item = objItem d ∧ mid.objects.get d = some blob := by
      intro item member
      obtain ⟨d', blob', rfl, found'⟩ := rest item member
      refine ⟨d', blob', rfl, ?_⟩
      have other : objItem d' ≠ objItem d := by
        intro same
        rw [same] at member
        exact fresh member
      rw [effect.objects, if_neg (by simpa using other)]
      exact found'
    cases renameFault with
    | none =>
      obtain ⟨tail, done⟩ := ih (idx + 1) mid nodup' present' (by simp)
      simpa [quarantineItems, moved, renamed, tail] using done
    | some fault =>
      have first : idx ≤ fault.1 := ahead fault rfl
      by_cases refused : fault.1 = idx
      · simp [quarantineItems, renamed, refused]
      · have next : ∀ f ∈ some fault, idx + 1 ≤ f.1 := by
          rintro f ⟨⟩
          omega
        have count : fault.1 - idx = fault.1 - (idx + 1) + 1 := by omega
        obtain ⟨tail, done⟩ := ih (idx + 1) mid nodup' present' next
        simpa [quarantineItems, moved, refused, renamed, tail, count] using done

end

theorem nodup_movable (plan : GcPlan) : plan.movable.Nodup := by
  apply List.Nodup.filter
  exact (List.perm_insertionSort _ _).nodup_iff.mpr (List.nodup_dedup _)

theorem present_of_mem_movable {store : ObjectStore} {walStore : WalStore} {roots : GcRoots}
    {limits : GcLimits} {plan : GcPlan}
    (decided : planReachability c keyring store walStore roots limits = .ok plan) :
    ∀ item ∈ plan.movable, ∃ d blob, item = objItem d ∧ store.get d = some blob := by
  intro item member
  obtain ⟨listed, object⟩ := mem_movable.mp member
  rcases planReachability_cases decided with ⟨closures, -, -, -, unreachable⟩ | ⟨_, _, -, rfl⟩
  · rw [unreachable] at listed
    have present := (List.mem_filter.mp listed).1
    obtain ⟨d, inKeys, rfl⟩ := exists_objItem_of_mem_presentItems present object
    obtain ⟨blob, found⟩ := (Dict.mem_keys_iff _ d).mp inKeys
    exact ⟨d, blob, rfl, found⟩
  · cases listed

theorem length_planDigest {store : ObjectStore} {walStore : WalStore} {roots : GcRoots}
    {limits : GcLimits} {plan : GcPlan}
    (decided : planReachability c keyring store walStore roots limits = .ok plan)
    (movable : plan.movable ≠ []) : plan.planDigest.length = 32 := by
  unfold planReachability at decided
  split at decided
  · cases decided
  · cases decided
    exact absurd rfl movable
  · obtain ⟨planDigest, made, same⟩ := bind_eq_ok.mp decided
    cases same
    simp only [canonicalPlanDigest, bind_eq_ok, pure_eq_ok] at made
    obtain ⟨r, -, u, -, d, -, rfl⟩ := made
    exact c.sha256_length _

theorem get_of_publishJournalImmutable {journals journals' : Dict Bytes Bytes}
    {planDigest blob : Bytes}
    (published : publishJournalImmutable journals planDigest blob = .ok journals') :
    journals'.get planDigest = some blob := by
  unfold publishJournalImmutable at published
  split at published
  · cases published
    exact Dict.get_set_self ..
  · rename_i old found
    split at published
    · rename_i data read
      split at published
      · rename_i same
        cases published
        unfold readRecordLimited at read
        split at read
        · cases read
        · cases read
          rw [found, same]
      · cases published
    · cases published

/-- What a run has decided by its first rename. -/
structure PreparedRun (c : Crypto) (keyring : Keyring) (disk : GcDisk) (call : GcCall)
    (execution : GcExecution) (roots : GcRoots) (key blob : Bytes) : Prop where
  gathered : gatherRoots c keyring disk call.scope call.retention call.limits = .ok roots
  decided : planReachability c keyring disk.objects disk.walStore roots call.limits =
    .ok execution.plan
  planned : execution.plan.state = .planned
  movable_ne : execution.plan.movable ≠ []
  key_found : keyring.get call.journalKeyId = some key
  journal : authenticatedJournal c execution.plan.planDigest execution.plan.movable key = .ok blob
  published : publishJournalImmutable disk.journals execution.plan.planDigest blob =
    .ok execution.journals

theorem prepared_of_prepareRun (ready : prepareRun c keyring disk call = .ok execution) :
    ∃ roots key blob, PreparedRun c keyring disk call execution roots key blob := by
  unfold prepareRun at ready
  simp only [bind_eq_ok, mapError_eq_ok, require_eq_ok, orThrow_eq_ok, pure_eq_ok] at ready
  obtain ⟨roots, gathered, plan, decided, -, planned, -, -, -, -, -, movable, key, found, blob,
    journal, journals, published, rfl⟩ := ready
  exact ⟨roots, key, blob, gathered, decided, planned, movable, found, journal, published⟩

theorem state_ne_done_of_prepareRun {r : GcRunResult}
    (stopped : prepareRun c keyring disk call = .error (.answer r)) : r.state ≠ .done := by
  unfold prepareRun at stopped
  simp only [bind_eq_error, mapError_eq_error, require_eq_error, orThrow_eq_error, pure_ne_error,
    and_false, exists_false, or_false] at stopped
  rcases stopped with ⟨⟨state, why⟩, _, same⟩ | ⟨_, _, ⟨_, _, same⟩ | ⟨_, _, ⟨_, same⟩ | ⟨_, _,
    ⟨_, same⟩ | ⟨_, _, ⟨_, same⟩ | ⟨_, _, ⟨_, same⟩ | ⟨_, _, ⟨_, same⟩ | ⟨_, _, ⟨_, _, same⟩ |
    ⟨_, _, ⟨_, _, same⟩⟩⟩⟩⟩⟩⟩⟩⟩
  · cases state <;> (cases same; simp)
  · cases same
  · cases same
    simp
  · cases same
    simp
  · cases same
    simp
  · cases same
    simp
  · cases same
    simp
  · cases same
  · cases same
    simp

theorem runGc_cases {disk disk' : GcDisk} (ran : runGc c keyring disk call = .ok (disk', result)) :
    (prepareRun c keyring (disk.reap call.scope) call = .error (.answer result) ∧
      disk' = (disk.reap call.scope).reread call) ∨
    ∃ execution, prepareRun c keyring (disk.reap call.scope) call = .ok execution ∧
      executePlan call execution ((disk.reap call.scope).reread call) = (disk', result) := by
  simp only [runGc] at ran
  split at ran
  · cases ran
  · rename_i r stopped
    cases ran
    exact .inl ⟨stopped, rfl⟩
  · rename_i execution ready
    exact .inr ⟨execution, ready, Except.ok.inj ran⟩

theorem executePlan_effect {disk disk' : GcDisk} {call : GcCall} {execution : GcExecution}
    {result : GcRunResult} (ran : executePlan call execution disk = (disk', result))
    (present : ∀ item ∈ execution.plan.movable,
      ∃ d blob, item = objItem d ∧ disk.objects.get d = some blob) :
    Quarantined { disk with journals := execution.journals } disk' result.quarantined ∧
      result.quarantined = renamed call.renameFault 0 execution.plan.movable ∧
      result.plan = some execution.plan ∧
      (result.state = .done ↔
        renamed call.renameFault 0 execution.plan.movable = execution.plan.movable) := by
  have effect := quarantined_of_quarantineItems call.renameFault 0
    { disk with journals := execution.journals } fun item member =>
      (present item member).imp fun d found => found.choose_spec.1
  obtain ⟨moved, complete⟩ := moved_quarantineItems call.renameFault 0
    { disk with journals := execution.journals } (nodup_movable execution.plan) present
    fun fault _ => Nat.zero_le fault.1
  simp only [executePlan] at ran
  generalize quarantineItems call.renameFault execution.plan.movable 0
    { disk with journals := execution.journals } = loop at ran effect moved complete
  obtain ⟨final, items, failure⟩ := loop
  cases failure with
  | none =>
    cases ran
    exact ⟨effect, moved, rfl, by simpa using complete⟩
  | some why =>
    cases ran
    refine ⟨effect, moved, rfl, ?_⟩
    simpa using complete

end ProofRay.Engine
