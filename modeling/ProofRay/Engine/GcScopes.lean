/- Collection in a root that several scopes share: the roots are those of one scope, the
   candidates are the objects of all of them. -/

import ProofRay.Engine.GcJournal

namespace ProofRay.Engine

open Lib (Dict)
open Lib.Guard

variable {c : Crypto} {keyring : Keyring}

/-- The objects that some publications and some prepared objects need: the records, their
manifests, and what an opening of these reads. -/
inductive Needs (c : Crypto) (keyring : Keyring) (store : ObjectStore) (pubs prepared : Bytes → Prop) :
    Bytes → Prop where
  | record {pub : Bytes} (root : pubs pub) : Needs c keyring store pubs prepared pub
  | manifest {pub blob : Bytes} {record : PublicationRecord} (root : pubs pub)
      (found : store.get pub = some blob)
      (parsed : parsePublicationRecord c keyring (some blob) = .ok record) :
      Needs c keyring store pubs prepared record.manifestSha256
  | read {pub blob manifestBlob d : Bytes} {record : PublicationRecord} {man : EpochManifest}
      (root : pubs pub) (found : store.get pub = some blob)
      (parsed : parsePublicationRecord c keyring (some blob) = .ok record)
      (manifest_found : store.get record.manifestSha256 = some manifestBlob)
      (manifest_parsed : parseManifest c keyring (some manifestBlob) = .ok man)
      (member : d ∈ man.readDigests) : Needs c keyring store pubs prepared d
  | prepared {d : Bytes} (root : prepared d) : Needs c keyring store pubs prepared d

/-- The publications a scope holds: the one of `CURRENT`, and those of its pins, named or of a
live process. -/
def ScopeHolds (c : Crypto) (keyring : Keyring) (disk : GcDisk) (scope : Int) (pub : Bytes) : Prop :=
  (∃ ptr, readCurrent c keyring (disk.publication scope) 4096 = .ok ptr ∧
      ptr.publicationSha256 = pub) ∨
    (∃ entry ∈ (disk.scopes scope).namedPins.items, parseNamedPin c keyring entry.2 = some pub) ∨
    (pub, true) ∈ (disk.scopes scope).ephemeralPins

def ScopePrepared (c : Crypto) (keyring : Keyring) (disk : GcDisk) (scope : Int) (d : Bytes) : Prop :=
  ∃ entry ∈ (disk.scopes scope).prepared.items, ∃ roots,
    parsePreparedRecord c keyring entry.2 = some roots ∧ d ∈ roots.objectSha256s

/-- What is reachable from `CURRENT`, the pins and the preparations of a scope. -/
def ScopeNeeds (c : Crypto) (keyring : Keyring) (disk : GcDisk) (scope : Int) : Bytes → Prop :=
  Needs c keyring disk.objects (ScopeHolds c keyring disk scope) (ScopePrepared c keyring disk scope)

def RootsNeed (c : Crypto) (keyring : Keyring) (store : ObjectStore) (roots : GcRoots) :
    Bytes → Prop :=
  Needs c keyring store (· ∈ roots.allPublicationDigests) (· ∈ roots.preparedObjectSha256s)

section

variable {store : ObjectStore} {walStore : WalStore}

theorem sealed_of_objItem_mem {scopeId : Int} {ss : List WalSegmentDescriptor}
    {items : List GcItem} {d : Bytes} (reached : reachSegments scopeId ss = .ok items)
    (member : objItem d ∈ items) : ∃ s ∈ ss, s.status = stateSealed ∧ s.sealedObjectSha256 = d := by
  induction ss generalizing items with
  | nil =>
    cases reached
    cases member
  | cons s ss ih =>
    unfold reachSegments at reached
    split at reached
    · rename_i isSealed
      split at reached
      · cases reached
      · obtain ⟨rest, others, made⟩ := bind_eq_ok.mp reached
        cases made
        rcases List.mem_cons.mp member with here | later
        · exact ⟨s, List.mem_cons_self, isSealed, (objItem_inj.mp here).symm⟩
        · obtain ⟨s', inRest, found⟩ := ih others later
          exact ⟨s', List.mem_cons_of_mem _ inRest, found⟩
    · split at reached
      · obtain ⟨rest, others, made⟩ := bind_eq_ok.mp reached
        cases made
        rcases List.mem_cons.mp member with here | later
        · exact absurd here (objItem_ne_activeItem _ _)
        · obtain ⟨s', inRest, found⟩ := ih others later
          exact ⟨s', List.mem_cons_of_mem _ inRest, found⟩
      · cases reached

variable {limits : GcLimits}

theorem objItem_mem_closure {pub : Bytes} {closure : List GcItem}
    (reached : reachFromPublication c keyring store walStore limits pub = .ok closure) (d : Bytes) :
    objItem d ∈ closure ↔ Needs c keyring store (· = pub) (fun _ => False) d := by
  obtain ⟨record, manifestBlob, man, intact, first, second, reads⟩ :=
    rootOpens_of_reachFromPublication reached
  constructor
  · intro member
    obtain ⟨blob, found, parsed⟩ := intact.record_ok
    unfold reachFromPublication at reached
    simp only [bind_eq_ok, mapError_eq_ok, require_eq_ok, pure_eq_ok] at reached
    obtain ⟨recordBlob, recordFound, record', recordParsed, manifestBlob', manifestFound, -, -, man',
      manParsed, -, -, -, -, segments, reachedSegments, rfl⟩ := reached
    have stored := (ObjectStore.getLimited_eq_ok_iff.mp recordFound).1
    have manifestStored := (ObjectStore.getLimited_eq_ok_iff.mp manifestFound).1
    rcases List.mem_cons.mp member with here | member
    · rw [objItem_inj.mp here]
      exact .record rfl
    · rcases List.mem_cons.mp member with here | member
      · rw [objItem_inj.mp here]
        exact .manifest rfl stored recordParsed
      · have inReads : d ∈ man'.readDigests := by
          rcases List.mem_append.mp member with artifact | segment
          · obtain ⟨kind, known, same⟩ := List.mem_map.mp artifact
            rw [← objItem_inj.mp same]
            exact List.mem_append_left _ (List.mem_map.mpr ⟨kind, known, rfl⟩)
          · obtain ⟨s, inManifest, isSealed, rfl⟩ := sealed_of_objItem_mem reachedSegments segment
            apply List.mem_append_right
            exact List.mem_map.mpr ⟨s, List.mem_filter.mpr ⟨inManifest, by simpa using isSealed⟩, rfl⟩
        exact .read rfl stored recordParsed manifestStored manParsed inReads
  · intro needed
    obtain ⟨blob, found, parsed⟩ := intact.record_ok
    cases needed with
    | record root =>
      rw [root]
      exact first
    | manifest root found' parsed' =>
      subst root
      rw [found] at found'
      cases found'
      rw [parsed] at parsed'
      cases parsed'
      exact second
    | read root found' parsed' manifestFound' manifestParsed' member =>
      subst root
      rw [found] at found'
      cases found'
      rw [parsed] at parsed'
      cases parsed'
      rw [intact.manifest_found] at manifestFound'
      cases manifestFound'
      rw [intact.manifest_ok] at manifestParsed'
      cases manifestParsed'
      exact reads _ member
    | prepared root => exact root.elim

theorem objItem_mem_closures {pubs : List Bytes} {budget : Int} {closures : List GcItem}
    (reached : reachAll c keyring store walStore limits pubs budget = .ok closures) (d : Bytes) :
    objItem d ∈ closures ↔ Needs c keyring store (· ∈ pubs) (fun _ => False) d := by
  have split : objItem d ∈ closures ↔
      ∃ pub ∈ pubs, Needs c keyring store (· = pub) (fun _ => False) d := by
    induction pubs generalizing budget closures with
    | nil =>
      cases reached
      simp
    | cons pub pubs ih =>
      simp only [reachAll, bind_eq_ok, pure_eq_ok] at reached
      obtain ⟨-, -, closure, first, rest, others, rfl⟩ := reached
      rw [List.mem_append, objItem_mem_closure first, ih others]
      simp
  rw [split]
  constructor
  · rintro ⟨pub, member, needed⟩
    cases needed with
    | record root => exact .record (root ▸ member)
    | manifest root found parsed => exact .manifest (root ▸ member) found parsed
    | read root found parsed found' parsed' inside =>
      exact .read (root ▸ member) found parsed found' parsed' inside
    | prepared root => exact root.elim
  · intro needed
    cases needed with
    | record root => exact ⟨_, root, .record rfl⟩
    | manifest root found parsed => exact ⟨_, root, .manifest rfl found parsed⟩
    | read root found parsed found' parsed' inside =>
      exact ⟨_, root, .read rfl found parsed found' parsed' inside⟩
    | prepared root => exact root.elim

theorem objItem_mem_unreachable {roots : GcRoots} {plan : GcPlan}
    (decided : planReachability c keyring store walStore roots limits = .ok plan)
    (planned : plan.state = .planned) (d : Bytes) :
    objItem d ∈ plan.unreachable ↔
      (∃ blob, store.get d = some blob) ∧ ¬ RootsNeed c keyring store roots d := by
  rcases planReachability_cases decided with ⟨closures, reached, -, -, unreachable⟩ |
    ⟨state, reason, stopped, rfl⟩
  · have reachable : objItem d ∈ roots.reachable closures ↔ RootsNeed c keyring store roots d := by
      have noActive : objItem d ∉ roots.preparedActiveSegments.map activeItem := by
        intro member
        obtain ⟨identity, -, same⟩ := List.mem_map.mp member
        exact objItem_ne_activeItem d identity same.symm
      have prepared : objItem d ∈ roots.preparedObjectSha256s.map objItem ↔
          d ∈ roots.preparedObjectSha256s := by simp
      rw [GcRoots.reachable, List.mem_append, List.mem_append, or_iff_left noActive, prepared,
        objItem_mem_closures reached]
      constructor
      · rintro (needed | root)
        · cases needed with
          | record root => exact .record root
          | manifest root found parsed => exact .manifest root found parsed
          | read root found parsed found' parsed' inside =>
            exact .read root found parsed found' parsed' inside
          | prepared root => exact root.elim
        · exact .prepared root
      · intro needed
        cases needed with
        | record root => exact .inl (.record root)
        | manifest root found parsed => exact .inl (.manifest root found parsed)
        | read root found parsed found' parsed' inside =>
          exact .inl (.read root found parsed found' parsed' inside)
        | prepared root => exact .inr root
    rw [unreachable, List.mem_filter, objItem_mem_presentItems, decide_eq_true_iff, reachable]
  · exact absurd planned (reachAll_abort stopped)

end

def Isolated (c : Crypto) (keyring : Keyring) (disk disk' : GcDisk) (scope : Int) : Prop :=
  ∀ other, other ≠ scope → ∀ d blob, ScopeNeeds c keyring disk other d →
    disk.objects.get d = some blob → disk'.objects.get d = some blob

def Executes (c : Crypto) (keyring : Keyring) (disk : GcDisk) (call : GcCall) : Prop :=
  ∃ execution, prepareRun c keyring (disk.reap call.scope) call = .ok execution

def Covered (c : Crypto) (keyring : Keyring) (disk : GcDisk) (call : GcCall) (d : Bytes) : Prop :=
  ∃ roots, gatherRoots c keyring (disk.reap call.scope) call.scope call.retention call.limits =
    .ok roots ∧ RootsNeed c keyring disk.objects roots d

/-- The file system refuses a rename before the object's turn. -/
def Spared (c : Crypto) (keyring : Keyring) (disk : GcDisk) (call : GcCall) (d : Bytes) : Prop :=
  ∃ refused reason, call.renameFault = some (refused, reason) ∧
    objItem d ∉ (collectable c keyring disk call).take refused

theorem get_iff_covered_of_prepared {disk disk' : GcDisk} {call : GcCall} {result : GcRunResult}
    {execution : GcExecution} {d blob : Bytes}
    (ready : prepareRun c keyring (disk.reap call.scope) call = .ok execution)
    (renames : executePlan call execution ((disk.reap call.scope).reread call) = (disk', result))
    (found : disk.objects.get d = some blob) :
    disk'.objects.get d = some blob ↔
      Covered c keyring disk call d ∨ Spared c keyring disk call d := by
  obtain ⟨roots, key, journal, prepared⟩ := prepared_of_prepareRun ready
  obtain ⟨effect, moved, -, -⟩ := executePlan_effect renames (present_of_mem_movable prepared.decided)
  have decided : planReachability c keyring disk.objects disk.walStore roots call.limits =
      .ok execution.plan := prepared.decided
  have listed := collectable_of_plan prepared.gathered decided
  have covered : Covered c keyring disk call d ↔ objItem d ∉ execution.plan.movable := by
    rw [mem_movable, objItem_mem_unreachable decided prepared.planned]
    constructor
    · rintro ⟨roots', gathered, needed⟩ ⟨⟨-, unneeded⟩, -⟩
      rw [prepared.gathered] at gathered
      cases gathered
      exact unneeded needed
    · intro kept
      refine ⟨roots, prepared.gathered, ?_⟩
      by_contra unneeded
      exact kept ⟨⟨⟨blob, found⟩, unneeded⟩, rfl⟩
  have kept : disk'.objects.get d = some blob ↔ objItem d ∉ result.quarantined := by
    have before : ((disk.reap call.scope).reread call).objects.get d = some blob := found
    rw [effect.objects]
    by_cases member : objItem d ∈ result.quarantined
    · simp [member]
    · simp only [member, if_false, not_false_eq_true, iff_true]
      exact before
  rw [kept, moved, covered]
  unfold Spared
  rw [listed]
  cases fault : call.renameFault with
  | none => simp [renamed]
  | some refusal =>
    obtain ⟨refused, reason⟩ := refusal
    simp only [renamed, Nat.sub_zero]
    constructor
    · exact fun fresh => .inr ⟨refused, reason, rfl, fresh⟩
    · rintro (fresh | ⟨refused', reason', same, fresh⟩)
      · exact fun member => fresh (List.mem_of_mem_take member)
      · cases same
        exact fresh

def sharedObjects : ObjectStore := addBlobs (firstObjects 8) (firstBlobs 7)

theorem extends_sharedObjects : (firstObjects 7).Extends sharedObjects := by
  intro d blob found
  have found : (addBlobs ObjectStore.init (firstBlobs 7)).get d = some blob := found
  rw [sharedObjects, get_addBlobs, found]
  rfl

theorem length_keys_sharedObjects : sharedObjects.objects.keys.length ≤ 14 := by
  have seven := length_keys_addBlobs (firstObjects 8) (firstBlobs 7)
  have eight := length_keys_addBlobs ObjectStore.init (firstBlobs 8)
  have blobs (scope : Int) : (firstBlobs scope).length = 7 := rfl
  have none : ObjectStore.init.objects.keys.length = 0 := rfl
  rw [blobs] at seven eight
  rw [none] at eight
  unfold sharedObjects
  unfold firstObjects at seven ⊢
  omega

theorem named_sharedObjects : sharedObjects.Named := by
  unfold sharedObjects
  exact named_addBlobs (named_firstObjects 8) (firstBlobs 7)

theorem exists_publication_eight :
    (∃ blob, sharedObjects.get (firstPublication 8) = some blob) ∧
      objItem (firstPublication 8) ∉ firstClosure := by
  constructor
  · have fresh : (addBlobs ObjectStore.init (firstBlobs 7)).get (firstPublication 8) = none := by
      apply (Dict.get_eq_none_iff _ _).mpr
      intro member
      exact (first_digests_apart.1 _ member).2 rfl
    have inBlobs : firstRecordBlob 8 ∈ firstBlobs 8 := List.mem_cons_self
    obtain ⟨blob, found⟩ := exists_get_addBlobs ObjectStore.init inBlobs
    refine ⟨blob, ?_⟩
    rw [sharedObjects, get_addBlobs, fresh, Option.none_or, firstObjects, firstPublication]
    exact found
  · intro member
    exact (first_digests_apart.2 _ member rfl).2 rfl

theorem exists_run_shared :
    ∃ disk' result, runGc stdCrypto firstKeyring (firstDisk sharedObjects) firstGcCall =
        .ok (disk', result) ∧ result.state = .done ∧
      objItem (firstPublication 8) ∈
        collectable stdCrypto firstKeyring (firstDisk sharedObjects) firstGcCall := by
  obtain ⟨⟨blob, found⟩, unreached⟩ := exists_publication_eight
  have short := length_keys_sharedObjects
  obtain ⟨disk', result, ran, done, collected⟩ := exists_run_first extends_sharedObjects
    named_sharedObjects (by omega) found unreached
  exact ⟨disk', result, ran, done, collected _ blob found unreached⟩

end ProofRay.Engine
