/- The history of a publication directory: whatever the publishers do, and wherever
   they crash, `CURRENT` names the head of one chain of records. -/

import ProofRay.Engine.PublicationCodec
import ProofRay.Engine.Primitives

namespace ProofRay.Engine

open Lib (Dict)
open Lib.Guard

variable (c : Crypto) (keyring : Keyring)

def putObjects (store : ObjectStore) : List Bytes → Except PyError ObjectStore
  | [] => .ok store
  | blob :: blobs => store.putObject c blob >>= fun store' => putObjects store' blobs

/-- The effects of a publication on the directory: it ends before writing, or with some
objects written, or with `CURRENT` replaced. -/
inductive PublishEffect (disk : PublicationDisk) (call : PublishCall) :
    PublishOutcome → PublicationDisk → Prop where
  | stopped {stop : PublishStop} (decided : preparePublish c keyring disk call = .error stop) :
      PublishEffect disk call stop.outcome disk
  | kept {plan : PublishPlan} {outcome : PublishOutcome} {objects : ObjectStore}
      {written : List Bytes} (decided : preparePublish c keyring disk call = .ok plan)
      (silent : ∀ r, outcome ≠ .answered r)
      (stored : putObjects c disk.objects written = .ok objects) :
      PublishEffect disk call outcome ⟨objects, disk.current⟩
  | renamed {plan : PublishPlan} {outcome : PublishOutcome} {objects : ObjectStore}
      {currentBlob : Bytes} (decided : preparePublish c keyring disk call = .ok plan)
      (stored : putObjects c disk.objects [call.candidateManifestBlob, plan.recordBlob] =
        .ok objects)
      (pointer : serializeCurrent c (c.sha256 plan.recordBlob) call.keyId plan.key =
        .ok currentBlob)
      (answer : outcome = .crashed ∨ outcome = .answered ⟨.published,
        some (proofFrom plan.record (c.sha256 plan.recordBlob) plan.active), "publicado"⟩) :
      PublishEffect disk call outcome ⟨objects, some currentBlob⟩

variable {c keyring}

theorem publishImpl_effect (disk : PublicationDisk) (call : PublishCall) :
    PublishEffect c keyring disk call (publishImpl c keyring disk call).1
      (publishImpl c keyring disk call).2 := by
  unfold publishImpl
  cases decided : preparePublish c keyring disk call with
  | error stop => exact .stopped decided
  | ok plan =>
    have none_written : putObjects c disk.objects [] = .ok disk.objects := rfl
    simp only [writePublication]
    cases manifestStored : disk.objects.putObject c call.candidateManifestBlob with
    | error e => exact .kept decided (by simp) none_written
    | ok withManifest =>
      have one_written : putObjects c disk.objects [call.candidateManifestBlob] =
          .ok withManifest := by
        simp only [putObjects, manifestStored, ok_bind]
      dsimp only
      split
      · exact .kept decided (by simp) one_written
      · cases recordStored : withManifest.putObject c plan.recordBlob with
        | error e => exact .kept decided (by simp) one_written
        | ok withRecord =>
          have both_written : putObjects c disk.objects
              [call.candidateManifestBlob, plan.recordBlob] = .ok withRecord := by
            simp only [putObjects, manifestStored, recordStored, ok_bind]
          dsimp only
          split
          · exact .kept decided (by simp) both_written
          · simp only [writeCurrentPointer]
            cases pointer : serializeCurrent c (c.sha256 plan.recordBlob) call.keyId plan.key with
            | error e => exact .kept decided (by simp) both_written
            | ok currentBlob =>
              dsimp only
              split
              · exact .kept decided (by simp) both_written
              · split
                · exact .renamed decided both_written pointer (.inl rfl)
                · exact .renamed decided both_written pointer (.inr rfl)

/-- The facts behind a plan. -/
structure Prepared (c : Crypto) (keyring : Keyring) (disk : PublicationDisk) (call : PublishCall)
    (plan : PublishPlan) (man : EpochManifest) (observed : Observed) : Prop where
  key_known : keyring.get call.keyId = some plan.key
  parsed : parseManifest c keyring (some call.candidateManifestBlob) = .ok man
  active : activeSegment man = some plan.active
  named : c.sha256 call.candidateManifestBlob ≠ zeros 32
  observed_ok : observeCurrent c keyring disk call man plan.active = .ok observed
  authorized : authorize c keyring disk call man observed.prevRecord = .ok ()
  record_eq : plan.record = ⟨man.scopeId, man.generationId, observed.revision, man.readSeq,
    c.sha256 call.candidateManifestBlob, observed.previous, call.keyId⟩
  written : plan.record.serialize c plan.key = .ok plan.recordBlob

variable {call : PublishCall} {disk : PublicationDisk} {chain : List Bytes} {r : PublishResult}
  {store store' : ObjectStore} {objects : ObjectStore} {man : EpochManifest} {blob : Bytes}
  {plan : PublishPlan}

theorem prepared_of_preparePublish (h : preparePublish c keyring disk call = .ok plan) :
    ∃ man observed, Prepared c keyring disk call plan man observed := by
  simp only [preparePublish, bind_eq_ok, orThrow_eq_ok, mapError_eq_ok, require_eq_ok,
    pure_eq_ok] at h
  obtain ⟨key, known, -, -, man, parsed, active, last, -, named, observed, seen, ⟨⟩, authorized,
    recordBlob, written, rfl⟩ := h
  exact ⟨man, observed, known, parsed, last, named, seen, authorized, rfl, written⟩

theorem parseCurrent_ne_missing {why : String} :
    parseCurrent c keyring blob ≠ .error (.missing, why) := by
  intro h
  simp only [parseCurrent, bind_eq_error, require_eq_error, orThrow_eq_error, pure_ne_error,
    Prod.mk.injEq, reduceCtorEq, false_and, and_false, or_self, exists_false] at h

/-- `CURRENT` as the compare found it: absent, or naming the expected record. -/
inductive ObservedAs (c : Crypto) (keyring : Keyring) (disk : PublicationDisk)
    (call : PublishCall) : Observed → Prop where
  | absent (none_yet : disk.current = none) (expected : call.expectedCurrentDigest = zeros 32) :
      ObservedAs c keyring disk call ⟨0, zeros 32, none⟩
  | named {blob : Bytes} {ptr : CurrentPointer} {recordBlob : Bytes} {rec : PublicationRecord}
      (present : disk.current = some blob) (pointer : parseCurrent c keyring blob = .ok ptr)
      (stored : disk.objects.get ptr.publicationSha256 = some recordBlob)
      (parsed : parsePublicationRecord c keyring (some recordBlob) = .ok rec)
      (same_key : ptr.keyId = rec.keyId)
      (expected : call.expectedCurrentDigest = ptr.publicationSha256) :
      ObservedAs c keyring disk call ⟨rec.revision + 1, ptr.publicationSha256, some rec⟩

variable {prevRecord : Option PublicationRecord} {active : WalSegmentDescriptor} {digest : Bytes}
  {maxBytes : Int}

theorem openPublicationRecord_eq_ok_iff {store : ObjectStore} {rec : PublicationRecord} :
    openPublicationRecord c keyring store digest maxBytes = .ok rec ↔
      ∃ blob, store.getLimited digest maxBytes = .ok blob ∧
        parsePublicationRecord c keyring (some blob) = .ok rec := by
  unfold openPublicationRecord
  cases store.getLimited digest maxBytes with
  | error reason => cases reason <;> simp
  | ok blob => simp

theorem readCurrent_eq_ok_iff {ptr : CurrentPointer} :
    readCurrent c keyring disk maxBytes = .ok ptr ↔
      ∃ blob, disk.current = some blob ∧ (blob.length : Int) ≤ maxBytes ∧
        parseCurrent c keyring blob = .ok ptr := by
  simp [readCurrent]

theorem observedAs_of_observeCurrent {observed : Observed}
    (h : observeCurrent c keyring disk call man active = .ok observed) :
    ObservedAs c keyring disk call observed := by
  unfold observeCurrent at h
  cases reading : readCurrent c keyring disk call.limits.maxCurrentBytes with
  | error fault =>
    obtain ⟨state, why⟩ := fault
    rw [reading] at h
    cases state with
    | missing =>
      simp only at h
      split at h
      · cases h
      · rename_i expected
        cases h
        refine .absent ?_ (not_not.mp expected)
        have absent : disk.current = none ∧ "CURRENT ausente" = why := by
          simpa [readCurrent, parseCurrent_ne_missing] using reading
        exact absent.1
    | corrupt => cases h
    | incompatible => cases h
    | resourceLimit => cases h
  | ok ptr =>
    rw [reading] at h
    obtain ⟨blob, present, -, pointer⟩ := readCurrent_eq_ok_iff.mp reading
    cases opening : openPublicationRecord c keyring disk.objects ptr.publicationSha256
        call.limits.maxRecordBytes with
    | error fault => simp [opening] at h
    | ok rec =>
      obtain ⟨recordBlob, got, parsed⟩ := openPublicationRecord_eq_ok_iff.mp opening
      obtain ⟨stored, -⟩ := ObjectStore.getLimited_eq_ok_iff.mp got
      simp only [opening] at h
      split at h
      · cases h
      · rename_i sameKey
        split at h
        · cases h
        · split at h
          · cases h
          · rename_i expected
            cases h
            exact .named present pointer stored parsed (not_not.mp sameKey)
              (not_not.mp expected).symm

/-- `CURRENT` names a record of the candidate with the expected predecessor. -/
structure AlreadyNamed (c : Crypto) (keyring : Keyring) (disk : PublicationDisk)
    (call : PublishCall) (publicationSha256 : Bytes) : Prop where
  named : ∃ blob keyId recordBlob rec, disk.current = some blob ∧
    parseCurrent c keyring blob = .ok ⟨publicationSha256, keyId⟩ ∧
    disk.objects.get publicationSha256 = some recordBlob ∧
    parsePublicationRecord c keyring (some recordBlob) = .ok rec ∧
    rec.previousPublicationSha256 = call.expectedCurrentDigest ∧
    rec.manifestSha256 = c.sha256 call.candidateManifestBlob

/-- What an answer given before any write can be. -/
structure EarlyAnswer (c : Crypto) (keyring : Keyring) (disk : PublicationDisk)
    (call : PublishCall) (r : PublishResult) : Prop where
  not_published : r.state ≠ .published
  already : r.state = .alreadyPublished →
    ∃ proof, r.proof = some proof ∧ AlreadyNamed c keyring disk call proof.publicationSha256

private theorem early_of_refuse {state : PublishState} {reason : String}
    (h : refuse state reason = .answer r) (fresh : state ≠ .published)
    (other : state ≠ .alreadyPublished) : EarlyAnswer c keyring disk call r := by
  cases h
  exact ⟨fresh, fun same => absurd same other⟩

private theorem early_of_openCandidate
    (h : openCandidate c keyring disk call = .error (.answer r)) :
    EarlyAnswer c keyring disk call r := by
  unfold openCandidate at h
  split at h
  · split at h
    · cases h
    · cases h
    · exact early_of_refuse (Except.error.inj h) (by decide) (by decide)
  · cases h

private theorem early_of_observeCurrent
    (h : observeCurrent c keyring disk call man active = .error (.answer r)) :
    EarlyAnswer c keyring disk call r := by
  unfold observeCurrent at h
  split at h
  · split at h
    · exact early_of_refuse (Except.error.inj h) (by decide) (by decide)
    · cases h
  · exact early_of_refuse (Except.error.inj h) (by decide) (by decide)
  · rename_i ptr reading
    obtain ⟨blob, present, -, pointer⟩ := readCurrent_eq_ok_iff.mp reading
    split at h
    · exact early_of_refuse (Except.error.inj h) (by decide) (by decide)
    · rename_i rec opening
      obtain ⟨recordBlob, got, parsed⟩ := openPublicationRecord_eq_ok_iff.mp opening
      obtain ⟨stored, -⟩ := ObjectStore.getLimited_eq_ok_iff.mp got
      split at h
      · exact early_of_refuse (Except.error.inj h) (by decide) (by decide)
      · split at h
        · rename_i same
          cases h
          exact ⟨by simp, fun _ => ⟨_, rfl, ⟨blob, ptr.keyId, recordBlob, rec, present, pointer,
            stored, parsed, same.1, same.2.1⟩⟩⟩
        · split at h
          · exact early_of_refuse (Except.error.inj h) (by decide) (by decide)
          · cases h

private theorem early_of_previousManifest {limits : PublicationLimits}
    (h : previousManifest c keyring disk limits prevRecord = .error (.answer r)) :
    EarlyAnswer c keyring disk call r := by
  unfold previousManifest at h
  split at h
  · cases h
  · split at h
    · exact early_of_refuse (Except.error.inj h) (by decide) (by decide)
    · split at h
      · exact early_of_refuse (Except.error.inj h) (by decide) (by decide)
      · cases h

private theorem early_of_authorize
    (h : authorize c keyring disk call man prevRecord = .error (.answer r)) :
    EarlyAnswer c keyring disk call r := by
  unfold authorize at h
  split at h
  · cases h
  · split at h
    · exact early_of_refuse (Except.error.inj h) (by decide) (by decide)
    · rcases bind_eq_error.mp h with unreadable | ⟨prev, -, rejected⟩
      · exact early_of_previousManifest unreadable
      · split at rejected
        · exact early_of_refuse (Except.error.inj rejected) (by decide) (by decide)
        · cases rejected

theorem early_of_preparePublish (h : preparePublish c keyring disk call = .error (.answer r)) :
    EarlyAnswer c keyring disk call r := by
  simp only [preparePublish, bind_eq_error, orThrow_eq_error, mapError_eq_error, require_eq_error,
    pure_ne_error] at h
  rcases h with ⟨-, h⟩ | ⟨key, -, h | ⟨-, -, ⟨fault, -, h⟩ | ⟨man, -, ⟨-, h⟩ | ⟨active, -, ⟨-, h⟩ |
    ⟨-, -, h | ⟨observed, -, h | ⟨-, -, ⟨e, -, h⟩ | ⟨blob, -, h⟩⟩⟩⟩⟩⟩⟩⟩
  · exact early_of_refuse h (by decide) (by decide)
  · exact early_of_openCandidate h
  · exact early_of_refuse h (by decide) (by decide)
  · exact early_of_refuse h (by decide) (by decide)
  · exact early_of_refuse h (by decide) (by decide)
  · exact early_of_observeCurrent h
  · exact early_of_authorize h
  · cases h
  · cases h

def ObjectStore.Addressed (c : Crypto) (store : ObjectStore) : Prop :=
  ∀ digest blob, store.get digest = some blob → c.sha256 blob = digest

theorem addressed_of_putObject (addressed : store.Addressed c)
    (h : store.putObject c blob = .ok store') : store'.Addressed c := by
  intro digest found present
  rw [ObjectStore.get_of_putObject h] at present
  split at present
  · rename_i name
    cases present
    exact name
  · exact addressed digest found present

theorem addressed_of_putObjects {blobs : List Bytes} (addressed : store.Addressed c)
    (h : putObjects c store blobs = .ok store') : store'.Addressed c := by
  induction blobs generalizing store with
  | nil =>
    cases h
    exact addressed
  | cons blob blobs ih =>
    obtain ⟨middle, stored, rest⟩ := bind_eq_ok.mp h
    exact ih (addressed_of_putObject addressed stored) rest

theorem extends_of_putObjects {blobs : List Bytes} (h : putObjects c store blobs = .ok store') :
    store.Extends store' := by
  induction blobs generalizing store with
  | nil =>
    cases h
    exact .rfl
  | cons blob blobs ih =>
    obtain ⟨middle, stored, rest⟩ := bind_eq_ok.mp h
    exact (ObjectStore.extends_of_putObject stored).trans (ih rest)

theorem get_of_mem_putObjects {blobs : List Bytes} (h : putObjects c store blobs = .ok store')
    (member : blob ∈ blobs) : store'.get (c.sha256 blob) = some blob := by
  induction blobs generalizing store with
  | nil => cases member
  | cons head blobs ih =>
    obtain ⟨middle, stored, rest⟩ := bind_eq_ok.mp h
    rcases List.mem_cons.mp member with rfl | later
    · exact extends_of_putObjects rest _ _ (ObjectStore.get_self_of_putObject stored)
    · exact ih rest later

/-- One action on the directory: a publication, or an object that another process adds. -/
inductive HistoryStep where
  | publish (call : PublishCall)
  | putObject (blob : Bytes)

structure PublishEvent where
  call : PublishCall
  outcome : PublishOutcome

def PublishEvent.published (e : PublishEvent) : Option Bytes :=
  match e.outcome with
  | .answered r =>
    if r.state = .published then r.proof.map PublicationProof.publicationSha256 else none
  | _ => none

/-- The directory, and the calls so far with their outcomes, oldest first. -/
structure History where
  disk : PublicationDisk
  events : List PublishEvent

namespace History

def init : History := ⟨PublicationDisk.init, []⟩

variable (c keyring) in
def step (h : History) : HistoryStep → History
  | .publish call =>
    ⟨(publishImpl c keyring h.disk call).2,
      h.events ++ [⟨call, (publishImpl c keyring h.disk call).1⟩]⟩
  | .putObject blob =>
    match h.disk.objects.putObject c blob with
    | .ok objects => { h with disk := { h.disk with objects := objects } }
    | .error _ => h

variable (c keyring) in
def run (steps : List HistoryStep) : History := steps.foldl (step c keyring) init

def published (h : History) : List Bytes := h.events.filterMap PublishEvent.published

def blobs (h : History) : List Bytes :=
  h.disk.objects.objects.items.map Prod.snd ++ h.events.map fun e => e.call.candidateManifestBlob

theorem step_publish (h : History) (call : PublishCall) :
    h.step c keyring (.publish call) = ⟨(publishImpl c keyring h.disk call).2,
      h.events ++ [⟨call, (publishImpl c keyring h.disk call).1⟩]⟩ := rfl

theorem run_append_singleton (steps : List HistoryStep) (s : HistoryStep) :
    run c keyring (steps ++ [s]) = step c keyring (run c keyring steps) s := by
  simp [run, List.foldl_append]

end History

/-- SHA-256 as the code takes it to be, on the byte strings of a run: no two share a digest
and none has the digest `zero32`, which stands for "no publication". -/
def IdealDigests (c : Crypto) (blobs : List Bytes) : Prop :=
  (∀ a ∈ blobs, ∀ b ∈ blobs, c.sha256 a = c.sha256 b → a = b) ∧ ∀ a ∈ blobs, c.sha256 a ≠ zeros 32

instance (c : Crypto) (blobs : List Bytes) : Decidable (IdealDigests c blobs) :=
  inferInstanceAs (Decidable (_ ∧ _))

theorem IdealDigests.subset {blobs blobs' : List Bytes} (ideal : IdealDigests c blobs')
    (sub : ∀ b ∈ blobs, b ∈ blobs') : IdealDigests c blobs :=
  ⟨fun a ha b hb => ideal.1 a (sub a ha) b (sub b hb), fun a ha => ideal.2 a (sub a ha)⟩

variable {h : History}

theorem mem_blobs_of_get {digest blob : Bytes} (present : h.disk.objects.get digest = some blob) :
    blob ∈ h.blobs := by
  have item := (Dict.get_eq_some_iff h.disk.objects.objects digest blob).mp present
  exact List.mem_append_left _ (List.mem_map.mpr ⟨(digest, blob), item, rfl⟩)

theorem get_of_mem_items {store : ObjectStore} (member : blob ∈ store.objects.items.map Prod.snd) :
    ∃ digest, store.get digest = some blob := by
  obtain ⟨⟨digest, found⟩, item, rfl⟩ := List.mem_map.mp member
  exact ⟨digest, (Dict.get_eq_some_iff store.objects digest found).mpr item⟩

variable (c keyring) in
/-- Records under their digests, newest first: revisions count down to zero and each record
names the next one as its predecessor. -/
def RevisionChain (objects : ObjectStore) : List Bytes → Prop
  | [] => True
  | d :: ds =>
    (∃ blob rec, objects.get d = some blob ∧
      parsePublicationRecord c keyring (some blob) = .ok rec ∧ rec.revision = ds.length ∧
      rec.previousPublicationSha256 = ds.headD (zeros 32)) ∧ RevisionChain objects ds

variable (c keyring) in
/-- `CURRENT` names the head of the chain; it is absent when there is none. -/
def CurrentNames (disk : PublicationDisk) : List Bytes → Prop
  | [] => disk.current = none
  | d :: _ => ∃ blob keyId, disk.current = some blob ∧
      parseCurrent c keyring blob = .ok ⟨d, keyId⟩

theorem RevisionChain.mono {objects objects' : ObjectStore} (ext : objects.Extends objects') :
    ∀ {chain : List Bytes}, RevisionChain c keyring objects chain →
      RevisionChain c keyring objects' chain
  | [], _ => trivial
  | d :: _, ⟨⟨blob, rec, present, facts⟩, rest⟩ =>
    ⟨⟨blob, rec, ext d blob present, facts⟩, RevisionChain.mono ext rest⟩

theorem RevisionChain.get_of_mem :
    ∀ {chain : List Bytes}, RevisionChain c keyring objects chain → ∀ d ∈ chain,
      ∃ blob rec, objects.get d = some blob ∧
        parsePublicationRecord c keyring (some blob) = .ok rec ∧ rec.revision < chain.length
  | [], _, d, member => by cases member
  | e :: es, ⟨⟨blob, rec, present, parsed, revision, _⟩, rest⟩, d, member => by
    rcases List.mem_cons.mp member with rfl | later
    · refine ⟨blob, rec, present, parsed, ?_⟩
      rw [revision, List.length_cons]
      omega
    · obtain ⟨blob', rec', present', parsed', older⟩ := rest.get_of_mem d later
      refine ⟨blob', rec', present', parsed', ?_⟩
      rw [List.length_cons]
      omega

theorem RevisionChain.nodup :
    ∀ {chain : List Bytes}, RevisionChain c keyring objects chain → chain.Nodup
  | [], _ => List.nodup_nil
  | d :: ds, ⟨⟨blob, rec, present, parsed, revision, _⟩, rest⟩ => by
    refine List.nodup_cons.mpr ⟨?_, rest.nodup⟩
    intro again
    obtain ⟨blob', rec', present', parsed', older⟩ := rest.get_of_mem d again
    rw [present] at present'
    cases present'
    rw [parsed] at parsed'
    cases parsed'
    omega

/-- The invariant of a run: the store is content-addressed, `CURRENT` names the chain, the
manifest of each of its records is stored, and what was reported is in it, in order. -/
structure Sound (c : Crypto) (keyring : Keyring) (h : History) (chain : List Bytes) : Prop where
  addressed : h.disk.objects.Addressed c
  named : CurrentNames c keyring h.disk chain
  records : RevisionChain c keyring h.disk.objects chain
  manifests : ∀ d ∈ chain, ∀ blob rec, h.disk.objects.get d = some blob →
    parsePublicationRecord c keyring (some blob) = .ok rec →
    ∃ manifest, h.disk.objects.get rec.manifestSha256 = some manifest
  answered : h.published.Sublist chain.reverse

theorem sound_init : Sound c keyring History.init [] where
  addressed := by
    intro digest blob present
    cases present
  named := rfl
  records := trivial
  manifests := by simp
  answered := List.Sublist.refl _

variable {events : List PublishEvent}

theorem Sound.extend (sound : Sound c keyring h chain) {written : List Bytes}
    (stored : putObjects c h.disk.objects written = .ok objects)
    (silent : events.filterMap PublishEvent.published = h.published) :
    Sound c keyring ⟨⟨objects, h.disk.current⟩, events⟩ chain := by
  have ext := extends_of_putObjects stored
  refine ⟨addressed_of_putObjects sound.addressed stored, ?_, sound.records.mono ext, ?_, ?_⟩
  · cases chain with
    | nil => exact sound.named
    | cons d ds => exact sound.named
  · intro d member blob rec present parsed
    obtain ⟨blob', rec', present', parsed', -⟩ := sound.records.get_of_mem d member
    have same := ext d blob' present'
    rw [present] at same
    cases same
    obtain ⟨manifest, found⟩ := sound.manifests d member blob rec present' parsed
    exact ⟨manifest, ext _ _ found⟩
  · show (events.filterMap PublishEvent.published).Sublist chain.reverse
    rw [silent]
    exact sound.answered

theorem Sound.observed (sound : Sound c keyring h chain) {observed : Observed}
    (seen : ObservedAs c keyring h.disk call observed) :
    observed.revision = chain.length ∧ observed.previous = chain.headD (zeros 32) ∧
      call.expectedCurrentDigest = chain.headD (zeros 32) ∧
      (chain = [] ∨ ∃ blob, h.disk.objects.get observed.previous = some blob) := by
  cases seen with
  | absent noneYet expected =>
    cases chain with
    | nil => exact ⟨rfl, rfl, expected, .inl rfl⟩
    | cons d ds =>
      obtain ⟨blob, keyId, present, -⟩ := sound.named
      rw [noneYet] at present
      cases present
  | @named blob ptr recordBlob rec present pointer stored parsed sameKey expected =>
    cases chain with
    | nil =>
      have noneYet : h.disk.current = none := sound.named
      rw [noneYet] at present
      cases present
    | cons d ds =>
      obtain ⟨blob', keyId, present', pointer'⟩ := sound.named
      rw [present] at present'
      cases present'
      rw [pointer] at pointer'
      cases pointer'
      obtain ⟨⟨recordBlob', rec', stored', parsed', revision, -⟩, -⟩ := sound.records
      rw [stored] at stored'
      cases stored'
      rw [parsed] at parsed'
      cases parsed'
      refine ⟨?_, rfl, expected, .inr ⟨recordBlob, stored⟩⟩
      simp only [revision, List.length_cons]
      omega

/-- A record that names a candidate: its digest is stored and so is the candidate. -/
structure NamesCandidate (c : Crypto) (keyring : Keyring) (objects : ObjectStore)
    (digest : Bytes) (call : PublishCall) : Prop where
  named : ∃ blob rec, objects.get digest = some blob ∧
    parsePublicationRecord c keyring (some blob) = .ok rec ∧
    rec.previousPublicationSha256 = call.expectedCurrentDigest ∧
    objects.get rec.manifestSha256 = some call.candidateManifestBlob

theorem parse_planned_record {observed : Observed}
    (prep : Prepared c keyring disk call plan man observed)
    (previousLength : observed.previous.length = 32)
    (first : observed.revision = 0 ↔ observed.previous = zeros 32) :
    parsePublicationRecord c keyring (some plan.recordBlob) = .ok plan.record := by
  have wf := (wellFormed_of_parseManifest prep.parsed).1
  have written := prep.written
  have eq := prep.record_eq
  have known : keyring.get plan.record.keyId = some plan.key := by
    rw [eq]
    exact prep.key_known
  apply parsePublicationRecord_serialize known written
  · rw [eq]
    exact c.sha256_length _
  · rw [eq]
    exact previousLength
  · rw [eq]
    exact prep.named
  · rw [eq]
    exact first
  · rw [eq]
    exact wf.read_seq

/-- A replaced `CURRENT` names a new head of the chain. -/
theorem Sound.renamed {h : History} {chain : List Bytes} (sound : Sound c keyring h chain)
    (ideal : IdealDigests c h.blobs) {call : PublishCall} {plan : PublishPlan}
    {objects : ObjectStore} {currentBlob : Bytes} {events : List PublishEvent}
    (decided : preparePublish c keyring h.disk call = .ok plan)
    (stored : putObjects c h.disk.objects [call.candidateManifestBlob, plan.recordBlob] =
      .ok objects)
    (pointer : serializeCurrent c (c.sha256 plan.recordBlob) call.keyId plan.key = .ok currentBlob)
    (answered : (events.filterMap PublishEvent.published).Sublist
      (h.published ++ [c.sha256 plan.recordBlob])) :
    Sound c keyring ⟨⟨objects, some currentBlob⟩, events⟩ (c.sha256 plan.recordBlob :: chain) ∧
      call.expectedCurrentDigest = chain.headD (zeros 32) ∧
      NamesCandidate c keyring objects (c.sha256 plan.recordBlob) call := by
  obtain ⟨man, observed, prep⟩ := prepared_of_preparePublish decided
  obtain ⟨revision, previous, expected, stands⟩ :=
    sound.observed (observedAs_of_observeCurrent prep.observed_ok)
  have ext := extends_of_putObjects stored
  have recordStored : objects.get (c.sha256 plan.recordBlob) = some plan.recordBlob :=
    get_of_mem_putObjects stored (by simp)
  have manifestStored : objects.get (c.sha256 call.candidateManifestBlob) =
      some call.candidateManifestBlob := get_of_mem_putObjects stored (by simp)
  have previousLength : observed.previous.length = 32 := by
    rcases stands with none_yet | ⟨blob, present⟩
    · rw [previous, none_yet]
      rfl
    · rw [← sound.addressed _ _ present]
      exact c.sha256_length blob
  have first : observed.revision = 0 ↔ observed.previous = zeros 32 := by
    rcases stands with none_yet | ⟨blob, present⟩
    · subst none_yet
      exact iff_of_true revision previous
    · refine iff_of_false ?_ ?_
      · intro zero
        rw [zero] at revision
        have empty : chain = [] := List.length_eq_zero_iff.mp (by exact_mod_cast revision.symm)
        subst empty
        rw [previous] at present
        exact ideal.2 blob (mem_blobs_of_get present) (sound.addressed _ _ present)
      · intro zero
        rw [zero] at present
        exact ideal.2 blob (mem_blobs_of_get present) (sound.addressed _ _ present)
  have parsed := parse_planned_record prep previousLength first
  have eq := prep.record_eq
  refine ⟨⟨addressed_of_putObjects sound.addressed stored, ?_, ?_, ?_, ?_⟩, expected, ?_⟩
  · exact ⟨currentBlob, call.keyId, rfl, parseCurrent_serializeCurrent prep.key_known pointer⟩
  · refine ⟨⟨plan.recordBlob, plan.record, recordStored, parsed, ?_, ?_⟩, sound.records.mono ext⟩
    · rw [eq]
      exact revision
    · rw [eq]
      exact previous
  · intro d member blob rec present parsed'
    rcases List.mem_cons.mp member with rfl | old
    · rw [recordStored] at present
      cases present
      rw [parsed] at parsed'
      cases parsed'
      refine ⟨call.candidateManifestBlob, ?_⟩
      rw [eq]
      exact manifestStored
    · obtain ⟨blob', rec', present', parsed'', -⟩ := sound.records.get_of_mem d old
      have same := ext d blob' present'
      rw [present] at same
      cases same
      obtain ⟨manifest, found⟩ := sound.manifests d old blob rec present' parsed'
      exact ⟨manifest, ext _ _ found⟩
  · show (events.filterMap PublishEvent.published).Sublist (c.sha256 plan.recordBlob :: chain).reverse
    rw [List.reverse_cons]
    exact answered.trans (sound.answered.append (List.Sublist.refl _))
  · refine ⟨plan.recordBlob, plan.record, recordStored, parsed, ?_, ?_⟩
    · rw [eq, expected]
      exact previous
    · rw [eq]
      exact manifestStored

/-- What one call does to a directory whose `CURRENT` names the head of `chain`. -/
structure CallFacts (c : Crypto) (keyring : Keyring) (disk disk' : PublicationDisk)
    (chain : List Bytes) (call : PublishCall) (outcome : PublishOutcome) : Prop where
  published : ∀ r, outcome = .answered r → r.state = .published → ∃ proof,
    r.proof = some proof ∧ call.expectedCurrentDigest = chain.headD (zeros 32) ∧
    CurrentNames c keyring disk' (proof.publicationSha256 :: chain) ∧
    NamesCandidate c keyring disk'.objects proof.publicationSha256 call
  already : ∀ r, outcome = .answered r → r.state = .alreadyPublished → disk' = disk ∧
    ∃ proof older, r.proof = some proof ∧ chain = proof.publicationSha256 :: older ∧
      call.expectedCurrentDigest = older.headD (zeros 32) ∧
      NamesCandidate c keyring disk.objects proof.publicationSha256 call
  other : ∀ r, outcome = .answered r → r.state ≠ .published → disk'.current = disk.current
  raised : ∀ e, outcome = .raised e → disk'.current = disk.current
  crashed : outcome = .crashed →
    disk'.current = disk.current ∨ ∃ d, CurrentNames c keyring disk' (d :: chain)

/-- A retry that is answered `ALREADY_PUBLISHED` finds its own candidate at the head. -/
theorem Sound.already (sound : Sound c keyring h chain)
    (ideal : IdealDigests c (call.candidateManifestBlob :: h.blobs))
    (named : AlreadyNamed c keyring h.disk call digest) :
    ∃ older, chain = digest :: older ∧ call.expectedCurrentDigest = older.headD (zeros 32) ∧
      NamesCandidate c keyring h.disk.objects digest call := by
  obtain ⟨blob, keyId, recordBlob, rec, present, pointer, stored, parsed, expected, candidate⟩ :=
    named.named
  cases chain with
  | nil =>
    have noneYet : h.disk.current = none := sound.named
    rw [noneYet] at present
    cases present
  | cons d older =>
    obtain ⟨blob', keyId', present', pointer'⟩ := sound.named
    rw [present] at present'
    cases present'
    rw [pointer] at pointer'
    cases pointer'
    obtain ⟨⟨recordBlob', rec', stored', parsed', -, previous⟩, -⟩ := sound.records
    rw [stored] at stored'
    cases stored'
    rw [parsed] at parsed'
    cases parsed'
    obtain ⟨manifest, found⟩ := sound.manifests digest (List.mem_cons_self ..) recordBlob rec
      stored parsed
    -- the stored manifest has the candidate's digest, so it is the candidate
    have same : manifest = call.candidateManifestBlob := by
      apply ideal.1 manifest (List.mem_cons_of_mem _ (mem_blobs_of_get found)) _
        (List.mem_cons_self ..)
      rw [sound.addressed _ _ found, candidate]
    rw [same] at found
    refine ⟨older, rfl, ?_, ⟨recordBlob, rec, stored, parsed, expected, found⟩⟩
    rw [← expected]
    exact previous

theorem published_append (events : List PublishEvent) (e : PublishEvent) :
    (events ++ [e]).filterMap PublishEvent.published =
      events.filterMap PublishEvent.published ++ e.published.toList := by
  rw [List.filterMap_append]
  cases found : e.published <;> simp [found]

theorem Sound.publish (sound : Sound c keyring h chain)
    (ideal : IdealDigests c (call.candidateManifestBlob :: h.blobs)) :
    (∃ chain', Sound c keyring (h.step c keyring (.publish call)) chain') ∧
      CallFacts c keyring h.disk (h.step c keyring (.publish call)).disk chain call
        (publishImpl c keyring h.disk call).1 := by
  have effect := @publishImpl_effect c keyring h.disk call
  have ideal' : IdealDigests c h.blobs := ideal.subset fun b hb => List.mem_cons_of_mem _ hb
  rw [History.step_publish]
  generalize publishImpl c keyring h.disk call = result at effect ⊢
  obtain ⟨outcome, disk'⟩ := result
  dsimp only at effect ⊢
  cases effect with
  | @stopped stop decided =>
    have quiet : (⟨call, stop.outcome⟩ : PublishEvent).published = none := by
      cases stop with
      | raised e => rfl
      | answer r => exact if_neg (early_of_preparePublish decided).not_published
    have stored : putObjects c h.disk.objects [] = .ok h.disk.objects := rfl
    refine ⟨⟨chain, sound.extend stored ?_⟩, ?_, ?_, fun _ _ _ => rfl, fun _ _ => rfl,
      fun _ => .inl rfl⟩
    · rw [published_append, quiet]
      exact List.append_nil _
    · intro r answered state
      cases stop with
      | raised e => cases answered
      | answer r' =>
        cases answered
        exact absurd state (early_of_preparePublish decided).not_published
    · intro r answered state
      cases stop with
      | raised e => cases answered
      | answer r' =>
        cases answered
        obtain ⟨proof, given, named⟩ := (early_of_preparePublish decided).already state
        obtain ⟨older, head, expected, candidate⟩ := sound.already ideal named
        exact ⟨rfl, proof, older, given, head, expected, candidate⟩
  | @kept plan _ objects written decided silent stored =>
    have quiet : (⟨call, outcome⟩ : PublishEvent).published = none := by
      cases outcome with
      | answered r => exact absurd rfl (silent r)
      | raised e => rfl
      | crashed => rfl
    refine ⟨⟨chain, sound.extend stored ?_⟩, ?_, ?_, fun _ _ _ => rfl, fun _ _ => rfl,
      fun _ => .inl rfl⟩
    · rw [published_append, quiet]
      exact List.append_nil _
    · intro r answered
      exact absurd answered (silent r)
    · intro r answered
      exact absurd answered (silent r)
  | @renamed plan _ objects currentBlob decided stored pointer answer =>
    have told : ((h.events ++ [(⟨call, outcome⟩ : PublishEvent)]).filterMap
        PublishEvent.published).Sublist (h.published ++ [c.sha256 plan.recordBlob]) := by
      rw [published_append]
      refine List.Sublist.append (List.Sublist.refl _) ?_
      rcases answer with rfl | rfl
      · exact List.nil_sublist _
      · exact List.Sublist.refl _
    obtain ⟨sound', expected, candidate⟩ :=
      sound.renamed ideal' decided stored pointer told
    refine ⟨⟨_, sound'⟩, ?_, ?_, ?_, ?_, fun _ => .inr ⟨_, sound'.named⟩⟩
    · intro r answered _
      rcases answer with rfl | rfl
      · cases answered
      · cases answered
        exact ⟨_, rfl, expected, sound'.named, candidate⟩
    · intro r answered state
      rcases answer with rfl | rfl
      · cases answered
      · cases answered
        cases state
    · intro r answered state
      rcases answer with rfl | rfl
      · cases answered
      · cases answered
        exact absurd rfl state
    · intro e raised
      rcases answer with rfl | rfl
      · cases raised
      · cases raised

theorem Sound.putObject (sound : Sound c keyring h chain) (blob : Bytes) :
    Sound c keyring (h.step c keyring (.putObject blob)) chain := by
  simp only [History.step]
  cases stored : h.disk.objects.putObject c blob with
  | error e => exact sound
  | ok objects =>
    have one_written : putObjects c h.disk.objects [blob] = .ok objects := by
      simp only [putObjects, stored, ok_bind]
    exact sound.extend one_written rfl

theorem History.blobs_step (h : History) (s : HistoryStep) :
    ∀ b ∈ h.blobs, b ∈ (h.step c keyring s).blobs := by
  have keeps : h.disk.objects.Extends (h.step c keyring s).disk.objects ∧
      ∀ e ∈ h.events, e ∈ (h.step c keyring s).events := by
    cases s with
    | publish call =>
      refine ⟨?_, fun e he => List.mem_append_left _ he⟩
      rw [step_publish]
      have effect := @publishImpl_effect c keyring h.disk call
      generalize publishImpl c keyring h.disk call = result at effect ⊢
      obtain ⟨outcome, disk'⟩ := result
      dsimp only at effect ⊢
      cases effect with
      | stopped decided => exact .rfl
      | kept decided silent stored => exact extends_of_putObjects stored
      | renamed decided stored pointer answer => exact extends_of_putObjects stored
    | putObject blob =>
      simp only [step]
      cases stored : h.disk.objects.putObject c blob with
      | error e => exact ⟨.rfl, fun _ he => he⟩
      | ok objects => exact ⟨ObjectStore.extends_of_putObject stored, fun _ he => he⟩
  intro b member
  rcases List.mem_append.mp member with stored | named
  · obtain ⟨digest, present⟩ := get_of_mem_items stored
    exact mem_blobs_of_get (keeps.1 _ _ present)
  · obtain ⟨e, event, rfl⟩ := List.mem_map.mp named
    exact List.mem_append_right _ (List.mem_map.mpr ⟨e, keeps.2 e event, rfl⟩)

theorem History.candidate_blobs_step (h : History) (call : PublishCall) :
    ∀ b ∈ call.candidateManifestBlob :: h.blobs, b ∈ (h.step c keyring (.publish call)).blobs := by
  intro b member
  rcases List.mem_cons.mp member with rfl | older
  · rw [step_publish]
    exact List.mem_append_right _ (List.mem_map.mpr
      ⟨⟨call, _⟩, List.mem_append_right _ (List.mem_singleton_self _), rfl⟩)
  · exact blobs_step h (.publish call) b older

theorem History.blobs_run_append (before after : List HistoryStep) :
    ∀ b ∈ (run c keyring before).blobs, b ∈ (run c keyring (before ++ after)).blobs := by
  induction after using List.reverseRecOn with
  | nil => simp
  | append_singleton after s ih =>
    intro b member
    rw [← List.append_assoc, run_append_singleton]
    exact blobs_step _ s b (ih b member)

theorem exists_sound_run (steps : List HistoryStep)
    (ideal : IdealDigests c (History.run c keyring steps).blobs) :
    ∃ chain, Sound c keyring (History.run c keyring steps) chain := by
  induction steps using List.reverseRecOn with
  | nil => exact ⟨[], sound_init⟩
  | append_singleton steps s ih =>
    obtain ⟨chain, sound⟩ := ih (ideal.subset (History.blobs_run_append steps [s]))
    rw [History.run_append_singleton] at ideal ⊢
    cases s with
    | putObject blob => exact ⟨chain, sound.putObject blob⟩
    | publish call =>
      exact (sound.publish (ideal.subset (History.candidate_blobs_step _ call))).1

/-- The history a chain describes: `CURRENT` names its head, the records count down to
revision zero, and what was reported as published is in it once, in order. -/
structure LinearHistory (c : Crypto) (keyring : Keyring) (h : History) (chain : List Bytes) :
    Prop where
  named : CurrentNames c keyring h.disk chain
  records : RevisionChain c keyring h.disk.objects chain
  once : chain.Nodup
  answered : h.published.Sublist chain.reverse

theorem Sound.linear (sound : Sound c keyring h chain) : LinearHistory c keyring h chain :=
  ⟨sound.named, sound.records, sound.records.nodup, sound.answered⟩

/-- Whatever the publishers attempt and wherever they crash, the history stays linear, and
each call on the way changes `CURRENT` only as its answer says. -/
theorem publication_history_linear (c : Crypto) (keyring : Keyring) (steps : List HistoryStep)
    (ideal : IdealDigests c (History.run c keyring steps).blobs) :
    (∃ chain, LinearHistory c keyring (History.run c keyring steps) chain) ∧
      ∀ before call after, steps = before ++ .publish call :: after →
        ∃ chain, LinearHistory c keyring (History.run c keyring before) chain ∧
          CallFacts c keyring (History.run c keyring before).disk
            (History.run c keyring (before ++ [.publish call])).disk chain call
            (publishImpl c keyring (History.run c keyring before).disk call).1 := by
  refine ⟨?_, ?_⟩
  · obtain ⟨chain, sound⟩ := exists_sound_run steps ideal
    exact ⟨chain, sound.linear⟩
  · rintro before call after rfl
    have ideal' : IdealDigests c (History.run c keyring (before ++ [.publish call])).blobs := by
      apply ideal.subset
      rw [show before ++ .publish call :: after = (before ++ [.publish call]) ++ after by simp]
      exact History.blobs_run_append _ after
    obtain ⟨chain, sound⟩ := exists_sound_run before
      (ideal'.subset (History.blobs_run_append before [.publish call]))
    refine ⟨chain, sound.linear, ?_⟩
    rw [History.run_append_singleton] at ideal' ⊢
    exact (sound.publish (ideal'.subset (History.candidate_blobs_step _ call))).2

def firstKeyring : Keyring := ⟨⟨[(0, zeros 32)], by decide⟩⟩

def firstManifest (scope : Int) : EpochManifest where
  scopeId := scope
  generationId := 0
  factCount := 0
  baseSeq := 0
  readSeq := 0
  parentGenerationId := -1
  parentManifestDigest := zeros 32
  baseDescriptors kind := ⟨kind.descriptorVersion, true, 0, zeros 32, 0⟩
  segments := [⟨0, 1, 1, 0, stateActive, 67, zeros 32, 0, zeros 32, zeros 16, 0⟩]
  keyId := 0

def firstManifestBlob (scope : Int) : Bytes :=
  match (firstManifest scope).serialize stdCrypto (zeros 32) with
  | .ok blob => blob
  | .error _ => []

/-- A publication over an expected `CURRENT`, as the fast path calls it. -/
def firstCall (scope : Int) (expected : Bytes) (crash : Option Failpoint) : PublishCall where
  storeScope := none
  walStore := ⟨Dict.empty, ObjectStore.init⟩
  candidateManifestBlob := firstManifestBlob scope
  expectedCurrentDigest := expected
  keyId := 0
  limits := defaultPublicationLimits
  authority := none
  purpose := none
  requirePhysicalOpen := false
  crash := crash

def firstSteps : List HistoryStep :=
  [.publish (firstCall 7 (zeros 32) (some .afterRecord)), .publish (firstCall 7 (zeros 32) none),
    .publish (firstCall 7 (zeros 32) none)]

set_option maxRecDepth 100000 in
theorem publication_history_linear_first :
    (∃ chain, LinearHistory stdCrypto firstKeyring
        (History.run stdCrypto firstKeyring firstSteps) chain) ∧
      ∀ before call after, firstSteps = before ++ .publish call :: after →
        ∃ chain, LinearHistory stdCrypto firstKeyring
            (History.run stdCrypto firstKeyring before) chain ∧
          CallFacts stdCrypto firstKeyring (History.run stdCrypto firstKeyring before).disk
            (History.run stdCrypto firstKeyring (before ++ [.publish call])).disk chain call
            (publishImpl stdCrypto firstKeyring
              (History.run stdCrypto firstKeyring before).disk call).1 :=
  publication_history_linear stdCrypto firstKeyring firstSteps (by decide +kernel)

end ProofRay.Engine
