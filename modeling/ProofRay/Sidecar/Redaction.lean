/- What stays of a record when some FactIds go: a smaller batch of the same source, sealed again. -/

import ProofRay.Sidecar.Replay

namespace ProofRay.Sidecar

open Engine (Crypto)
open Lib.Guard
open CausalSourceEnvelope (sealed_eq_ok verify verify_of_sealed)
open AttestedCompletenessClaim (sealForScope)

theorem mem_joinLines {values : List String} {ch : Char} (member : ch ∈ joinLines values) :
    ch = '\n' ∨ ∃ v ∈ values, ch ∈ v.toList := by
  induction values with
  | nil => cases member
  | cons v rest ih =>
    cases rest with
    | nil => exact .inr ⟨v, List.mem_cons_self, member⟩
    | cons w rest =>
      rcases List.mem_append.mp member with here | later
      · exact .inr ⟨v, List.mem_cons_self, here⟩
      · rcases List.mem_cons.mp later with newline | later
        · exact .inl newline
        · rcases ih later with newline | ⟨u, member', inside⟩
          · exact .inl newline
          · exact .inr ⟨u, List.mem_cons_of_mem v member', inside⟩

variable {offset : Nat}

theorem slice_laid {α : Type} (text : α → String) {lay : Nat → List α → List (α × Nat × Nat)}
    (none : ∀ offset, lay offset [] = [])
    (next : ∀ offset a rest, lay offset (a :: rest) =
      (a, offset, offset + (text a).toList.length) ::
        lay (offset + (text a).toList.length + 1) rest)
    {offset : Nat} {items : List α} {place : α × Nat × Nat} (member : place ∈ lay offset items) :
    place.1 ∈ items ∧ offset ≤ place.2.1 ∧
      place.2.2 = place.2.1 + (text place.1).toList.length ∧
      place.2.2 ≤ offset + (joinLines (items.map text)).length ∧
      ((joinLines (items.map text)).drop (place.2.1 - offset)).take (place.2.2 - place.2.1) =
        (text place.1).toList := by
  induction items generalizing offset with
  | nil =>
    rw [none] at member
    cases member
  | cons item rest ih =>
    rw [next] at member
    rcases List.mem_cons.mp member with rfl | later
    · have joined : ∃ tail, joinLines ((item :: rest).map text) = (text item).toList ++ tail := by
        cases rest with
        | nil => exact ⟨[], (List.append_nil _).symm⟩
        | cons next rest => exact ⟨_, rfl⟩
      obtain ⟨tail, joined⟩ := joined
      refine ⟨List.mem_cons_self, Nat.le_refl offset, rfl, ?_, ?_⟩
      · rw [joined, List.length_append]
        exact Nat.add_le_add_left (Nat.le_add_right _ _) offset
      · rw [joined]
        simp
    · obtain ⟨inRest, above, stop, below, here⟩ := ih later
      cases rest with
      | nil => cases inRest
      | cons second rest =>
        have joined : joinLines ((item :: second :: rest).map text) =
            ((text item).toList ++ ['\n']) ++ joinLines ((second :: rest).map text) := by
          rw [List.append_assoc]
          rfl
        have before : ((text item).toList ++ ['\n']).length = (text item).toList.length + 1 := by
          simp
        refine ⟨List.mem_cons_of_mem item inRest, by omega, stop, ?_, ?_⟩
        · rw [joined, List.length_append, before]
          omega
        · rw [joined, List.drop_append, before]
          rw [List.drop_eq_nil_of_le (by omega), List.nil_append]
          rw [← here]
          congr 2
          omega

theorem slice_layout {items : List AttestedSidecarFact} {place : AttestedSidecarFact × Nat × Nat}
    (member : place ∈ layout offset items) :
    place.1 ∈ items ∧ offset ≤ place.2.1 ∧
      place.2.2 = place.2.1 + place.1.fact.value.toList.length ∧
      place.2.2 ≤ offset + (joinLines (items.map fun item => item.fact.value)).length ∧
      ((joinLines (items.map fun item => item.fact.value)).drop (place.2.1 - offset)).take
        (place.2.2 - place.2.1) = place.1.fact.value.toList :=
  slice_laid (fun item : AttestedSidecarFact => item.fact.value) (fun _ => rfl)
    (fun _ _ _ => rfl) member

def FactFields.placed (f : FactFields) (sha256 : String) (span : Nat × Nat) : FactFields :=
  { f with sourceSha256 := sha256, sourceSpan := span }

def AttestedSidecarFact.Sealed (c : Crypto) (a : AttestedSidecarFact) : Prop :=
  a.attestationSha256 =
    factAttestation c a.authoritySha256 a.fact.toFactFields a.lifecycle.toLifecycleFields
      a.routeMetadata

/-- One fact under two sources: all that an attestation says but its place. -/
structure AttestedSidecarFact.Like (a b : AttestedSidecarFact) : Prop where
  fields : b.fact.toFactFields = a.fact.toFactFields.placed b.fact.sourceSha256 b.fact.sourceSpan
  lifecycle : b.lifecycle = a.lifecycle
  routeMetadata : b.routeMetadata = a.routeMetadata
  authority : b.authoritySha256 = a.authoritySha256

namespace AttestedSidecarFact.Like

theorem refl (a : AttestedSidecarFact) : a.Like a := ⟨rfl, rfl, rfl, rfl⟩

variable {a b : AttestedSidecarFact} (like : a.Like b)
include like

theorem factId : b.fact.factId = a.fact.factId := by
  rw [like.fields]
  rfl

theorem scope : b.fact.scope = a.fact.scope := by
  rw [like.fields]
  rfl

theorem predicate : b.fact.predicate = a.fact.predicate := by
  rw [like.fields]
  rfl

theorem key : b.fact.key = a.fact.key := by
  rw [like.fields]
  rfl

theorem orbit : b.fact.orbit = a.fact.orbit := by
  rw [like.fields]
  rfl

theorem version : b.fact.version = a.fact.version := by
  rw [like.fields]
  rfl

theorem causes : b.fact.causes = a.fact.causes := by
  rw [like.fields]
  rfl

theorem value : b.fact.value = a.fact.value := by
  rw [like.fields]
  rfl

theorem sourceId : b.fact.sourceId = a.fact.sourceId := by
  rw [like.fields]
  rfl

theorem determined {c : Crypto} {b' : AttestedSidecarFact} (like' : a.Like b') (isSealed : b.Sealed c)
    (isSealed' : b'.Sealed c) (sha256 : b'.fact.sourceSha256 = b.fact.sourceSha256)
    (span : b'.fact.sourceSpan = b.fact.sourceSpan) : b' = b := by
  have fields : b'.fact.toFactFields = b.fact.toFactFields := by
    rw [like'.fields, like.fields, sha256, span]
  have fact : b'.fact = b.fact := by
    have made := TypedCausalFact.make_eq_ok.mpr (rfl : b'.fact.toFactFields = _)
    exact Except.ok.inj (made.symm.trans (TypedCausalFact.make_eq_ok.mpr fields.symm))
  have lifecycle := like'.lifecycle.trans like.lifecycle.symm
  have routeMetadata := like'.routeMetadata.trans like.routeMetadata.symm
  have authority := like'.authority.trans like.authority.symm
  unfold AttestedSidecarFact.Sealed at isSealed isSealed'
  rw [authority, fact, lifecycle, routeMetadata, ← isSealed] at isSealed'
  obtain ⟨⟩ := b
  obtain ⟨⟩ := b'
  simp_all

end AttestedSidecarFact.Like

section

variable {c : Crypto} {authority : SidecarAuthority} {original source : CausalSourceEnvelope}

theorem reseal_of_verified {item : AttestedSidecarFact} {span : Nat × Nat}
    (verified : item.verify c authority original = true) (good : source.verify c = true)
    (identity : source.sourceId = original.sourceId)
    (inside : span.2 ≤ source.content.toList.length)
    (quoted : slice source.content span.1 span.2 = item.fact.value) :
    ∃ item', reseal c authority source (item, span) = .ok item' ∧ item.Like item' ∧
      item'.verify c authority source = true ∧ item'.Sealed c ∧
      item'.fact.sourceSha256 = source.sha256 ∧ item'.fact.sourceSpan = span := by
  obtain ⟨made, permitted, cited⟩ := (AttestedSidecarFact.verify_eq_true c).mp verified
  have value := value_ne_empty cited
  simp only [verifyMicrocitation, Bool.and_eq_true, decide_eq_true_eq] at cited
  obtain ⟨⟨⟨⟨-, cites⟩, -⟩, -⟩, -⟩ := cited
  have sha : isSha256 source.sha256 = true := by
    simp only [verify, Bool.and_eq_true, decide_eq_true_eq] at good
    rw [← good.2]
    exact isSha256_hexSha256 c _
  have wide : span.1 < span.2 := by
    by_contra narrow
    apply value
    rw [← quoted, slice, Nat.sub_eq_zero_of_le (Nat.le_of_not_lt narrow), List.take_zero]
  have checked : (item.fact.toFactFields.placed source.sha256 span).Checked := by
    obtain ⟨names, version, polarity, causes, ⟨identity, -⟩, -⟩ := item.fact.checked
    exact ⟨names, version, polarity, causes, ⟨identity, sha⟩, wide⟩
  let fact : TypedCausalFact := ⟨item.fact.toFactFields.placed source.sha256 span, checked⟩
  have madeFact : TypedCausalFact.make (item.fact.toFactFields.placed source.sha256 span) =
      .ok fact := TypedCausalFact.make_eq_ok.mpr rfl
  simp only [AttestedSidecarFact.sealed, bind_eq_ok, require_eq_ok, pure_eq_ok] at made
  obtain ⟨-, purpose, -, versions, same⟩ := made
  have resealed : ∃ item', AttestedSidecarFact.sealed c fact authority item.lifecycle
      item.routeMetadata = .ok item' ∧ item'.fact = fact ∧ item'.lifecycle = item.lifecycle ∧
        item'.routeMetadata = item.routeMetadata ∧ item'.authoritySha256 = authority.sha256 c ∧
        item'.Sealed c := by
    simp only [AttestedSidecarFact.sealed]
    rw [require_of (show item.lifecycle.purpose = authority.purpose ∧
      fact.factId ∉ item.lifecycle.supersedes from purpose), ok_bind,
      require_of (show ∀ m ∈ item.routeMetadata, fact.version = m.version from versions), ok_bind]
    exact ⟨_, rfl, rfl, rfl, rfl, rfl, rfl⟩
  obtain ⟨item', sealed, isFact, lifecycle, metadata, bound, isSealed⟩ := resealed
  refine ⟨item', ?_, ⟨?_, lifecycle, metadata, ?_⟩, ?_, isSealed, ?_, ?_⟩
  · show (TypedCausalFact.make (item.fact.toFactFields.placed source.sha256 span) >>= fun fact =>
      AttestedSidecarFact.sealed c fact authority item.lifecycle item.routeMetadata) = _
    rw [madeFact, ok_bind]
    exact sealed
  · rw [isFact]
    rfl
  · rw [bound, ← same]
  · refine (AttestedSidecarFact.verify_eq_true c).mpr ⟨?_, ?_, ?_⟩
    · rw [isFact, lifecycle, metadata]
      exact sealed
    · rw [isFact]
      exact permitted
    · rw [isFact]
      simp only [verifyMicrocitation, good, Bool.true_and, Bool.and_eq_true, decide_eq_true_eq]
      exact ⟨⟨⟨cites.trans identity.symm, rfl⟩, inside⟩, quoted⟩
  · rw [isFact]
    rfl
  · rw [isFact]
    rfl

theorem resealClaim_of_verified {claim : AttestedCompletenessClaim}
    (verified : claim.verify c authority original = true) (good : source.verify c = true) :
    ∃ claim', sealForScope c authority source claim.scope claim.subject
        claim.predicate claim.factIds = .ok claim' ∧
      claim'.verify c authority source = true ∧ claim'.scope = claim.scope ∧
      claim'.key = claim.key ∧ claim'.factIds = claim.factIds := by
  obtain ⟨-, made⟩ := (AttestedCompletenessClaim.verify_eq_true c).mp verified
  simp only [sealForScope, bind_eq_ok, require_eq_ok, pure_eq_ok] at made
  obtain ⟨-, allowed, -⟩ := made
  have resealed : ∃ claim', sealForScope c authority source claim.scope
      claim.subject claim.predicate claim.factIds = .ok claim' ∧ claim'.scope = claim.scope ∧
        claim'.subject = claim.subject ∧ claim'.predicate = claim.predicate ∧
        claim'.factIds = claim.factIds := by
    unfold sealForScope
    rw [require_of allowed]
    exact ⟨_, rfl, rfl, rfl, rfl, rfl⟩
  obtain ⟨claim', sealed, scope, subject, predicate, factIds⟩ := resealed
  refine ⟨claim', sealed, ?_, scope, ?_, factIds⟩
  · refine (AttestedCompletenessClaim.verify_eq_true c).mpr ⟨good, ?_⟩
    rw [scope, subject, predicate, factIds]
    exact sealed
  · rw [AttestedCompletenessClaim.key, subject, predicate]
    rfl

end

namespace SidecarRecord

def Loses (selected : List Nat) (r : SidecarRecord) : Prop := r.factsWithout selected ≠ r.facts

def Stays (selected : List Nat) (r : SidecarRecord) : Prop :=
  ¬ (r.factsWithout selected = [] ∧ r.claimsWithout selected = [])

def redactedLayout (selected : List Nat) (r : SidecarRecord) :
    List (AttestedSidecarFact × Nat × Nat) :=
  layout 0 ((r.factsWithout selected).insertionSort bySpan)

def redactedText (selected : List Nat) (r : SidecarRecord) : String :=
  String.ofList (joinLines
    (((r.factsWithout selected).insertionSort bySpan).map fun item => item.fact.value))

variable {selected : List Nat} {r : SidecarRecord}

theorem mem_factsWithout {item : AttestedSidecarFact} :
    item ∈ r.factsWithout selected ↔ item ∈ r.facts ∧ item.fact.factId ∉ selected := by
  simp [factsWithout]

theorem loses_iff : r.Loses selected ↔ ∃ item ∈ r.facts, item.fact.factId ∈ selected := by
  rw [Loses, factsWithout, ne_eq, List.filter_eq_self]
  simp

theorem length_factsWithout : (r.factsWithout selected).length ≠ r.facts.length ↔
    r.Loses selected := by
  refine not_congr ⟨fun same => ?_, fun same => congrArg List.length same⟩
  exact List.filter_sublist.eq_of_length same

theorem mem_claimsWithout {claim : AttestedCompletenessClaim}
    (member : claim ∈ r.claimsWithout selected) :
    claim ∈ r.completenessClaims ∧ ∀ id ∈ claim.factIds, id ∉ selected := by
  unfold claimsWithout at member
  split at member
  · cases member
  · obtain ⟨inRecord, apart⟩ := List.mem_filter.mp member
    exact ⟨inRecord, of_decide_eq_true apart⟩

theorem claimsWithout_sublist : (r.claimsWithout selected).Sublist r.completenessClaims := by
  unfold claimsWithout
  split
  · exact List.nil_sublist _
  · exact List.filter_sublist

end SidecarRecord

def SidecarRecord.Places (c : Crypto) (selected : List Nat) (r : SidecarRecord)
    (item' : AttestedSidecarFact) : Prop :=
  item'.Sealed c ∧ item'.fact.sourceSha256 = hexSha256 c (encode (r.redactedText selected)) ∧
    ∃ place ∈ r.redactedLayout selected, place.1.fact.factId = item'.fact.factId ∧
      place.2 = item'.fact.sourceSpan

/-- A record `r'` that stays of the record `r`, under the source that verifies it. -/
structure Remainder (c : Crypto) (selected : List Nat) (r r' : SidecarRecord)
    (authority : SidecarAuthority) (source : CausalSourceEnvelope) : Prop where
  same : r'.adapterId = r.adapterId ∧ r'.scope = r.scope ∧
    r'.authoritySha256 = r.authoritySha256 ∧ r'.sourceId = r.sourceId
  sealing : CausalSourceEnvelope.sealed c r'.sourceId r'.content = .ok source
  digest : r'.sourceSha256 = hexSha256 c (encode r'.content)
  counts : r'.facts.length ≤ r.facts.length ∧
    r'.completenessClaims.length ≤ r.completenessClaims.length
  nonempty : ¬ (r'.facts = [] ∧ r'.completenessClaims = [])
  canonical : Canonical (r'.facts.map fun item => item.fact.factId)
  factsFrom : ∀ item' ∈ r'.facts, ∃ item ∈ r.facts, item.fact.factId ∉ selected ∧ item.Like item'
  factsKept : ∀ item ∈ r.facts, item.fact.factId ∉ selected → ∃ item' ∈ r'.facts, item.Like item'
  verified : ∀ item' ∈ r'.facts, item'.verify c authority source = true
  claimsOrdered : (r'.completenessClaims.map fun claim => claim.key).Pairwise keyBefore
  claimsFrom : ∀ claim' ∈ r'.completenessClaims, claim'.verify c authority source = true ∧
    ∃ claim ∈ r.completenessClaims, (∀ id ∈ claim.factIds, id ∉ selected) ∧
      claim'.scope = claim.scope ∧ claim'.key = claim.key ∧ claim'.factIds = claim.factIds
  whole : ¬ r.Loses selected → r'.facts = r.facts ∧ r'.content = r.content
  redacted : r.Loses selected → r'.content = r.redactedText selected ∧ r'.facts ≠ [] ∧
    ∀ item' ∈ r'.facts, r.Places c selected item'

theorem Remainder.sha256_eq {c : Crypto} {selected : List Nat} {r r' : SidecarRecord}
    {authority : SidecarAuthority} {source' : CausalSourceEnvelope}
    (remainder : Remainder c selected r r' authority source') (loses : r.Loses selected) :
    source'.sha256 = hexSha256 c (encode (r.redactedText selected)) := by
  rw [((sealed_eq_ok c).mp remainder.sealing).2]
  show hexSha256 c (encode r'.content) = _
  rw [(remainder.redacted loses).1]

section

variable {c : Crypto} {g : Registry} {m : AuthorizedSidecarMemory} {r : SidecarRecord}
  {authority : SidecarAuthority} {source : CausalSourceEnvelope}
  {memory : StandaloneCausalMemory} {selected : List Nat}

private theorem remainder_of_whole (taken : Takes c g m r authority source memory)
    (stays : r.Stays selected) (whole : ¬ r.Loses selected) :
    Remainder c selected r { r with completenessClaims := r.claimsWithout selected } authority
      source := by
  have kept : r.factsWithout selected = r.facts := not_not.mp whole
  have claims := taken.fit.claimsAdmitted
  refine ⟨⟨rfl, rfl, rfl, rfl⟩, taken.admitted.sealing, taken.digest,
    ⟨Nat.le_refl _, SidecarRecord.claimsWithout_sublist.length_le⟩, ?_, taken.fit.canonical, ?_, ?_,
    taken.fit.verified, ?_, ?_, fun _ => ⟨rfl, rfl⟩, fun loses => absurd loses whole⟩
  · rintro ⟨none, noClaim⟩
    exact stays ⟨kept.trans none, noClaim⟩
  · intro item member
    rw [show ({ r with completenessClaims := r.claimsWithout selected } : SidecarRecord).facts =
      r.factsWithout selected from kept.symm] at member
    obtain ⟨inRecord, apart⟩ := SidecarRecord.mem_factsWithout.mp member
    exact ⟨item, inRecord, apart, .refl item⟩
  · exact fun item member _ => ⟨item, member, .refl item⟩
  · exact taken.fit.claimsOrdered.sublist (SidecarRecord.claimsWithout_sublist.map _)
  · intro claim member
    obtain ⟨inRecord, apart⟩ := SidecarRecord.mem_claimsWithout member
    have admitted := claims claim inRecord
    simp only [AuthorizedSidecarMemory.admits, Bool.and_eq_true] at admitted
    exact ⟨admitted.1.1, claim, inRecord, apart, rfl, rfl, rfl⟩

theorem mapM_of_forall {α β ε : Type} {f : α → Except ε β} {P : α → β → Prop} {l : List α}
    (each : ∀ a ∈ l, ∃ b, f a = .ok b ∧ P a b) : ∃ l', l.mapM f = .ok l' ∧ List.Forall₂ P l l' := by
  induction l with
  | nil => exact ⟨[], rfl, .nil⟩
  | cons a l ih =>
    obtain ⟨b, made, good⟩ := each a List.mem_cons_self
    obtain ⟨l', mapped, all⟩ := ih fun a' member => each a' (List.mem_cons_of_mem a member)
    refine ⟨b :: l', ?_, .cons good all⟩
    rw [List.mapM_cons, made, ok_bind, mapped]
    rfl

private theorem exists_left {α β : Type} {P : α → β → Prop} {l : List α} {l' : List β}
    (each : List.Forall₂ P l l') : ∀ b ∈ l', ∃ a ∈ l, P a b := by
  induction each with
  | nil => exact List.forall_mem_nil _
  | @cons a b l l' good _ ih =>
    intro b' member
    rcases List.mem_cons.mp member with rfl | later
    · exact ⟨a, List.mem_cons_self, good⟩
    · obtain ⟨a', member', good'⟩ := ih b' later
      exact ⟨a', List.mem_cons_of_mem a member', good'⟩

private theorem map_eq_of_forall₂ {α β γ : Type} {P : α → β → Prop} {l : List α} {l' : List β}
    {f : α → γ} {f' : β → γ} (each : List.Forall₂ P l l') (same : ∀ a b, P a b → f' b = f a) :
    l'.map f' = l.map f := by
  induction each with
  | nil => rfl
  | cons good _ ih => rw [List.map_cons, List.map_cons, same _ _ good, ih]

private theorem map_fst_layout (offset : Nat) (items : List AttestedSidecarFact) :
    (layout offset items).map Prod.fst = items := by
  induction items generalizing offset with
  | nil => rfl
  | cons item rest ih => rw [layout, List.map_cons, ih]

private theorem remainder_of_loss (taken : Takes c g m r authority source memory)
    (loses : r.Loses selected) (some_fact : r.factsWithout selected ≠ []) :
    ∃ r' source', redactPartialRecord c g r (r.factsWithout selected) (r.claimsWithout selected) =
      .ok r' ∧ Remainder c selected r r' authority source' := by
  have verified : ∀ item ∈ r.factsWithout selected, item.verify c authority source = true :=
    fun item member => taken.fit.verified item (SidecarRecord.mem_factsWithout.mp member).1
  have sealing : CausalSourceEnvelope.sealed c r.sourceId r.content = .ok source :=
    taken.admitted.sealing
  obtain ⟨⟨identity, -⟩, sourceIs⟩ := (sealed_eq_ok c).mp sealing
  let ordered := (r.factsWithout selected).insertionSort bySpan
  let text := joinLines (ordered.map fun item => item.fact.value)
  have shuffled : ordered.Perm (r.factsWithout selected) := List.perm_insertionSort _ _
  have nonempty : String.ofList text ≠ "" := by
    obtain ⟨item, member⟩ := List.exists_mem_of_ne_nil _ some_fact
    have place : ∃ place ∈ layout 0 ordered, place.1 = item := by
      have inOrder : item ∈ (layout 0 ordered).map Prod.fst := by
        rw [map_fst_layout]
        exact shuffled.mem_iff.mpr member
      exact List.mem_map.mp inOrder
    obtain ⟨place, placed, rfl⟩ := place
    obtain ⟨-, -, -, -, quoted⟩ := slice_layout placed
    have value := value_ne_empty ((AttestedSidecarFact.verify_eq_true c).mp (verified _ member)).2.2
    intro empty
    apply value
    have blank : text = [] := by simpa using congrArg String.toList empty
    rw [show joinLines (ordered.map fun item => item.fact.value) = text from rfl, blank] at quoted
    simpa using quoted.symm
  obtain ⟨source', sealing'⟩ : ∃ source',
      CausalSourceEnvelope.sealed c r.sourceId (String.ofList text) = .ok source' :=
    ⟨_, (sealed_eq_ok c).mpr ⟨⟨identity, nonempty⟩, rfl⟩⟩
  have good := verify_of_sealed c sealing'
  obtain ⟨-, sourceIs'⟩ := (sealed_eq_ok c).mp sealing'
  have resealed : ∀ place ∈ layout 0 ordered, ∃ item',
      reseal c authority source' place = .ok item' ∧
      (place.1.Like item' ∧ item'.verify c authority source' = true ∧ item'.Sealed c ∧
        item'.fact.sourceSha256 = source'.sha256 ∧ item'.fact.sourceSpan = place.2) := by
    rintro ⟨item, span⟩ placed
    obtain ⟨inOrder, -, -, inside, quoted⟩ := slice_layout placed
    refine reseal_of_verified (verified item (shuffled.mem_iff.mp inOrder)) good ?_ ?_ ?_
    · rw [sourceIs, sourceIs']
    · rw [sourceIs']
      simpa using inside
    · rw [sourceIs', slice]
      simp only [String.toList_ofList]
      rw [show text = joinLines (ordered.map fun item => item.fact.value) from rfl]
      simp only [Nat.sub_zero] at quoted
      rw [quoted]
      exact String.ofList_toList
  have resealedClaims : ∀ claim ∈ r.claimsWithout selected, ∃ claim',
      sealForScope c authority source' claim.scope claim.subject
        claim.predicate claim.factIds = .ok claim' ∧
      (claim'.verify c authority source' = true ∧ claim'.scope = claim.scope ∧
        claim'.key = claim.key ∧ claim'.factIds = claim.factIds) := by
    intro claim member
    have admitted := taken.fit.claimsAdmitted claim (SidecarRecord.mem_claimsWithout member).1
    simp only [AuthorizedSidecarMemory.admits, Bool.and_eq_true] at admitted
    exact resealClaim_of_verified admitted.1.1 good
  obtain ⟨items, mapped, each⟩ := mapM_of_forall resealed
  obtain ⟨claims, mappedClaims, eachClaim⟩ := mapM_of_forall resealedClaims
  have sorted : (items.insertionSort fun a b => a.fact.factId ≤ b.fact.factId).Perm items :=
    List.perm_insertionSort _ _
  have order : items.map (fun item => item.fact.factId) =
      ordered.map fun item => item.fact.factId := by
    rw [← map_fst_layout 0 ordered, List.map_map]
    exact map_eq_of_forall₂ each fun _ _ good => good.1.factId
  have some_item : items ≠ [] := by
    intro empty
    apply some_fact
    have none : ordered = [] := by simpa [empty] using order.symm
    exact (none ▸ shuffled).nil_eq.symm
  have kept : (items.insertionSort fun a b => a.fact.factId ≤ b.fact.factId) ≠ [] := by
    intro none
    exact some_item (none ▸ sorted).nil_eq.symm
  refine ⟨{ r with
    content := String.ofList text
    sourceSha256 := source'.sha256
    facts := items.insertionSort fun a b => a.fact.factId ≤ b.fact.factId
    completenessClaims := claims }, source', ?_, ?_⟩
  · unfold redactPartialRecord
    rw [taken.registered, orThrow_some, ok_bind, sealing, ok_bind, require_of verified, ok_bind]
    show (CausalSourceEnvelope.sealed c r.sourceId (String.ofList text) >>= _) = _
    rw [sealing', ok_bind]
    show ((layout 0 ordered).mapM (reseal c authority source') >>= _) = _
    rw [mapped, ok_bind, mappedClaims]
    rfl
  · refine ⟨⟨rfl, rfl, rfl, rfl⟩, sealing', ?_, ⟨?_, ?_⟩, ?_, ?_, ?_, ?_, ?_, ?_, ?_,
      fun whole => absurd loses whole, fun _ => ⟨rfl, kept, ?_⟩⟩
    · rw [sourceIs']
    · rw [sorted.length_eq]
      have same := congrArg List.length order
      simp only [List.length_map] at same
      rw [same, shuffled.length_eq]
      exact List.length_filter_le _ _
    · rw [← eachClaim.length_eq]
      exact SidecarRecord.claimsWithout_sublist.length_le
    · exact fun empty => kept empty.1
    · have distinct : (items.map fun item => item.fact.factId).Nodup := by
        rw [order]
        refine (shuffled.map _).nodup_iff.mpr ?_
        exact (taken.fit.canonical.imp fun h => Nat.ne_of_lt h).sublist (List.filter_sublist.map _)
      have rising : ((items.insertionSort fun a b => a.fact.factId ≤ b.fact.factId).map
          fun item => item.fact.factId).Pairwise (· ≤ ·) :=
        List.pairwise_map.mpr (List.pairwise_insertionSort _ _)
      exact (rising.and ((sorted.map _).nodup_iff.mpr distinct)).imp
        fun h => Nat.lt_of_le_of_ne h.1 h.2
    · intro item' member
      obtain ⟨place, placed, like, -⟩ := exists_left each item' (sorted.mem_iff.mp member)
      have inOrder := (slice_layout placed).1
      obtain ⟨inRecord, apart⟩ := SidecarRecord.mem_factsWithout.mp (shuffled.mem_iff.mp inOrder)
      exact ⟨place.1, inRecord, apart, like⟩
    · intro item member apart
      have inOrder : item ∈ (layout 0 ordered).map Prod.fst := by
        rw [map_fst_layout]
        exact shuffled.mem_iff.mpr (SidecarRecord.mem_factsWithout.mpr ⟨member, apart⟩)
      obtain ⟨place, placed, rfl⟩ := List.mem_map.mp inOrder
      obtain ⟨item', member', like, -⟩ := exists_left each.flip place placed
      exact ⟨item', sorted.mem_iff.mpr member', like⟩
    · intro item' member
      obtain ⟨place, -, -, verified', -⟩ := exists_left each item' (sorted.mem_iff.mp member)
      exact verified'
    · rw [map_eq_of_forall₂ eachClaim fun _ _ good => good.2.2.1]
      exact taken.fit.claimsOrdered.sublist (SidecarRecord.claimsWithout_sublist.map _)
    · intro claim' member
      obtain ⟨claim, member', verified', scope, key, ids⟩ := exists_left eachClaim claim' member
      obtain ⟨inRecord, apart⟩ := SidecarRecord.mem_claimsWithout member'
      exact ⟨verified', claim, inRecord, apart, scope, key, ids⟩
    · intro item' member
      obtain ⟨place, placed, like, -, isSealed, sha256, span⟩ :=
        exists_left each item' (sorted.mem_iff.mp member)
      refine ⟨isSealed, ?_, place, placed, like.factId.symm, span.symm⟩
      rw [sha256, sourceIs']
      rfl

theorem without_of_taken (taken : Takes c g m r authority source memory) :
    (¬ r.Stays selected ∧ r.without c g selected = .ok none) ∨
      (r.Stays selected ∧ ∃ r' source', r.without c g selected = .ok (some r') ∧
        Remainder c selected r r' authority source') := by
  by_cases gone : r.factsWithout selected = [] ∧ r.claimsWithout selected = []
  · refine .inl ⟨not_not.mpr gone, ?_⟩
    simp only [SidecarRecord.without]
    rw [if_pos gone]
  · refine .inr ⟨gone, ?_⟩
    simp only [SidecarRecord.without]
    rw [if_neg gone]
    by_cases loses : r.Loses selected
    · rw [if_pos (SidecarRecord.length_factsWithout.mpr loses)]
      have some_fact : r.factsWithout selected ≠ [] := by
        intro none
        refine gone ⟨none, ?_⟩
        unfold SidecarRecord.claimsWithout
        refine if_pos ⟨fun empty => loses ?_, none⟩
        rw [none, empty]
      obtain ⟨r', source', redacted, remainder⟩ := remainder_of_loss taken loses some_fact
      exact ⟨r', source', by rw [redacted]; rfl, remainder⟩
    · rw [if_neg (fun different => loses (SidecarRecord.length_factsWithout.mp different))]
      exact ⟨_, source, rfl, remainder_of_whole taken gone loses⟩

end

end ProofRay.Sidecar
