/- A proof dossier and the order in which its claim ids are visited, which decides nothing exactly
   where no round of the greedy cover has a tie. -/

import ProofRay.Answer.ProofDossier
import ProofRay.Engine.Primitives
import Mathlib.Data.Rat.Defs
import Mathlib.Algebra.Order.Ring.Unbundled.Rat

namespace ProofRay.Answer

open Engine (Crypto stdCrypto)
open Lib (Dict Greedy)
open Lib.Guard
open Sidecar (encode hexSha256)

section

variable {ρ : Type} [Zero ρ] [LinearOrder ρ] (c : Crypto) (composer : Composer ρ)
  (call : DossierCall) (candidates : List (DossierCandidate call.intents.length))

def candidateIds : List String := (claimById call.intents candidates).keys

/-- The selection, and a dossier whose candidates these are, do not depend on the order in which the
ids that remain are visited. -/
def OrderFree : Prop :=
  ∀ visit visit', Greedy.Visits visit (candidateIds call candidates) →
    Greedy.Visits visit' (candidateIds call candidates) →
      submodularGreedySelect composer call.intents candidates call.maxBytes visit =
        submodularGreedySelect composer call.intents candidates call.maxBytes visit' ∧
      (dossierCandidates composer call = .ok candidates →
        buildProofDossier c composer call visit = buildProofDossier c composer call visit')

/-- In no round of the cover do two remaining claims have the same best ratio of words to bytes. -/
def NoTies : Prop :=
  (coverGreedy composer call.intents candidates call.maxBytes).Untied (.start _)
    (candidateIds call candidates)

variable {c composer call candidates}

theorem claimId_of_known {id : String} {claim : AuthorizedClaim}
    (known : (claimById call.intents candidates).get id = some claim) : claim.claimId = id := by
  rcases Dict.get_update_eq_some known with listed | empty
  · obtain ⟨candidate, -, same⟩ := List.mem_map.mp listed
    cases same
    rfl
  · cases empty

theorem map_claimId_known {ids : List String}
    (known : ∀ id ∈ ids, id ∈ candidateIds call candidates) :
    (ids.filterMap (claimById call.intents candidates).get).map AuthorizedClaim.claimId = ids := by
  induction ids with
  | nil => rfl
  | cons id ids ih =>
    obtain ⟨claim, found⟩ := (Dict.mem_keys_iff _ _).mp (known id List.mem_cons_self)
    rw [List.filterMap_cons_some found, List.map_cons, claimId_of_known found,
      ih fun other member => known other (List.mem_cons_of_mem _ member)]

theorem map_claimId_select {visit : List String → List String}
    (visits : Greedy.Visits visit (candidateIds call candidates)) :
    (submodularGreedySelect composer call.intents candidates call.maxBytes visit).map
        AuthorizedClaim.claimId =
      (coverGreedy composer call.intents candidates call.maxBytes).choose visit
        (candidateIds call candidates).length (.start _) (candidateIds call candidates) := by
  have run : (coverGreedy composer call.intents candidates call.maxBytes).Run (.start _) _ _ :=
    Greedy.run_choose visits (Nat.le_refl _)
  obtain ⟨rest, same⟩ := run.split
  exact map_claimId_known fun id member => same.mem_iff.mp (List.mem_append_left _ member)

theorem buildProofDossier_congr {visit visit' : List String → List String}
    (listed : dossierCandidates composer call = .ok candidates)
    (same : submodularGreedySelect composer call.intents candidates call.maxBytes visit =
      submodularGreedySelect composer call.intents candidates call.maxBytes visit') :
    buildProofDossier c composer call visit = buildProofDossier c composer call visit' := by
  unfold buildProofDossier
  simp only [listed, ok_bind, same]

/-- The claims of a dossier are the same in every order of the ids exactly where no two of them tie,
and where two tie, there are two orders of all the ids that differ. -/
theorem dossier_order_free_iff (c : Crypto) (composer : Composer ρ) (call : DossierCall)
    (candidates : List (DossierCandidate call.intents.length)) :
    (OrderFree c composer call candidates ↔ NoTies composer call candidates) ∧
      (¬ NoTies composer call candidates → ∃ order order' : List String,
        order.Perm (candidateIds call candidates) ∧ order'.Perm (candidateIds call candidates) ∧
          submodularGreedySelect composer call.intents candidates call.maxBytes
              (Greedy.inOrder order) ≠
            submodularGreedySelect composer call.intents candidates call.maxBytes
              (Greedy.inOrder order')) := by
  have nodup : (candidateIds call candidates).Nodup := (claimById call.intents candidates).nodup
  have differ (tied : ¬ NoTies composer call candidates) : ∃ order order' : List String,
      order.Perm (candidateIds call candidates) ∧ order'.Perm (candidateIds call candidates) ∧
        submodularGreedySelect composer call.intents candidates call.maxBytes
            (Greedy.inOrder order) ≠
          submodularGreedySelect composer call.intents candidates call.maxBytes
            (Greedy.inOrder order') := by
    obtain ⟨order, order', perm, perm', distinct⟩ := Greedy.exists_orders_of_tied nodup tied
    refine ⟨order, order', perm, perm', fun same => distinct ?_⟩
    rw [← map_claimId_select (Greedy.visits_inOrder nodup perm),
      ← map_claimId_select (Greedy.visits_inOrder nodup perm'), same]
  refine ⟨⟨fun free => ?_, fun untied visit visit' visits visits' => ?_⟩, differ⟩
  · by_contra tied
    obtain ⟨order, order', perm, perm', distinct⟩ := differ tied
    exact distinct (free _ _ (Greedy.visits_inOrder nodup perm)
      (Greedy.visits_inOrder nodup perm')).1
  · have same : submodularGreedySelect composer call.intents candidates call.maxBytes visit =
        submodularGreedySelect composer call.intents candidates call.maxBytes visit' := by
      unfold submodularGreedySelect
      exact congrArg _ (untied.choose_congr visits visits')
    exact ⟨same, fun listed => buildProofDossier_congr listed same⟩

end

/-- The words of a text in small letters, without `the`, `who` and `or`. -/
def contentWords (text : String) : Finset String :=
  (((text.toList.map Char.toLower).splitOnP fun ch => !ch.isAlpha).map String.ofList).toFinset \
    {"", "the", "who", "or"}

def doorClaim (colour : String) (index start stop : Nat) (sha256 : String) : AuthorizedClaim :=
  ⟨s!"s:claim:{index}", "s", sha256, (start, stop), s!"Anna saw the {colour} door.", "positive",
    "asserted"⟩

def doorComposer : Composer Rat where
  contentTokens := contentWords
  silent := by decide
  ratio n k := n / k
  extractAuthorizedClaims sources _ _ :=
    .ok (sources.flatMap fun source =>
      [doorClaim "red" 0 0 22 source.sha256, doorClaim "tan" 1 23 45 source.sha256])
  rankClaims _ claims _ perFiber := .ok (claims.take perFiber)
  repr text := "'" ++ text ++ "'"

def doorCall (c : Crypto) : DossierCall where
  sources := [⟨"s", "Anna saw the red door. Anna saw the tan door.",
    hexSha256 c (encode "Anna saw the red door. Anna saw the tan door.")⟩]
  intents := [⟨"q:intent", "Who saw the red or the tan door?", ["s"],
    hexSha256 c (encode "Who saw the red or the tan door?")⟩]
  strategy := "horizon"
  perFiber := 12
  maxBytes := 8192
  includeParagraphs := false
  preserveSources := false

def doorCandidates (c : Crypto) : List (DossierCandidate (doorCall c).intents.length) :=
  let sha256 := hexSha256 c (encode "Anna saw the red door. Anna saw the tan door.")
  [⟨1, ⟨0, Nat.one_pos⟩, "s", doorClaim "red" 0 0 22 sha256⟩,
    ⟨2, ⟨0, Nat.one_pos⟩, "s", doorClaim "tan" 1 23 45 sha256⟩]

theorem candidateIds_door (c : Crypto) :
    candidateIds (doorCall c) (doorCandidates c) = ["s:claim:0", "s:claim:1"] := rfl

def doorSelection (order : List String) : List String :=
  (submodularGreedySelect doorComposer (doorCall stdCrypto).intents (doorCandidates stdCrypto)
    (doorCall stdCrypto).maxBytes (Greedy.inOrder order)).map AuthorizedClaim.claimId

theorem doorSelection_orders :
    doorSelection ["s:claim:0", "s:claim:1"] = ["s:claim:0", "s:claim:1"] ∧
      doorSelection ["s:claim:1", "s:claim:0"] = ["s:claim:1", "s:claim:0"] := by
  decide +kernel

/-- Each of the two claims has three new words in 22 bytes: the one visited first is taken first. -/
theorem not_orderFree_door :
    dossierCandidates doorComposer (doorCall stdCrypto) = .ok (doorCandidates stdCrypto) ∧
      ¬ OrderFree stdCrypto doorComposer (doorCall stdCrypto) (doorCandidates stdCrypto) := by
  refine ⟨rfl, fun free => ?_⟩
  have visits (order : List String) (perm : order.Perm ["s:claim:0", "s:claim:1"]) :
      Greedy.Visits (Greedy.inOrder order)
        (candidateIds (doorCall stdCrypto) (doorCandidates stdCrypto)) :=
    Greedy.visits_inOrder (by rw [candidateIds_door]; decide) (by rwa [candidateIds_door])
  have same := (free _ _ (visits ["s:claim:0", "s:claim:1"] (List.Perm.refl _))
    (visits ["s:claim:1", "s:claim:0"] (List.Perm.swap _ _ _))).1
  obtain ⟨forward, backward⟩ := doorSelection_orders
  unfold doorSelection at forward backward
  rw [same, backward] at forward
  exact absurd forward (by decide)

end ProofRay.Answer
