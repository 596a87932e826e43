/- The proof dossier of an answer: the ranked claims of the sources, of which a greedy cover is
   taken until the byte budget is used up (`proof_dossier.py`). -/

import ProofRay.Answer.Engine
import ProofRay.Lib.Greedy
import Mathlib.Data.Finset.Card

namespace ProofRay.Answer

open Engine (Crypto PyError)
open Lib (Dict Greedy sortedSet)
open Lib.Guard
open Sidecar (encode hexSha256 slice)

/-- `ClaimSource.verify`. -/
def ClaimSource.verify (c : Crypto) (source : ClaimSource) : Bool :=
  source.sourceId ≠ "" && source.content ≠ "" && source.sha256 = hexSha256 c (encode source.content)

/-- `ContextIntent.verify`. -/
def ContextIntent.verify (c : Crypto) (intent : ContextIntent) (knownSources : List String) : Bool :=
  intent.intentId ≠ "" && intent.text ≠ "" && intent.sha256 = hexSha256 c (encode intent.text) &&
    intent.sourceIds ≠ [] && intent.sourceIds.all (· ∈ knownSources)

/-- `AuthorizedClaim`, with what a dossier reads of it. -/
structure AuthorizedClaim where
  claimId : String
  sourceId : String
  sourceSha256 : String
  span : Nat × Nat
  surface : String
  polarity : String
  modality : String
  deriving DecidableEq

namespace AuthorizedClaim

variable (claim : AuthorizedClaim)

/-- `AuthorizedClaim.verify`. -/
def verify (c : Crypto) (sources : Dict String ClaimSource) : Bool :=
  match sources.get claim.sourceId with
  | none => false
  | some source =>
    source.verify c && source.sha256 = claim.sourceSha256 && claim.span.1 < claim.span.2 &&
      claim.span.2 ≤ source.content.toList.length &&
      slice source.content claim.span.1 claim.span.2 = claim.surface

/-- `len(claim.surface.encode("utf-8"))`. -/
def cost : Nat := (encode claim.surface).length

end AuthorizedClaim

/-- A ranked claim of an intent, one of `n`. -/
structure DossierCandidate (n : Nat) where
  rank : Nat
  intentIndex : Fin n
  sourceId : String
  claim : AuthorizedClaim

/-- What a dossier makes of texts; the ratios are the floats. -/
structure Composer (ρ : Type) where
  /-- `_content_tokens`. -/
  contentTokens : String → Finset String
  silent : contentTokens "" = ∅   -- a claim of no bytes covers nothing, nothing is divided by zero
  /-- `new_tokens / cost`. -/
  ratio : Nat → Nat → ρ
  /-- `extract_authorized_claims`: the sources, `include_paragraphs` and `preserve_sources`. -/
  extractAuthorizedClaims : List ClaimSource → Bool → Bool → Except PyError (List AuthorizedClaim)
  /-- `_rank_claims`: the intent, the claims of one source, the strategy and `per_fiber`. -/
  rankClaims :
    ContextIntent → List AuthorizedClaim → String → Nat → Except PyError (List AuthorizedClaim)
  /-- `repr` of a text. -/
  repr : String → String

/-- `build_proof_dossier`'s arguments. -/
structure DossierCall where
  sources : List ClaimSource
  intents : List ContextIntent
  strategy : String
  perFiber : Int
  maxBytes : Int
  includeParagraphs : Bool
  preserveSources : Bool

variable {ρ : Type}

/-- What is covered of each of `n` intents, and at what cost. -/
structure Coverage (n : Nat) where
  used : Nat
  covered : Fin n → Finset String

section

variable (composer : Composer ρ) (intents : List ContextIntent)
  (candidates : List (DossierCandidate intents.length)) (maxBytes : Int)

/-- `claim_by_id`. -/
def claimById : Dict String AuthorizedClaim :=
  Dict.empty.update (candidates.map fun candidate => (candidate.claim.claimId, candidate.claim))

/-- `claim_obligations[claim_id]`: the intents the claim is ranked for, with the words it shares
with each. -/
def claimObligations (claimId : String) : List (Fin intents.length × Finset String) :=
  (candidates.filter fun candidate => candidate.claim.claimId = claimId).map fun candidate =>
    (candidate.intentIndex, composer.contentTokens intents[candidate.intentIndex].text ∩
      composer.contentTokens candidate.claim.surface)

/-- `new_tokens`. -/
def newTokens (s : Coverage intents.length) (claimId : String) : Nat :=
  ((claimObligations composer intents candidates claimId).map fun obligation =>
    (obligation.2 \ s.covered obligation.1).card).sum

/-- The loop over `remaining_ids`: what a claim is worth in a round, and what a round leaves. -/
def coverGreedy [Zero ρ] : Greedy (Coverage intents.length) String ρ where
  value s claimId :=
    match (claimById intents candidates).get claimId with
    | none => none
    | some claim =>
      if s.used + claim.cost > maxBytes then none
      else if newTokens composer intents candidates s claimId = 0 then none
      else some (composer.ratio (newTokens composer intents candidates s claimId) claim.cost)
  bound := 0
  take s claimId :=
    { used := s.used + ((claimById intents candidates).get claimId).elim 0 AuthorizedClaim.cost
      covered := (claimObligations composer intents candidates claimId).foldl
        (fun covered obligation => Function.update covered obligation.1
          (covered obligation.1 ∪ obligation.2)) s.covered }

def Coverage.start (n : Nat) : Coverage n := ⟨0, fun _ => ∅⟩

/-- `_submodular_greedy_select`, with the set of remaining ids visited in some order. -/
def submodularGreedySelect [Zero ρ] [LinearOrder ρ] (visit : List String → List String) :
    List AuthorizedClaim :=
  let known := claimById intents candidates
  let chosen := (coverGreedy composer intents candidates maxBytes).choose visit known.keys.length
    (.start _) known.keys
  chosen.filterMap known.get

end

/-- `ProofDossier`. -/
structure ProofDossier where
  strategy : String
  claims : List AuthorizedClaim
  evidenceBytes : Nat
  rendered : String
  digest : String
  deriving DecidableEq

/-- `_digest`. -/
def dossierDigest (c : Crypto) (composer : Composer ρ) (strategy : String)
    (claims : List AuthorizedClaim) (evidenceBytes : Nat) (rendered : String) : String :=
  let span (s : Nat × Nat) : String := s!"({s.1}, {s.2})"
  let row (claim : AuthorizedClaim) : String :=
    "(" ++ ", ".intercalate [composer.repr claim.claimId, composer.repr claim.sourceSha256,
      span claim.span, composer.repr claim.polarity, composer.repr claim.modality] ++ ")"
  let rows : String := match claims with
    | [claim] => "(" ++ row claim ++ ",)"
    | _ => "(" ++ ", ".intercalate (claims.map row) ++ ")"
  hexSha256 c (encode ("(" ++ ", ".intercalate [composer.repr "d49.proof-dossier.v1",
    composer.repr strategy, rows, toString evidenceBytes, composer.repr rendered] ++ ")"))

def renderDossier (claims : List AuthorizedClaim) : String :=
  let row (entry : AuthorizedClaim × Nat) : String :=
    let claim := entry.1
    s!"{entry.2}. [{claim.polarity}/{claim.modality}] {claim.surface} " ++
      s!"[source {claim.sourceId} span {claim.span.1}:{claim.span.2}]"
  "\n".intercalate ("Evidence dossier:" :: (claims.zipIdx 1).map row)

/-- `ProofDossier.verify`. -/
def ProofDossier.verify (c : Crypto) (composer : Composer ρ) (dossier : ProofDossier)
    (sources : List ClaimSource) (maxBytes : Int) : Bool :=
  let mapping := Dict.empty.update (sources.map fun source => (source.sourceId, source))
  dossier.claims ≠ [] && dossier.evidenceBytes ≤ maxBytes &&
    dossier.evidenceBytes = (dossier.claims.map AuthorizedClaim.cost).sum &&
    dossier.claims.all (fun claim => claim.verify c mapping) &&
    dossier.digest = dossierDigest c composer dossier.strategy dossier.claims dossier.evidenceBytes
      dossier.rendered

variable (c : Crypto) (composer : Composer ρ) (call : DossierCall)

def checkDossierCall : Except PyError Unit := do
  require (call.sources ≠ [] ∧ call.intents ≠ [] ∧ 1 ≤ call.perFiber ∧ 256 ≤ call.maxBytes)
    (.valueError "build_proof_dossier requires bounded sources, intents and budgets")
  let known := call.sources.map fun source => source.sourceId
  require (∀ intent ∈ call.intents, intent.verify c known = true)
    (.valueError "intent/source topology failed authority")

def dossierCandidates : Except PyError (List (DossierCandidate call.intents.length)) := do
  let claims ← composer.extractAuthorizedClaims call.sources call.includeParagraphs
    call.preserveSources
  let fibers ← (List.finRange call.intents.length).mapM fun index => do
    let intent := call.intents[index]
    let ranked ← (sortedSet id intent.sourceIds).mapM fun sourceId => do
      let ranked ← composer.rankClaims intent
        (claims.filter fun claim => claim.sourceId = sourceId) call.strategy call.perFiber.toNat
      pure ((ranked.zipIdx 1).map fun entry => ⟨entry.2, index, sourceId, entry.1⟩)
    pure ranked.flatten
  pure fibers.flatten

/-- `build_proof_dossier`, with the set of remaining ids visited in some order. -/
def buildProofDossier [Zero ρ] [LinearOrder ρ] (visit : List String → List String) :
    Except PyError ProofDossier := do
  checkDossierCall c call
  let candidates ← dossierCandidates composer call
  let selected := submodularGreedySelect composer call.intents candidates call.maxBytes visit
  require (selected ≠ []) (.valueError "dossier contains no authorized claim")
  let used := (selected.map AuthorizedClaim.cost).sum
  let rendered := renderDossier selected
  let dossier : ProofDossier := ⟨call.strategy, selected, used, rendered,
    dossierDigest c composer call.strategy selected used rendered⟩
  require (dossier.verify c composer call.sources call.maxBytes = true)
    (.valueError "dossier failed verification")
  pure dossier

end ProofRay.Answer
