/- The search over an unordered collection, in which no document reaches another
   (`materialized_proof_pressure_search.py`). -/

import ProofRay.Recall.ProofPressure
import ProofRay.Recall.SyndromeIndex

namespace ProofRay.Recall

variable {σ : Type} [Field σ] [LinearOrder σ] (log : σ → σ) (p : Bm25Parameters σ) (o : Observer)
  (d : Collection)

def plainParameters : Bm25Parameters σ := ⟨1.2, 0.75, 0, 0⟩

/-- `IndependentDocumentCavity.rank`, with the weights a search gives it. -/
def independentCavity (sublexicalWeight : σ) (queryText : String) : List (CavityScore σ) :=
  ((MaterializedRawCausalSyndromeIndex.components log p o d queryText).map fun item =>
    ({ factId := item.factId
       amplitude := item.lexical + sublexicalWeight * item.sublexical
       direct := item.lexical + sublexicalWeight * item.sublexical
       witnessFactIds := [] } : CavityScore σ)).insertionSort fun a b =>
    toLex (OrderDual.toDual a.amplitude, toLex (OrderDual.toDual a.direct, a.factId)) ≤
      toLex (OrderDual.toDual b.amplitude, toLex (OrderDual.toDual b.direct, b.factId))

theorem components_factIds (queryText : String) :
    (MaterializedRawCausalSyndromeIndex.components log p o d queryText).map
      SignedChannelScore.factId = d.documents.map RawCausalDocument.factId := by
  simp only [MaterializedRawCausalSyndromeIndex.components, normalize, List.map_map]
  rfl

theorem independentCavity_factIds (sublexicalWeight : σ) (queryText : String) :
    ((independentCavity log p o d sublexicalWeight queryText).map CavityScore.factId).Perm
      (d.documents.map RawCausalDocument.factId) := by
  rw [← components_factIds log p o d queryText]
  refine ((List.perm_insertionSort _ _).map _).trans ?_
  rw [List.map_map]
  exact List.Perm.refl _

variable [IsStrictOrderedRing σ]

theorem quarter_nonneg : (0 : σ) ≤ 0.25 := by norm_num

theorem sized_of_positive {documents : List RawCausalDocument} {frontierWidth : Int}
    (some_document : documents ≠ []) (positive : 1 ≤ frontierWidth) :
    documents ≠ [] ∧ 1 ≤ (1 : Int) ∧ 1 ≤ frontierWidth := ⟨some_document, Int.le_refl 1, positive⟩

/-- `MaterializedIndependentHorizonSearchEngine(documents, frontier_width=..)`. -/
def independentEngine (frontierWidth : Int) (positive : 1 ≤ frontierWidth) :
    HorizonSearchEngine σ where
  documents := d.documents
  sublexicalWeight := 0.25
  coreWidth := 1
  frontierWidth := frontierWidth
  observe := o.observe
  components := MaterializedRawCausalSyndromeIndex.components log p o d
  cavity := independentCavity log p o d 0.25
  sized := sized_of_positive d.some_document positive
  weighted := quarter_nonneg
  unique := d.unique
  components_ids := components_factIds log p o d
  cavity_ids := independentCavity_factIds log p o d 0.25

end ProofRay.Recall
