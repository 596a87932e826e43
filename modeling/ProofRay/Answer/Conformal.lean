/- Split conformal routing: the calibrator of p-values, and the generator of every eligible document
   whose p-value is above epsilon (`conformal_routing.py`). -/

import ProofRay.Answer.ClaimRouting
import ProofRay.Lib.Rank
import ProofRay.Lib.Rounding
import ProofRay.Recall.Independent

namespace ProofRay.Conformal

open Answer (QueryEnvelope RoutingIndex)
open ClaimRouting (candidateList leading nodup_eligible wholeTextObserver)
open Engine (PyError)
open Lib (Binary64 Dict Fraction bisectRight bisectRight_eq choices exists_countP_le_rank
  map_fst_choices perm_of_mem_choices rank_of_mem_choices)
open Lib.Guard
open OpenText (RouteDocument checked)
open Recall (Collection FieldWeights MaterializedRawCausalSyndromeIndex.rank
  MaterializedRawCausalSyndromeIndex.components Observer RawCausalDocument SignedChannelScore
  components_factIds items_update plainParameters ranked)
open SemanticRouter (Candidate CandidateList noteDocument noteIndex noteQuery)

/-- `sorted(scores)`. -/
def ascending {α : Type} [LinearOrder α] (scores : List α) : List α :=
  scores.insertionSort (· ≤ ·)

/-- `ConformalCalibrator`. -/
structure ConformalCalibrator (α : Type) [LinearOrder α] where
  calibrationScores : List α
  some_score : calibrationScores ≠ []
  sorted : calibrationScores = ascending calibrationScores

namespace ConformalCalibrator

variable {α : Type} [LinearOrder α]

/-- `ConformalCalibrator(..)`. -/
def make (calibrationScores : List α) : Except PyError (ConformalCalibrator α) :=
  if some_score : calibrationScores ≠ [] then
    if sorted : calibrationScores = ascending calibrationScores then
      .ok ⟨calibrationScores, some_score, sorted⟩
    else .error (.valueError "calibration_scores must be sorted ascending")
  else .error (.valueError "conformal calibration requires at least one calibration score")

/-- `p_value`: a quotient of floats. Lengths are far below `2 ^ 53`, so both sums are exact and the
division is rounded once. -/
def pValue (k : ConformalCalibrator α) (score : α) : Option Binary64 :=
  Binary64.nearest ⟨1 + bisectRight k.calibrationScores score, k.calibrationScores.length + 1⟩

/-- `p_value(score) > epsilon`. -/
def conforms (k : ConformalCalibrator α) (epsilon : Binary64) (score : α) : Bool :=
  (k.pValue score).any epsilon.less

end ConformalCalibrator

section

variable {σ : Type} [Field σ] [LinearOrder σ] (log : σ → σ) (o : Observer)

/-- `LEXICAL_SUBLEXICAL_WEIGHTS`. -/
def lexicalSublexicalWeights : FieldWeights σ := ⟨0.6, 0.4, 0, 0, 0, 0⟩

/-- `_document_index`. -/
def documentIndex (documents : List RouteDocument) : Except PyError Collection :=
  let raw := documents.map fun document =>
    (⟨document.factId, document.text, 0, 0⟩ : RawCausalDocument)
  checked (raw ≠ [] ∧ (raw.map RawCausalDocument.factId).Nodup)
    (fun holds => ⟨raw, holds.1, holds.2⟩) "materialized raw documents require unique FactIds"

def rankedFor (queryText : String) (documents : List RouteDocument) (weights : FieldWeights σ) :
    Except PyError (List (SignedChannelScore σ)) := do
  let index ← documentIndex documents
  MaterializedRawCausalSyndromeIndex.rank
    (MaterializedRawCausalSyndromeIndex.components log plainParameters o index queryText) weights

/-- `score_documents`. -/
def scoreDocuments (queryText : String) (documents : List RouteDocument)
    (weights : FieldWeights σ) : Except PyError (Dict Int σ) := do
  if documents = [] then return Dict.empty
  let ranked ← rankedFor log o queryText documents weights
  return Dict.empty.update (ranked.map fun item => (item.factId, item.amplitude))

/-- `ConformalDocumentGenerator`. -/
structure ConformalDocumentGenerator (σ : Type) [Field σ] [LinearOrder σ] where
  calibrator : ConformalCalibrator σ
  epsilon : Binary64
  weights : FieldWeights σ
  inside : 0 < epsilon.toRat ∧ epsilon.toRat < 1
  nonnegative : 0 ≤ weights.lexical ∧ 0 ≤ weights.sublexical ∧ 0 ≤ weights.entity ∧
    0 ≤ weights.relation ∧ 0 ≤ weights.observable ∧ 0 ≤ weights.contradiction

/-- `ConformalDocumentGenerator(..)`. -/
def ConformalDocumentGenerator.make (calibrator : ConformalCalibrator σ) (epsilon : Binary64)
    (weights : FieldWeights σ) : Except PyError (ConformalDocumentGenerator σ) :=
  if inside : 0 < epsilon.toRat ∧ epsilon.toRat < 1 then
    checked (0 ≤ weights.lexical ∧ 0 ≤ weights.sublexical ∧ 0 ≤ weights.entity ∧
        0 ≤ weights.relation ∧ 0 ≤ weights.observable ∧ 0 ≤ weights.contradiction)
      (fun nonnegative => ⟨calibrator, epsilon, weights, inside, nonnegative⟩)
      "six non-negative channel weights are required"
  else .error (.valueError "epsilon must be in (0,1)")

theorem unspanned : ∀ s ∈ (none : Option Answer.Span), s.1 < s.2 :=
  fun _ member => absurd member (Option.not_mem_none _)

def candidate (sameSession : Bool) (item : SignedChannelScore σ × Nat) : Candidate σ where
  factId := item.1.factId
  score := item.1.amplitude
  channel := "conformal"
  rank := item.2
  space := if sameSession then "scope_session" else "scope_fallback"
  claimSpan := none
  checked := unspanned

/-- `ConformalDocumentGenerator.generate`. -/
def ConformalDocumentGenerator.generate (g : ConformalDocumentGenerator σ) (query : QueryEnvelope)
    (index : RoutingIndex) (limit : Int) (sameSession : Bool) :
    Except PyError (CandidateList σ) := do
  let eligible := index.eligible query sameSession
  if eligible = [] then candidateList []
  else
    let ranked ← rankedFor log o query.text eligible g.weights
    let included := ranked.filter fun item => g.calibrator.conforms g.epsilon item.amplitude
    candidateList (((leading included limit).zipIdx 1).map (candidate sameSession))

end

section

variable {α : Type} [LinearOrder α]

theorem ascending_sorted (scores : List α) : (ascending scores).Pairwise (· ≤ ·) :=
  List.pairwise_insertionSort _ scores

variable {scores : List α} {epsilon : Binary64}

theorem exists_make (some_score : scores ≠ []) :
    ∃ k, ConformalCalibrator.make (ascending scores) = .ok k ∧
      k.calibrationScores = ascending scores := by
  have nonempty : ascending scores ≠ [] := by
    intro empty
    have length := (List.perm_insertionSort (· ≤ ·) scores).length_eq
    rw [show scores.insertionSort (· ≤ ·) = [] from empty] at length
    exact some_score (List.length_eq_zero_iff.mp length.symm)
  have sorted : ascending scores = ascending (ascending scores) :=
    ((ascending_sorted scores).insertionSort_eq).symm
  refine ⟨⟨ascending scores, nonempty, sorted⟩, ?_, rfl⟩
  unfold ConformalCalibrator.make
  rw [dif_pos nonempty, dif_pos sorted]

/-- Of the choices of one score as the test score, the others being the calibration's, those that
get a p-value of at most epsilon. -/
def refused (scores : List α) (epsilon : Binary64) : Nat :=
  (choices scores).countP fun e =>
    (ConformalCalibrator.make (ascending e.2)).toOption.any fun k => !k.conforms epsilon e.1

def low (total : Nat) (epsilon : Binary64) (place : Nat) : Bool :=
  !(Binary64.nearest ⟨place, total⟩).any epsilon.less

theorem rank_ascending (scores : List α) (score : α) :
    Lib.rank (ascending scores) score = Lib.rank scores score :=
  Lib.rank_perm (List.perm_insertionSort _ scores) score

theorem refused_eq (enough : 2 ≤ scores.length) (epsilon : Binary64) :
    refused scores epsilon =
      scores.countP fun score => low scores.length epsilon (Lib.rank scores score) := by
  have by_rank : ∀ e ∈ choices scores,
      ((ConformalCalibrator.make (ascending e.2)).toOption.any fun k => !k.conforms epsilon e.1) =
        low scores.length epsilon (Lib.rank scores e.1) := by
    intro e member
    have length := (perm_of_mem_choices member).length_eq
    rw [List.length_cons] at length
    have others : e.2 ≠ [] := by
      intro empty
      rw [empty, List.length_nil] at length
      omega
    obtain ⟨k, made, stored⟩ := exists_make others
    have length' : k.calibrationScores.length + 1 = scores.length := by
      rw [stored, show (ascending e.2).length = e.2.length from List.length_insertionSort _ _]
      exact length
    have counted : 1 + bisectRight k.calibrationScores e.1 = Lib.rank scores e.1 := by
      rw [stored, bisectRight_eq (ascending_sorted e.2), rank_ascending]
      exact rank_of_mem_choices member
    rw [made]
    show (!k.conforms epsilon e.1) = _
    rw [ConformalCalibrator.conforms, ConformalCalibrator.pValue, counted, length', low]
  have projected := congrArg
    (List.countP fun score => low scores.length epsilon (Lib.rank scores score))
    (map_fst_choices scores)
  rw [List.countP_map] at projected
  rw [refused, ← projected]
  refine List.countP_congr fun e member => ?_
  rw [by_rank e member]
  rfl

theorem exists_refused_le (enough : 2 ≤ scores.length) (some_refused : refused scores epsilon ≠ 0) :
    ∃ place, 1 ≤ place ∧ place ≤ scores.length ∧ refused scores epsilon ≤ place ∧
      low scores.length epsilon place = true := by
  rw [refused_eq enough] at some_refused ⊢
  obtain ⟨score, -, is_low, bound⟩ := exists_countP_le_rank scores _ some_refused
  exact ⟨_, by omega, Lib.rank_le_length scores score, bound, is_low⟩

theorem quotient_le_of_low {total place : Nat} (some_total : 0 < total) (inside : place ≤ total)
    (is_low : low total epsilon place = true) :
    (place : ℚ) / total ≤ epsilon.toRat + 1 / 2 ^ 54 := by
  obtain ⟨p, found, near⟩ := Binary64.nearest_error (q := ⟨place, total⟩) some_total inside
  have at_most : p.toRat ≤ epsilon.toRat := by
    rw [low, found, Option.any_some, Bool.not_eq_true', ← Bool.not_eq_true] at is_low
    exact le_of_not_gt (mt Binary64.less_iff.mpr is_low)
  have close := (abs_le.mp near).1
  have value : (⟨place, total⟩ : Fraction).toRat = (place : ℚ) / total := rfl
  rw [value] at close
  linarith

theorem refused_le (enough : 2 ≤ scores.length) (epsilon : Binary64) :
    (refused scores epsilon : ℚ) ≤ epsilon.toRat * scores.length + scores.length / 2 ^ 54 := by
  have total_pos : (0 : ℚ) < scores.length := by exact_mod_cast (by omega : 0 < scores.length)
  by_cases none_refused : refused scores epsilon = 0
  · rw [none_refused]
    have nonneg := epsilon.toRat_nonneg
    positivity
  · obtain ⟨place, -, inside, bound, is_low⟩ := exists_refused_le enough none_refused
    have quotient := quotient_le_of_low (by omega) inside is_low
    rw [div_le_iff₀ total_pos] at quotient
    calc (refused scores epsilon : ℚ) ≤ place := by exact_mod_cast bound
      _ ≤ (epsilon.toRat + 1 / 2 ^ 54) * scores.length := quotient
      _ = epsilon.toRat * scores.length + scores.length / 2 ^ 54 := by ring

theorem refused_le_of_exact {scores : List α} (enough : 2 ≤ scores.length) {epsilon : Binary64}
    (exact : ∀ place, 1 ≤ place → place ≤ scores.length →
      epsilon.toRat < (place : ℚ) / scores.length → low scores.length epsilon place = false) :
    (refused scores epsilon : ℚ) ≤ epsilon.toRat * scores.length := by
  have total_pos : (0 : ℚ) < scores.length := by exact_mod_cast (by omega : 0 < scores.length)
  by_cases none_refused : refused scores epsilon = 0
  · rw [none_refused]
    have nonneg := epsilon.toRat_nonneg
    positivity
  · obtain ⟨place, first, inside, bound, is_low⟩ := exists_refused_le enough none_refused
    have quotient : (place : ℚ) / scores.length ≤ epsilon.toRat := by
      by_contra above
      rw [exact place first inside (lt_of_not_ge above)] at is_low
      cases is_low
    rw [div_le_iff₀ total_pos] at quotient
    calc (refused scores epsilon : ℚ) ≤ place := by exact_mod_cast bound
      _ ≤ epsilon.toRat * scores.length := quotient

end

section

variable {σ : Type} [Field σ] [LinearOrder σ] (log : σ → σ) (o : Observer)

variable {rows : List (SignedChannelScore σ)} {documents : List RouteDocument}

theorem documentIndex_eq (some_document : documents ≠ [])
    (unique : (documents.map fun document => (document.factId : Int)).Nodup) :
    ∃ d, documentIndex documents = .ok d ∧
      d.documents.map RawCausalDocument.factId =
        documents.map fun document => (document.factId : Int) := by
  have nonempty : (documents.map fun document =>
      (⟨document.factId, document.text, 0, 0⟩ : RawCausalDocument)) ≠ [] := by
    simpa using some_document
  have unique' : ((documents.map fun document =>
      (⟨document.factId, document.text, 0, 0⟩ : RawCausalDocument)).map
        RawCausalDocument.factId).Nodup := by
    rw [List.map_map]
    exact unique
  refine ⟨⟨_, nonempty, unique'⟩, OpenText.checked_eq_ok.mpr ⟨⟨nonempty, unique'⟩, rfl⟩, ?_⟩
  show List.map RawCausalDocument.factId (List.map _ documents) = _
  rw [List.map_map]
  rfl

theorem rankedFor_spec {documents : List RouteDocument} {w : FieldWeights σ} (queryText : String)
    (some_document : documents ≠ [])
    (unique : (documents.map fun document => (document.factId : Int)).Nodup)
    (nonnegative : 0 ≤ w.lexical ∧ 0 ≤ w.sublexical ∧ 0 ≤ w.entity ∧ 0 ≤ w.relation ∧
      0 ≤ w.observable ∧ 0 ≤ w.contradiction) :
    ∃ rows, rankedFor log o queryText documents w = .ok rows ∧
      (rows.map SignedChannelScore.factId).Perm
        (documents.map fun document => (document.factId : Int)) ∧
      rows.Pairwise fun a b => b.amplitude ≤ a.amplitude := by
  obtain ⟨d, indexed, named⟩ := documentIndex_eq some_document unique
  refine ⟨ranked (MaterializedRawCausalSyndromeIndex.components log plainParameters o d queryText)
    w, ?_, ?_, ?_⟩
  · unfold rankedFor
    rw [indexed]
    show MaterializedRawCausalSyndromeIndex.rank _ w = _
    unfold MaterializedRawCausalSyndromeIndex.rank
    rw [require_of nonnegative]
    rfl
  · have rows : ((MaterializedRawCausalSyndromeIndex.components log plainParameters o d
        queryText).map fun row => row.weighed w).map SignedChannelScore.factId =
        d.documents.map RawCausalDocument.factId := by
      rw [← components_factIds log plainParameters o d queryText, List.map_map]
      rfl
    rw [← named, ← rows]
    exact (List.perm_insertionSort _ _).map _
  · have total := List.pairwise_insertionSort (fun a b : SignedChannelScore σ =>
      toLex (OrderDual.toDual a.amplitude, a.factId) ≤
        toLex (OrderDual.toDual b.amplitude, b.factId))
      ((MaterializedRawCausalSyndromeIndex.components log plainParameters o d queryText).map
        fun row => row.weighed w)
    refine total.imp fun ordered => ?_
    rcases Prod.Lex.le_iff.mp ordered with less | ⟨same, _⟩
    · exact OrderDual.toDual_le_toDual.mp (le_of_lt less)
    · exact le_of_eq (OrderDual.toDual_inj.mp same).symm

omit [Field σ] [LinearOrder σ] in
theorem get_scores (unique : (rows.map SignedChannelScore.factId).Nodup) (factId : Int)
    (score : σ) :
    (Dict.empty.update (rows.map fun item => (item.factId, item.amplitude))).get factId =
        some score ↔
      ∃ row ∈ rows, row.factId = factId ∧ row.amplitude = score := by
  have keys : ((rows.map fun item => (item.factId, item.amplitude)).map Prod.fst).Nodup := by
    rw [List.map_map]
    exact unique
  rw [Dict.get_eq_some_iff, items_update keys (fun e _ => List.not_mem_nil)]
  simp only [Dict.empty, List.nil_append, List.mem_map, Prod.mk.injEq]

/-- What a limit leaves of the eligible documents whose scores conform: all of them, or as many as
the limit with none of a higher score left out. -/
structure Returned (eligible : List RouteDocument) (scored : Dict Int σ) (conforms : σ → Bool)
    (limit : Int) (candidates : List (Candidate σ)) : Prop where
  conforming : ∀ candidate ∈ candidates, ∃ document ∈ eligible,
    candidate.factId = document.factId ∧ scored.get document.factId = some candidate.score ∧
      conforms candidate.score = true
  complete : (eligible.countP fun document => (scored.get document.factId).any conforms : Int) ≤
      limit → ∀ document ∈ eligible, (scored.get document.factId).any conforms = true →
        ∃ candidate ∈ candidates, candidate.factId = document.factId
  full : limit < (eligible.countP fun document => (scored.get document.factId).any conforms : Int) →
    (candidates.length : Int) = limit
  best : ∀ document ∈ eligible, ∀ score, scored.get document.factId = some score →
    conforms score = true → (∀ candidate ∈ candidates, candidate.factId ≠ document.factId) →
      ∀ candidate ∈ candidates, score ≤ candidate.score

omit [Field σ] [LinearOrder σ] in
theorem map_candidate_score (sameSession : Bool) (rows : List (SignedChannelScore σ)) :
    ((rows.zipIdx 1).map (candidate sameSession)).map (fun c => (c.factId, c.score)) =
      rows.map fun row => (row.factId, row.amplitude) := by
  rw [List.map_map]
  conv_rhs => rw [← List.zipIdx_map_fst 1 rows, List.map_map]
  rfl

omit [Field σ] [LinearOrder σ] in
theorem nodup_identities {rows kept : List (SignedChannelScore σ)} (sameSession : Bool)
    (unique : (rows.map SignedChannelScore.factId).Nodup) (sublist : kept.Sublist rows) :
    (((kept.zipIdx 1).map (candidate sameSession)).map Candidate.identity).Nodup := by
  have ids := congrArg (List.map fun e : Int × σ => (e.1, (none : Option Answer.Span)))
    (map_candidate_score sameSession kept)
  simp only [List.map_map] at ids
  have renamed : (((kept.zipIdx 1).map (candidate sameSession)).map Candidate.identity) =
      (kept.map SignedChannelScore.factId).map fun factId => (factId, none) := by
    rw [List.map_map, List.map_map]
    exact ids
  rw [renamed]
  exact ((sublist.map SignedChannelScore.factId).nodup unique).map
    fun _ _ same => (Prod.mk.inj same).1

variable {eligible : List RouteDocument}

omit [Field σ] [LinearOrder σ] in
theorem countP_conforms {eligible : List RouteDocument} {rows : List (SignedChannelScore σ)}
    (unique : (rows.map SignedChannelScore.factId).Nodup)
    (named : (rows.map SignedChannelScore.factId).Perm
      (eligible.map fun document => (document.factId : Int))) (conforms : σ → Bool) :
    (eligible.countP fun document =>
      ((Dict.empty.update (rows.map fun item => (item.factId, item.amplitude))).get
        document.factId).any conforms) =
      (rows.filter fun item => conforms item.amplitude).length := by
  have by_id := named.symm.countP_eq fun factId =>
    ((Dict.empty.update (rows.map fun item => (item.factId, item.amplitude))).get
      factId).any conforms
  rw [List.countP_map, List.countP_map] at by_id
  rw [← List.countP_eq_length_filter]
  refine by_id.trans (List.countP_congr fun row member => ?_)
  rw [Function.comp_apply, (get_scores unique _ _).mpr ⟨row, member, rfl, rfl⟩, Option.any_some]

omit [Field σ] in
theorem returned_take {eligible : List RouteDocument} {rows : List (SignedChannelScore σ)}
    (unique : (rows.map SignedChannelScore.factId).Nodup)
    (named : (rows.map SignedChannelScore.factId).Perm
      (eligible.map fun document => (document.factId : Int)))
    (falling : rows.Pairwise fun a b => b.amplitude ≤ a.amplitude) (conforms : σ → Bool)
    (sameSession : Bool) (n : Nat) :
    Returned eligible (Dict.empty.update (rows.map fun item => (item.factId, item.amplitude)))
      conforms n
      (((((rows.filter fun item => conforms item.amplitude).take n).zipIdx 1)).map
        (candidate sameSession)) := by
  have score_of {row : SignedChannelScore σ} (member : row ∈ rows) :
      (Dict.empty.update (rows.map fun item => (item.factId, item.amplitude))).get row.factId =
        some row.amplitude := (get_scores unique _ _).mpr ⟨row, member, rfl, rfl⟩
  have listed := map_candidate_score sameSession
    ((rows.filter fun item => conforms item.amplitude).take n)
  have row_of {c : Candidate σ} (member : c ∈ ((((rows.filter fun item =>
      conforms item.amplitude).take n).zipIdx 1)).map (candidate sameSession)) :
      ∃ row ∈ (rows.filter fun item => conforms item.amplitude).take n,
        row.factId = c.factId ∧ row.amplitude = c.score := by
    have there := List.mem_map_of_mem (f := fun c : Candidate σ => (c.factId, c.score)) member
    rw [listed] at there
    obtain ⟨row, taken, same⟩ := List.mem_map.mp there
    exact ⟨row, taken, (Prod.mk.inj same).1, (Prod.mk.inj same).2⟩
  have candidate_of {row : SignedChannelScore σ}
      (member : row ∈ (rows.filter fun item => conforms item.amplitude).take n) :
      ∃ c ∈ ((((rows.filter fun item => conforms item.amplitude).take n).zipIdx 1)).map
        (candidate sameSession), c.factId = row.factId := by
    have there := List.mem_map_of_mem (f := fun row : SignedChannelScore σ =>
      (row.factId, row.amplitude)) member
    rw [← listed] at there
    obtain ⟨c, taken, same⟩ := List.mem_map.mp there
    exact ⟨c, taken, (Prod.mk.inj same).1⟩
  have row_for {document : RouteDocument} (member : document ∈ eligible) :
      ∃ row ∈ rows, row.factId = document.factId :=
    List.mem_map.mp (named.symm.subset (List.mem_map_of_mem member))
  have counted := countP_conforms unique named conforms
  constructor
  · intro c member
    obtain ⟨row, taken, same_id, same_score⟩ := row_of member
    obtain ⟨here, holds⟩ := List.mem_filter.mp (List.mem_of_mem_take taken)
    obtain ⟨document, there, same⟩ := List.mem_map.mp (named.subset (List.mem_map_of_mem here))
    refine ⟨document, there, ?_, ?_, ?_⟩
    · exact same_id.symm.trans same.symm
    · rw [same, score_of here, same_score]
    · rw [← same_score]
      exact holds
  · intro few document member holds
    rw [counted] at few
    obtain ⟨row, here, same⟩ := row_for member
    rw [← same, score_of here, Option.any_some] at holds
    have taken : row ∈ (rows.filter fun item => conforms item.amplitude).take n := by
      rw [List.take_of_length_le (by exact_mod_cast few)]
      exact List.mem_filter.mpr ⟨here, holds⟩
    obtain ⟨c, listed_there, id⟩ := candidate_of taken
    exact ⟨c, listed_there, id.trans same⟩
  · intro many
    rw [counted] at many
    rw [List.length_map, List.length_zipIdx, List.length_take, Nat.min_eq_left]
    exact_mod_cast many.le
  · intro document member score scored holds omitted c listed_there
    obtain ⟨row, here, same⟩ := row_for member
    rw [← same, score_of here] at scored
    cases scored
    have included : row ∈ rows.filter fun item => conforms item.amplitude :=
      List.mem_filter.mpr ⟨here, holds⟩
    rw [← List.take_append_drop n (rows.filter fun item => conforms item.amplitude)] at included
    have left_out : row ∈ (rows.filter fun item => conforms item.amplitude).drop n := by
      rcases List.mem_append.mp included with taken | dropped
      · obtain ⟨c', there, id⟩ := candidate_of taken
        exact absurd (id.trans same) (omitted c' there)
      · exact dropped
    obtain ⟨row', taken, -, same_score⟩ := row_of listed_there
    have ordered : (rows.filter fun item => conforms item.amplitude).Pairwise
        fun a b => b.amplitude ≤ a.amplitude := falling.sublist List.filter_sublist
    rw [← List.take_append_drop n (rows.filter fun item => conforms item.amplitude)] at ordered
    rw [← same_score]
    exact (List.pairwise_append.mp ordered).2.2 row' taken row left_out

def room (limit : Int) (conforming : Nat) : Int :=
  if 0 ≤ limit then limit else max 0 (conforming + limit)

theorem leading_eq_take {α : Type} (l : List α) (limit : Int) :
    ∃ n : Nat, room limit l.length = n ∧ leading l limit = l.take n := by
  cases limit with
  | ofNat n => exact ⟨n, if_pos (Int.natCast_nonneg n), rfl⟩
  | negSucc n =>
    refine ⟨l.length - (n + 1), ?_, rfl⟩
    rw [room, if_neg (by omega)]
    omega

theorem generate_returns {index : RoutingIndex} (made : RoutingIndex.make documents = .ok index)
    (g : ConformalDocumentGenerator σ) (query : QueryEnvelope) (limit : Int) (sameSession : Bool) :
    ∃ scored result,
      scoreDocuments log o query.text (index.eligible query sameSession) g.weights = .ok scored ∧
      g.generate log o query index limit sameSession = .ok result ∧
      (∀ document ∈ index.eligible query sameSession,
        ∃ score, scored.get document.factId = some score) ∧
      Returned (index.eligible query sameSession) scored
        (g.calibrator.conforms g.epsilon)
        (room limit ((index.eligible query sameSession).countP fun document =>
          (scored.get document.factId).any (g.calibrator.conforms g.epsilon)))
        result.candidates := by
  have unique := nodup_eligible made query sameSession
  unfold scoreDocuments ConformalDocumentGenerator.generate
  generalize index.eligible query sameSession = eligible at unique ⊢
  by_cases none_eligible : eligible = []
  · subst none_eligible
    refine ⟨Dict.empty, ⟨[], List.nodup_nil⟩, rfl, rfl,
      fun _ member => absurd member List.not_mem_nil, ?_⟩
    exact {
      conforming := fun _ member => absurd member List.not_mem_nil
      complete := fun _ _ member => absurd member List.not_mem_nil
      full := fun many => by
        unfold room at many ⊢
        simp only [List.countP_nil, Nat.cast_zero] at many ⊢
        split_ifs at many ⊢ <;> simp only [List.length_nil] <;> omega
      best := fun _ member => absurd member List.not_mem_nil }
  · obtain ⟨rows, ranked_rows, named, falling⟩ :=
      rankedFor_spec log o query.text none_eligible unique g.nonnegative
    have unique_rows := named.nodup_iff.mpr unique
    obtain ⟨n, places, taken⟩ := leading_eq_take
      (rows.filter fun item => g.calibrator.conforms g.epsilon item.amplitude) limit
    have returned := returned_take unique_rows named falling (g.calibrator.conforms g.epsilon)
      sameSession n
    have identities := nodup_identities sameSession unique_rows
      ((List.take_sublist n _).trans (List.filter_sublist
        (p := fun item => g.calibrator.conforms g.epsilon item.amplitude)))
    refine ⟨Dict.empty.update (rows.map fun item => (item.factId, item.amplitude)),
      ⟨_, identities⟩, ?_, ?_, ?_, ?_⟩
    · rw [if_neg none_eligible, ranked_rows]
      rfl
    · simp only [if_neg none_eligible, ranked_rows]
      show candidateList (((leading (rows.filter fun item =>
        g.calibrator.conforms g.epsilon item.amplitude) limit).zipIdx 1).map _) = _
      rw [taken]
      exact OpenText.checked_eq_ok.mpr ⟨identities, rfl⟩
    · intro document member
      obtain ⟨row, here, same⟩ := List.mem_map.mp (named.symm.subset (List.mem_map_of_mem member))
      exact ⟨row.amplitude, (get_scores unique_rows _ _).mpr ⟨row, here, same, rfl⟩⟩
    · rw [countP_conforms unique_rows named, places]
      exact returned

end

section

variable {α : Type} [LinearOrder α] {σ : Type} [Field σ] [LinearOrder σ] (log : σ → σ)
  (o : Observer)

end

def third : Binary64 := ⟨6004799503160661, -54⟩

theorem third_inside : 0 < third.toRat ∧ third.toRat < 1 := by
  rw [Binary64.toRat_eq]
  norm_num [third]

theorem sorted_three : ([0, 1, 2] : List ℚ) = ascending [0, 1, 2] := by decide +kernel

def threeScores : ConformalCalibrator ℚ := ⟨[0, 1, 2], List.cons_ne_nil _ _, sorted_three⟩

theorem weights_nonneg : 0 ≤ (lexicalSublexicalWeights (σ := ℚ)).lexical ∧
    0 ≤ (lexicalSublexicalWeights (σ := ℚ)).sublexical ∧
    0 ≤ (lexicalSublexicalWeights (σ := ℚ)).entity ∧
    0 ≤ (lexicalSublexicalWeights (σ := ℚ)).relation ∧
    0 ≤ (lexicalSublexicalWeights (σ := ℚ)).observable ∧
    0 ≤ (lexicalSublexicalWeights (σ := ℚ)).contradiction := by
  norm_num [lexicalSublexicalWeights]

def thirdGenerator : ConformalDocumentGenerator ℚ :=
  ⟨threeScores, third, lexicalSublexicalWeights, third_inside, weights_nonneg⟩

end ProofRay.Conformal
