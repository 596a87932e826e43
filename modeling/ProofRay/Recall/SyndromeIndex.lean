/- The signed field of scores over a collection: the raw index and the materialized one
   (`raw_causal_channels.py`, `materialized_proof_pressure_search.py`). -/

import Mathlib.Analysis.SpecialFunctions.Log.Basic
import ProofRay.Engine.Basis
import ProofRay.Lib.Dict
import ProofRay.Recall.Channels

namespace ProofRay.Recall

open Engine (PyError)
open Lib (Dict)
open Lib.Guard

/-- What is observed of a text: `observe_raw_text`, and `_modal_is_confirmed_finding`. -/
structure Observer where
  observe : String → Bool → RawCausalChannels
  confirmedFinding : String → Bool

/-- A collection both indexes accept. -/
structure Collection where
  documents : List RawCausalDocument
  some_document : documents ≠ []
  unique : (documents.map RawCausalDocument.factId).Nodup

def RawCausalChannels.silent : RawCausalChannels :=
  ⟨[], [], [], [], [], [], .positive, .asserted, .none⟩

/-- The parameters of both indexes. -/
structure Bm25Parameters (σ : Type) where
  k1 : σ
  b : σ
  lexicalDelta : σ
  sublexicalDelta : σ

section

variable (o : Observer) (d : Collection)

/-- `{item.fact_id: observe_raw_text(item.text) for item in documents}`. -/
def channels : Dict Int RawCausalChannels :=
  Dict.empty.update (d.documents.map fun item => (item.factId, o.observe item.text false))

/-- `channels[fact_id]`. -/
def channel (factId : Int) : RawCausalChannels := ((channels o d).get factId).getD .silent

/-- `channels.values()`. -/
def values : List RawCausalChannels := (channels o d).items.map Prod.snd

end

section

variable {σ : Type} [Field σ] [LinearOrder σ]

/-- `maximum`, by which a column is divided. -/
def scale (column : List σ) : σ :=
  let maximum := (column.map fun x => |x|).foldl max 0
  if maximum = 0 then 1 else maximum

/-- `_normalize`, of the five columns that are normalized. -/
def normalize (rows : List (SignedChannelScore σ)) : List (SignedChannelScore σ) :=
  rows.map fun row =>
    { row with
      lexical := row.lexical / scale (rows.map SignedChannelScore.lexical)
      sublexical := row.sublexical / scale (rows.map SignedChannelScore.sublexical)
      entity := row.entity / scale (rows.map SignedChannelScore.entity)
      relation := row.relation / scale (rows.map SignedChannelScore.relation)
      observable := row.observable / scale (rows.map SignedChannelScore.observable) }

def overlap (l l' : List String) : Nat := (l.dedup.filter fun value => value ∈ l').length

def observable (query value : RawCausalChannels) : σ :=
  (if query.interrogative = .time ∧ (value.temporal ≠ [] ∨ value.numbers ≠ []) then 1 else 0) +
  (if (query.interrogative = .person ∨ query.interrogative = .place) ∧ value.entities ≠ []
    then 1 else 0) +
  (if query.interrogative = .quantity ∧ (value.numbers ≠ [] ∨ 2 ≤ value.entities.length)
    then 1 else 0) +
  (if query.numbers ≠ [] ∧ overlap query.numbers value.numbers ≠ 0 then 1 else 0)

end

namespace RawCausalSyndromeIndex

variable {σ : Type} [Field σ] [LinearOrder σ] (log : σ → σ) (p : Bm25Parameters σ) (o : Observer)
  (d : Collection)

/-- `df`. -/
def df (token : String) : Nat :=
  d.documents.countP fun item => token ∈ (channel o d item.factId).lexical

/-- `sub_df`. -/
def subDf (token : String) : Nat :=
  d.documents.countP fun item => token ∈ (channel o d item.factId).sublexical

/-- `avgdl`. -/
def avgdl : σ :=
  ((d.documents.map fun item => (channel o d item.factId).lexical.length).sum : Nat) /
    (d.documents.length : σ)

/-- `average_sub`. -/
def averageSub : σ :=
  (((values o d).map fun value => value.sublexical.length).sum : Nat) / (d.documents.length : σ)

/-- `_bm25`. -/
def bm25 (query document : List String) (df : String → Nat) (averageLength delta : σ) : σ :=
  (query.dedup.map fun token =>
    let frequency : σ := (document.count token : Nat)
    if document.count token = 0 then 0
    else
      let idf := log (1 + ((d.documents.length : σ) - df token + 1 / 2) / (df token + 1 / 2))
      let normalizedTf := frequency * (p.k1 + 1) / (frequency + p.k1 *
        (1 - p.b + p.b * document.length / max averageLength (1 / 10 ^ 9)))
      idf * (normalizedTf + delta)).sum

def contradiction (query value : RawCausalChannels) : σ :=
  (if query.numbers ≠ [] ∧ value.numbers ≠ [] ∧ overlap query.numbers value.numbers = 0
    then 1 else 0) +
  (if query.polarity = .negative ∧ value.polarity = .positive then 1 / 2 else 0) +
  (if query.modality = .asserted ∧ value.modality = .modal then 1 / 4 else 0)

def row (query : RawCausalChannels) (item : RawCausalDocument) : SignedChannelScore σ :=
  let value := channel o d item.factId
  { factId := item.factId
    amplitude := 0
    lexical := bm25 log p d query.lexical value.lexical (df o d) (avgdl o d) p.lexicalDelta
    sublexical := bm25 log p d query.sublexical value.sublexical (subDf o d) (averageSub o d)
      p.sublexicalDelta
    entity := (overlap query.entities value.entities : Nat)
    relation := (overlap query.relations value.relations : Nat)
    observable := observable query value
    contradiction := contradiction query value }

/-- `components`. -/
def components (queryText : String) : List (SignedChannelScore σ) :=
  normalize (d.documents.map (row log p o d (o.observe queryText true)))

/-- `rank`. -/
def rank (components : List (SignedChannelScore σ)) (w : FieldWeights σ) :
    Except PyError (List (SignedChannelScore σ)) := do
  require (0 ≤ w.lexical ∧ 0 ≤ w.sublexical ∧ 0 ≤ w.entity ∧ 0 ≤ w.relation ∧ 0 ≤ w.observable ∧
    0 ≤ w.contradiction) (.valueError "six non-negative signed-field weights are required")
  return ranked components w

end RawCausalSyndromeIndex

namespace MaterializedRawCausalSyndromeIndex

variable {σ : Type} [Field σ] [LinearOrder σ] (log : σ → σ) (p : Bm25Parameters σ) (o : Observer)
  (d : Collection)

/-- `{key: f(value) for key, value in channels.items()}`, read at a key. -/
def kept {α : Type} (f : RawCausalChannels → α) (none : α) (factId : Int) : α :=
  ((Dict.empty.update ((channels o d).items.map fun e => (e.1, f e.2))).get factId).getD none

/-- `lexical_tf[fact_id][token]`. -/
def lexicalTf (factId : Int) (token : String) : Nat :=
  kept o d (fun value token => value.lexical.count token) (fun _ => 0) factId token

/-- `sublexical_tf[fact_id][token]`. -/
def sublexicalTf (factId : Int) (token : String) : Nat :=
  kept o d (fun value token => value.sublexical.count token) (fun _ => 0) factId token

/-- `lexical_df`. -/
def lexicalDf (token : String) : Nat := (values o d).countP fun value => token ∈ value.lexical

/-- `sublexical_df`. -/
def sublexicalDf (token : String) : Nat :=
  (values o d).countP fun value => token ∈ value.sublexical

/-- `avgdl`. -/
def avgdl : σ :=
  (((values o d).map fun value => value.lexical.length).sum : Nat) / (d.documents.length : σ)

/-- `avg_subdl`. -/
def avgSubdl : σ :=
  (((values o d).map fun value => value.sublexical.length).sum : Nat) / (d.documents.length : σ)

/-- `entity_sets[fact_id]`. -/
def entitySet (factId : Int) : List String :=
  kept o d (fun value => value.entities.dedup) [] factId

/-- `relation_sets[fact_id]`. -/
def relationSet (factId : Int) : List String :=
  kept o d (fun value => value.relations.dedup) [] factId

/-- `_bm25`. -/
def bm25 (query : List String) (tf : String → Nat) (length : Nat) (df : String → Nat)
    (averageLength delta : σ) : σ :=
  (query.dedup.map fun token =>
    let frequency : σ := (tf token : Nat)
    if tf token = 0 then 0
    else
      let inverse := log (1 + ((d.documents.length : σ) - df token + 1 / 2) / (df token + 1 / 2))
      let normalizedTf := frequency * (p.k1 + 1) / (frequency + p.k1 *
        (1 - p.b + p.b * length / max averageLength (1 / 10 ^ 9)))
      inverse * (normalizedTf + delta)).sum

/-- The declared conflicts of a document with the query: differing numbers are none, and neither
is a modal that reports a confirmed finding. -/
def contradiction (query value : RawCausalChannels) (text : String) : σ :=
  (if query.polarity = .negative ∧ value.polarity = .positive then 1 / 2 else 0) +
  (if query.modality = .asserted ∧ value.modality = .modal ∧ o.confirmedFinding text = false
    then 1 / 4 else 0)

def row (query : RawCausalChannels) (item : RawCausalDocument) : SignedChannelScore σ :=
  let value := channel o d item.factId
  { factId := item.factId
    amplitude := 0
    lexical := bm25 log p d query.lexical (lexicalTf o d item.factId) value.lexical.length
      (lexicalDf o d) (avgdl o d) p.lexicalDelta
    sublexical := bm25 log p d query.sublexical (sublexicalTf o d item.factId)
      value.sublexical.length (sublexicalDf o d) (avgSubdl o d) p.sublexicalDelta
    entity := (overlap query.entities (entitySet o d item.factId) : Nat)
    relation := (overlap query.relations (relationSet o d item.factId) : Nat)
    observable := observable query value
    contradiction := contradiction o query value item.text }

/-- `components`. -/
def components (queryText : String) : List (SignedChannelScore σ) :=
  normalize (d.documents.map (row log p o d (o.observe queryText true)))

/-- `rank`, without a bonus for specificity. -/
def rank (components : List (SignedChannelScore σ)) (w : FieldWeights σ) :
    Except PyError (List (SignedChannelScore σ)) := do
  require (0 ≤ w.lexical ∧ 0 ≤ w.sublexical ∧ 0 ≤ w.entity ∧ 0 ≤ w.relation ∧ 0 ≤ w.observable ∧
    0 ≤ w.contradiction) (.valueError "six non-negative signed-field weights are required")
  return ranked components w

end MaterializedRawCausalSyndromeIndex

section

variable {κ : Type} {α : Type} [DecidableEq κ]

theorem items_update {d : Dict κ α} {l : List (κ × α)} (nodup : (l.map Prod.fst).Nodup)
    (fresh : ∀ e ∈ l, e.1 ∉ d.keys) : (d.update l).items = d.items ++ l := by
  have put (k : κ) (a : α) : ∀ l : List (κ × α), k ∉ l.map Prod.fst →
      Dict.putEntry k a l = l ++ [(k, a)] := by
    intro l absent
    induction l with
    | nil => rfl
    | cons e rest ih =>
      simp only [List.map_cons, List.mem_cons, not_or] at absent
      simp only [Dict.putEntry, if_neg (Ne.symm absent.1), ih absent.2, List.cons_append]
  induction l generalizing d with
  | nil => simp
  | cons e rest ih =>
    obtain ⟨head, tail⟩ := List.nodup_cons.mp nodup
    have here : (d.set e.1 e.2).items = d.items ++ [e] := put e.1 e.2 d.items
      (fresh e List.mem_cons_self)
    rw [Dict.update_cons, ih tail, here, List.append_assoc, List.singleton_append]
    intro e' member known
    rw [Dict.keys, here, List.map_append] at known
    rcases List.mem_append.mp known with old | new
    · exact fresh e' (List.mem_cons_of_mem _ member) old
    · refine head (List.mem_map.mpr ⟨e', member, ?_⟩)
      simpa using new

end

section

variable {o : Observer} {d : Collection} {item : RawCausalDocument}

theorem items_channels : (channels o d).items =
    d.documents.map fun item => (item.factId, o.observe item.text false) := by
  have keys : ((d.documents.map fun item => (item.factId, o.observe item.text false)).map
      Prod.fst).Nodup := by
    rw [List.map_map]
    exact d.unique
  exact items_update keys (by simp [Dict.keys, Dict.empty])

theorem get_channels (member : item ∈ d.documents) :
    (channels o d).get item.factId = some (o.observe item.text false) := by
  rw [Dict.get_eq_some_iff, items_channels]
  exact List.mem_map_of_mem member

theorem channel_eq (member : item ∈ d.documents) :
    channel o d item.factId = o.observe item.text false := by
  rw [channel, get_channels member, Option.getD_some]

theorem values_eq : values o d = d.documents.map fun item => channel o d item.factId := by
  rw [values, items_channels, List.map_map]
  exact List.map_congr_left fun item member => (channel_eq member).symm

namespace MaterializedRawCausalSyndromeIndex

theorem kept_eq {α : Type} (f : RawCausalChannels → α) (none : α) (member : item ∈ d.documents) :
    kept o d f none item.factId = f (channel o d item.factId) := by
  have keys : (((channels o d).items.map fun e => (e.1, f e.2)).map Prod.fst).Nodup := by
    rw [List.map_map]
    exact (channels o d).nodup
  have found : (item.factId, f (channel o d item.factId)) ∈
      (channels o d).items.map fun e => (e.1, f e.2) := by
    rw [channel_eq member]
    exact List.mem_map.mpr ⟨_, (Dict.get_eq_some_iff _ _ _).mp (get_channels member), rfl⟩
  rw [kept, Dict.get_update_of_mem keys found, Option.getD_some]

theorem lexicalDf_eq : lexicalDf o d = RawCausalSyndromeIndex.df o d := by
  funext token
  rw [lexicalDf, values_eq, List.countP_map]
  rfl

theorem sublexicalDf_eq : sublexicalDf o d = RawCausalSyndromeIndex.subDf o d := by
  funext token
  rw [sublexicalDf, values_eq, List.countP_map]
  rfl

theorem overlap_dedup (l l' : List String) : overlap l l'.dedup = overlap l l' := by
  simp only [overlap, List.mem_dedup]

end MaterializedRawCausalSyndromeIndex

end

section

variable {σ : Type} [Field σ] [LinearOrder σ]

/-- What the raw index counts against a document and the materialized one does not: numbers that
differ from the query's, and a modal that reports a confirmed finding. -/
def surcharge (o : Observer) (query : RawCausalChannels) (item : RawCausalDocument) : σ :=
  let value := o.observe item.text false
  (if query.numbers ≠ [] ∧ value.numbers ≠ [] ∧ overlap query.numbers value.numbers = 0
    then 1 else 0) +
  (if query.modality = .asserted ∧ value.modality = .modal ∧ o.confirmedFinding item.text = true
    then 1 / 4 else 0)

def SignedChannelScore.charged (extra : σ) (row : SignedChannelScore σ) : SignedChannelScore σ :=
  { row with contradiction := row.contradiction + extra }

variable (log : σ → σ) (p : Bm25Parameters σ) {o : Observer} {d : Collection}
  {query : RawCausalChannels} {item : RawCausalDocument}

omit [LinearOrder σ] in
theorem contradiction_eq (member : item ∈ d.documents) :
    RawCausalSyndromeIndex.contradiction query (channel o d item.factId) =
      MaterializedRawCausalSyndromeIndex.contradiction o query (channel o d item.factId)
        item.text + surcharge (σ := σ) o query item := by
  simp only [RawCausalSyndromeIndex.contradiction, surcharge,
    MaterializedRawCausalSyndromeIndex.contradiction, channel_eq member]
  cases o.confirmedFinding item.text with
  | false =>
    simp only [and_true, Bool.false_eq_true, and_false, if_false]
    ring
  | true =>
    simp only [and_true, Bool.true_eq_false, and_false, if_false]
    ring

theorem row_eq (member : item ∈ d.documents) :
    RawCausalSyndromeIndex.row log p o d query item =
      (MaterializedRawCausalSyndromeIndex.row log p o d query item).charged
        (surcharge o query item) := by
  have sublexical : RawCausalSyndromeIndex.averageSub (σ := σ) o d =
      MaterializedRawCausalSyndromeIndex.avgSubdl o d := rfl
  have average : RawCausalSyndromeIndex.avgdl (σ := σ) o d =
      MaterializedRawCausalSyndromeIndex.avgdl o d := by
    rw [MaterializedRawCausalSyndromeIndex.avgdl, values_eq, List.map_map]
    rfl
  have counted (l : List String) : RawCausalSyndromeIndex.bm25 log p d l = fun document =>
      MaterializedRawCausalSyndromeIndex.bm25 log p d l (document.count ·) document.length := rfl
  have lexicalTf : MaterializedRawCausalSyndromeIndex.lexicalTf o d item.factId =
      fun token => (channel o d item.factId).lexical.count token := by
    funext token
    rw [MaterializedRawCausalSyndromeIndex.lexicalTf,
      MaterializedRawCausalSyndromeIndex.kept_eq _ _ member]
  have sublexicalTf : MaterializedRawCausalSyndromeIndex.sublexicalTf o d item.factId =
      fun token => (channel o d item.factId).sublexical.count token := by
    funext token
    rw [MaterializedRawCausalSyndromeIndex.sublexicalTf,
      MaterializedRawCausalSyndromeIndex.kept_eq _ _ member]
  simp only [RawCausalSyndromeIndex.row, MaterializedRawCausalSyndromeIndex.row,
    SignedChannelScore.charged, contradiction_eq member, average, sublexical, counted, lexicalTf,
    sublexicalTf,
    MaterializedRawCausalSyndromeIndex.lexicalDf_eq,
    MaterializedRawCausalSyndromeIndex.sublexicalDf_eq,
    MaterializedRawCausalSyndromeIndex.entitySet, MaterializedRawCausalSyndromeIndex.relationSet,
    MaterializedRawCausalSyndromeIndex.kept_eq _ _ member,
    MaterializedRawCausalSyndromeIndex.overlap_dedup]

theorem normalize_map (f : RawCausalDocument → SignedChannelScore σ)
    (documents : List RawCausalDocument) : normalize (documents.map f) = documents.map fun item =>
      { f item with
        lexical := (f item).lexical / scale (documents.map fun item => (f item).lexical)
        sublexical := (f item).sublexical / scale (documents.map fun item => (f item).sublexical)
        entity := (f item).entity / scale (documents.map fun item => (f item).entity)
        relation := (f item).relation / scale (documents.map fun item => (f item).relation)
        observable := (f item).observable /
          scale (documents.map fun item => (f item).observable) } := by
  simp only [normalize, List.map_map]
  rfl

variable (o d)

theorem components_eq (queryText : String) :
    RawCausalSyndromeIndex.components log p o d queryText =
      d.documents.zipWith (fun item row =>
        row.charged (surcharge o (o.observe queryText true) item))
        (MaterializedRawCausalSyndromeIndex.components log p o d queryText) := by
  unfold RawCausalSyndromeIndex.components MaterializedRawCausalSyndromeIndex.components
  have rows : d.documents.map (RawCausalSyndromeIndex.row log p o d (o.observe queryText true)) =
      d.documents.map fun item =>
        (MaterializedRawCausalSyndromeIndex.row log p o d (o.observe queryText true) item).charged
          (surcharge o (o.observe queryText true) item) :=
    List.map_congr_left fun item member => row_eq log p member
  rw [rows, normalize_map, normalize_map, List.zipWith_map_right, List.zipWith_self]
  rfl

theorem exists_components_map (queryText : String) : ∃ f : RawCausalDocument → SignedChannelScore σ,
    MaterializedRawCausalSyndromeIndex.components log p o d queryText = d.documents.map f := by
  unfold MaterializedRawCausalSyndromeIndex.components
  exact ⟨_, normalize_map _ _⟩

theorem ranked_map (f : RawCausalDocument → SignedChannelScore σ)
    (documents : List RawCausalDocument) (w : FieldWeights σ) :
    ranked (documents.map f) w = (documents.insertionSort fun a b =>
      toLex (OrderDual.toDual ((f a).weighed w).amplitude, (f a).factId) ≤
        toLex (OrderDual.toDual ((f b).weighed w).amplitude, (f b).factId)).map
      fun item => (f item).weighed w := by
  unfold ranked
  rw [List.map_map]
  symm
  apply List.map_insertionSort
  intro a _ b _
  rfl

theorem ranked_ids_congr {f g : RawCausalDocument → SignedChannelScore σ}
    {documents : List RawCausalDocument} {w : FieldWeights σ}
    (named : ∀ item ∈ documents, (f item).factId = (g item).factId)
    (weighed : ∀ item ∈ documents,
      ((f item).weighed w).amplitude = ((g item).weighed w).amplitude) :
    (ranked (documents.map f) w).map SignedChannelScore.factId =
      (ranked (documents.map g) w).map SignedChannelScore.factId := by
  rw [ranked_map, ranked_map, List.map_map, List.map_map]
  have order := List.map_insertionSort (fun a b : RawCausalDocument =>
      toLex (OrderDual.toDual ((f a).weighed w).amplitude, (f a).factId) ≤
        toLex (OrderDual.toDual ((f b).weighed w).amplitude, (f b).factId))
    (fun a b => toLex (OrderDual.toDual ((g a).weighed w).amplitude, (g a).factId) ≤
        toLex (OrderDual.toDual ((g b).weighed w).amplitude, (g b).factId)) id documents
    (by
      intro a ina b inb
      rw [weighed a ina, weighed b inb, named a ina, named b inb]
      rfl)
  rw [List.map_id, List.map_id] at order
  rw [order]
  refine List.map_congr_left fun item member => ?_
  exact named item ((List.perm_insertionSort _ _).mem_iff.mp member)

/-- A surcharge falls on a document whose numbers are others than the query's, and on one that
reports a confirmed finding with a modal. -/
def Surcharged (o : Observer) (query : RawCausalChannels) (item : RawCausalDocument) : Prop :=
  let value := o.observe item.text false
  (query.numbers ≠ [] ∧ value.numbers ≠ [] ∧ overlap query.numbers value.numbers = 0) ∨
    (query.modality = .asserted ∧ value.modality = .modal ∧ o.confirmedFinding item.text = true)

theorem surcharge_eq_zero_iff [IsStrictOrderedRing σ] :
    surcharge (σ := σ) o query item = 0 ↔ ¬ Surcharged o query item := by
  unfold surcharge Surcharged
  simp only [not_or]
  constructor
  · intro zero
    constructor
    · intro conflict
      rw [if_pos conflict] at zero
      split at zero
      · norm_num at zero
      · norm_num at zero
    · intro modal
      rw [if_pos modal] at zero
      split at zero
      · norm_num at zero
      · norm_num at zero
  · rintro ⟨conflict, modal⟩
    rw [if_neg conflict, if_neg modal, add_zero]

theorem components_eq_iff [IsStrictOrderedRing σ] (queryText : String) :
    RawCausalSyndromeIndex.components log p o d queryText =
        MaterializedRawCausalSyndromeIndex.components log p o d queryText ↔
      ∀ item ∈ d.documents, ¬ Surcharged o (o.observe queryText true) item := by
  obtain ⟨f, rows⟩ := exists_components_map log p o d queryText
  rw [components_eq, rows, List.zipWith_map_right, List.zipWith_self, List.map_inj_left]
  refine forall₂_congr fun item _ => ?_
  rw [← surcharge_eq_zero_iff (σ := σ)]
  constructor
  · intro same
    have equal := congrArg SignedChannelScore.contradiction same
    simpa [SignedChannelScore.charged] using equal
  · intro none_charged
    simp [SignedChannelScore.charged, none_charged]

theorem rank_congr [IsStrictOrderedRing σ] (queryText : String) (w : FieldWeights σ)
    (alike : w.contradiction = 0 ∨
      ∀ item ∈ d.documents, ¬ Surcharged o (o.observe queryText true) item) :
    (RawCausalSyndromeIndex.rank (RawCausalSyndromeIndex.components log p o d queryText) w).map
        (List.map SignedChannelScore.factId) =
      (MaterializedRawCausalSyndromeIndex.rank
        (MaterializedRawCausalSyndromeIndex.components log p o d queryText) w).map
        (List.map SignedChannelScore.factId) := by
  rcases alike with weightless | unsurcharged
  · obtain ⟨f, rows⟩ := exists_components_map log p o d queryText
    rw [components_eq, rows, List.zipWith_map_right, List.zipWith_self]
    have same : (ranked (d.documents.map fun item =>
        (f item).charged (surcharge o (o.observe queryText true) item)) w).map
          SignedChannelScore.factId =
        (ranked (d.documents.map f) w).map SignedChannelScore.factId :=
      ranked_ids_congr (fun item _ => rfl)
        fun item _ => by simp [SignedChannelScore.weighed, SignedChannelScore.charged, weightless]
    unfold RawCausalSyndromeIndex.rank MaterializedRawCausalSyndromeIndex.rank
    cases allowed : (require (0 ≤ w.lexical ∧ 0 ≤ w.sublexical ∧ 0 ≤ w.entity ∧ 0 ≤ w.relation ∧
        0 ≤ w.observable ∧ 0 ≤ w.contradiction)
        (PyError.valueError "six non-negative signed-field weights are required")) with
    | error refusal => rfl
    | ok _ => exact congrArg Except.ok same
  · rw [(components_eq_iff log p o d queryText).mpr unsurcharged]
    rfl

end

noncomputable def defaultParameters : Bm25Parameters ℝ := ⟨6 / 5, 3 / 4, 0, 0⟩

/-- Over the reals the indexes have the same rows but for the surcharges the raw one adds to its
contradictions, the same rows altogether where no document is surcharged, and the same ranking
there and wherever contradictions have no weight. -/
theorem indexes_agree (o : Observer) (d : Collection) (queryText : String) :
    RawCausalSyndromeIndex.components Real.log defaultParameters o d queryText =
      d.documents.zipWith (fun item row =>
        row.charged (surcharge o (o.observe queryText true) item))
        (MaterializedRawCausalSyndromeIndex.components Real.log defaultParameters o d queryText) ∧
    (RawCausalSyndromeIndex.components Real.log defaultParameters o d queryText =
        MaterializedRawCausalSyndromeIndex.components Real.log defaultParameters o d queryText ↔
      ∀ item ∈ d.documents, ¬ Surcharged o (o.observe queryText true) item) ∧
    ∀ w : FieldWeights ℝ, (w.contradiction = 0 ∨
        ∀ item ∈ d.documents, ¬ Surcharged o (o.observe queryText true) item) →
      (RawCausalSyndromeIndex.rank
          (RawCausalSyndromeIndex.components Real.log defaultParameters o d queryText) w).map
          (List.map SignedChannelScore.factId) =
        (MaterializedRawCausalSyndromeIndex.rank (MaterializedRawCausalSyndromeIndex.components
          Real.log defaultParameters o d queryText) w).map
          (List.map SignedChannelScore.factId) :=
  ⟨components_eq _ _ o d queryText, components_eq_iff _ _ o d queryText,
    rank_congr _ _ o d queryText⟩

def priceObserver : Observer where
  observe text _ :=
    if text = "Does it cost 5 dollars" then
      ⟨["cost", "dollar"], ["^co", "^do", "ar$", "cos", "dol", "lar", "lla", "oll", "ost", "st$"],
        [], ["5"], [], ["cost>dollar"], .positive, .asserted, .boolean⟩
    else if text = "It costs 7 dollars" then
      ⟨["cost", "dollar"], ["^co", "^do", "ar$", "cos", "dol", "lar", "lla", "oll", "ost", "st$"],
        [], ["7"], [], ["cost>dollar"], .positive, .asserted, .none⟩
    else
      ⟨["cost", "noth"], ["^co", "^no", "cos", "not", "ost", "oth", "st$", "th$"], [], [], [],
        ["cost>noth"], .positive, .asserted, .none⟩
  confirmedFinding _ := false

def prices : Collection where
  documents := [⟨0, "It costs 7 dollars", 0, 0⟩, ⟨1, "It costs nothing here", 0, 1⟩]
  some_document := by decide
  unique := by decide

theorem ranked_pair (a b : SignedChannelScore ℝ) :
    (ranked [a, b] ⟨0, 0, 0, 0, 0, 1⟩).map SignedChannelScore.factId =
      if a.contradiction < b.contradiction ∨
        (a.contradiction = b.contradiction ∧ a.factId ≤ b.factId) then [a.factId, b.factId]
      else [b.factId, a.factId] := by
  simp only [ranked, List.map_cons, List.map_nil, List.insertionSort_cons, List.insertionSort_nil,
    List.orderedInsert, SignedChannelScore.weighed, Prod.Lex.toLex_le_toLex,
    OrderDual.toDual_lt_toDual, OrderDual.toDual_inj, zero_mul, add_zero, one_mul, zero_sub,
    neg_lt_neg_iff, neg_inj]
  split <;> rfl

theorem rank_by_contradiction (rows : List (SignedChannelScore ℝ)) :
    RawCausalSyndromeIndex.rank rows ⟨0, 0, 0, 0, 0, 1⟩ = .ok (ranked rows ⟨0, 0, 0, 0, 0, 1⟩) ∧
      MaterializedRawCausalSyndromeIndex.rank rows ⟨0, 0, 0, 0, 0, 1⟩ =
        .ok (ranked rows ⟨0, 0, 0, 0, 0, 1⟩) := by
  unfold RawCausalSyndromeIndex.rank MaterializedRawCausalSyndromeIndex.rank
  rw [require_of (by norm_num)]
  exact ⟨rfl, rfl⟩

/-- The two documents are ranked one way by the raw index and the other by the materialized one,
where contradictions alone have weight. -/
theorem not_indexes_equivalent :
    RawCausalSyndromeIndex.components Real.log defaultParameters priceObserver prices
        "Does it cost 5 dollars" ≠
      MaterializedRawCausalSyndromeIndex.components Real.log defaultParameters priceObserver prices
        "Does it cost 5 dollars" ∧
    (RawCausalSyndromeIndex.rank (RawCausalSyndromeIndex.components Real.log defaultParameters
        priceObserver prices "Does it cost 5 dollars") ⟨0, 0, 0, 0, 0, 1⟩).map
        (List.map SignedChannelScore.factId) = .ok [1, 0] ∧
    (MaterializedRawCausalSyndromeIndex.rank (MaterializedRawCausalSyndromeIndex.components Real.log
        defaultParameters priceObserver prices "Does it cost 5 dollars") ⟨0, 0, 0, 0, 0, 1⟩).map
        (List.map SignedChannelScore.factId) = .ok [0, 1] := by
  have query : priceObserver.observe "Does it cost 5 dollars" true = ⟨["cost", "dollar"],
      ["^co", "^do", "ar$", "cos", "dol", "lar", "lla", "oll", "ost", "st$"], [], ["5"], [],
      ["cost>dollar"], .positive, .asserted, .boolean⟩ := rfl
  have first : priceObserver.observe "It costs 7 dollars" false = ⟨["cost", "dollar"],
      ["^co", "^do", "ar$", "cos", "dol", "lar", "lla", "oll", "ost", "st$"], [], ["7"], [],
      ["cost>dollar"], .positive, .asserted, .none⟩ := rfl
  have second : priceObserver.observe "It costs nothing here" false = ⟨["cost", "noth"],
      ["^co", "^no", "cos", "not", "ost", "oth", "st$", "th$"], [], [], [], ["cost>noth"],
      .positive, .asserted, .none⟩ := rfl
  have left : channel priceObserver prices 0 = _ := (@channel_eq priceObserver prices
    ⟨0, "It costs 7 dollars", 0, 0⟩ List.mem_cons_self).trans first
  have right : channel priceObserver prices 1 = _ := (@channel_eq priceObserver prices
    ⟨1, "It costs nothing here", 0, 1⟩ (List.mem_cons_of_mem _ List.mem_cons_self)).trans second
  refine ⟨?_, ?_, ?_⟩
  · rw [Ne, components_eq_iff]
    intro free
    refine free ⟨0, "It costs 7 dollars", 0, 0⟩ List.mem_cons_self (.inl ?_)
    rw [query, first]
    decide
  · rw [(rank_by_contradiction _).1, RawCausalSyndromeIndex.components, normalize_map]
    refine congrArg Except.ok ((ranked_pair _ _).trans ?_)
    simp only [RawCausalSyndromeIndex.row, RawCausalSyndromeIndex.contradiction, query,
      left, right]
    have differ : overlap ["5"] ["7"] = 0 := by decide
    simp [differ]
  · rw [(rank_by_contradiction _).2, MaterializedRawCausalSyndromeIndex.components, normalize_map]
    refine congrArg Except.ok ((ranked_pair _ _).trans ?_)
    simp only [MaterializedRawCausalSyndromeIndex.row,
      MaterializedRawCausalSyndromeIndex.contradiction, query,
      left, right]
    simp

end ProofRay.Recall
