/- Proof-pressure search: surfaces propose FactIds, and a document is admitted for the obligations
   of the query it closes (`proof_pressure_search.py`). -/

import Mathlib.Data.List.MinMax
import ProofRay.Lib.SortedSet
import ProofRay.Recall.Channels
import ProofRay.Sidecar.Authority

namespace ProofRay.Recall

open Engine (PyError)
open Lib (Dict sortedSet)
open Lib.Guard
open Sidecar (blank encode)

/-- The order of the integers that the keys of candidates are compared by. -/
local instance keyOrder : Preorder Int := Int.instLinearOrder.toPreorder

inductive ObligationKind where
  | entity
  | number
  | temporal
  | relation
  | answer
  | polarity
  | modality
  | lexical
  deriving DecidableEq, Repr

def ObligationKind.text : ObligationKind → String
  | .entity => "entity"
  | .number => "number"
  | .temporal => "temporal"
  | .relation => "relation"
  | .answer => "answer"
  | .polarity => "polarity"
  | .modality => "modality"
  | .lexical => "lexical"

/-- The modes of retrieval, in the order of their names. -/
inductive Mode where
  | cavity
  | direct
  | entity
  | field
  | observable
  | relation
  deriving DecidableEq, Repr

/-- `sorted(modes)`. -/
def modes : List Mode := [.cavity, .direct, .entity, .field, .observable, .relation]

def Mode.place : Mode → Nat
  | .cavity => 0
  | .direct => 1
  | .entity => 2
  | .field => 3
  | .observable => 4
  | .relation => 5

/-- The arithmetic of floats as a search uses it: its constants, the weights, the sum of a list and
the terms of a gain. Weights are positive, and so is a sum of some of them. -/
structure Arithmetic (σ : Type) [Zero σ] [LinearOrder σ] where
  one : σ
  half : σ
  fifth : σ
  quarter : σ
  kindWeight : ObligationKind → σ   -- `_KIND_WEIGHT`
  repeated : Nat → σ                -- `1.0 + min(.5, .15 * (count - 1))`
  sum : List σ → σ
  reciprocal : Nat → σ              -- `1.0 / (1.0 + rank)`
  structural : σ                    -- `.35`
  costPenalty : Nat → σ             -- `math.log2(1 + cost) / 100.0`
  rounded : σ → σ                   -- `round(gain, 9)`
  kindWeight_pos : ∀ kind, 0 < kindWeight kind
  repeated_pos : ∀ count, 0 < repeated count
  sum_nil : sum [] = 0
  sum_pos : ∀ l, l ≠ [] → (∀ w ∈ l, 0 < w) → 0 < sum l

/-- `SearchObligation`. -/
structure SearchObligation (σ : Type) where
  key : String
  kind : ObligationKind
  weight : σ

section

variable {σ : Type} [Zero σ] [LinearOrder σ] (num : Arithmetic σ)

/-- `add`, the obligation of one value. -/
def obligation (kind : ObligationKind) (value : String) (weight : σ) :
    String × SearchObligation σ :=
  (kind.text ++ ":" ++ value, ⟨kind.text ++ ":" ++ value, kind, weight⟩)

def observedObligations (query : RawCausalChannels) : List (String × SearchObligation σ) :=
  let plain (kind : ObligationKind) (value : String) := obligation kind value (num.kindWeight kind)
  ((sortedSet id query.lexical).map fun token =>
      obligation .lexical token (num.repeated (query.lexical.count token))) ++
    query.entities.map (plain .entity) ++ query.numbers.map (plain .number) ++
    query.temporal.map (plain .temporal) ++ query.relations.map (plain .relation) ++
    (if query.interrogative ≠ .none then [plain .answer query.interrogative.text] else []) ++
    (if query.polarity = .negative then [plain .polarity "negative"] else []) ++
    (if query.modality = .modal then [plain .modality "modal"] else [])

/-- `compile_obligations`, of what is observed of the query. -/
def compileObligations (query : RawCausalChannels) : List (SearchObligation σ) :=
  ((Dict.empty.update (observedObligations num query)).sortedBy id).map Prod.snd

end

/-- `key.split(":", 1)[1]`. -/
def target (key : String) : String := String.ofList (key.toList.dropWhile (· ≠ ':')).tail

def covers (value : RawCausalChannels) (kind : ObligationKind) (target : String) : Bool :=
  match kind with
  | .lexical => target ∈ value.lexical
  | .entity => target ∈ value.entities
  | .number => target ∈ value.numbers
  | .temporal => target ∈ value.temporal
  | .relation => target ∈ value.relations
  | .polarity => value.polarity.text = target
  | .modality => value.modality.text = target
  | .answer =>
    if target = "time" ∧ (value.temporal ≠ [] ∨ value.numbers ≠ []) then true
    else if target = "quantity" ∧ value.numbers ≠ [] then true
    else if (target = "person" ∨ target = "place") ∧ value.entities ≠ [] then true
    else target = "boolean" ∧ value.lexical ≠ []

/-- `_coverage`. -/
def coverage {σ : Type} (value : RawCausalChannels) (obligations : List (SearchObligation σ)) :
    List String :=
  (obligations.filter fun o => covers value o.kind (target o.key)).map SearchObligation.key

section

variable (σ : Type) [Zero σ] [LinearOrder σ]

/-- `HorizonSearchEngine`: what is observed of a text, and the rows the index and the cavity have
for a query, one for each document. -/
structure HorizonSearchEngine where
  documents : List RawCausalDocument
  sublexicalWeight : σ
  coreWidth : Int
  frontierWidth : Int
  observe : String → Bool → RawCausalChannels
  components : String → List (SignedChannelScore σ)
  cavity : String → List (CavityScore σ)
  sized : documents ≠ [] ∧ 1 ≤ coreWidth ∧ 1 ≤ frontierWidth
  weighted : 0 ≤ sublexicalWeight
  unique : (documents.map RawCausalDocument.factId).Nodup
  components_ids : ∀ q, (components q).map SignedChannelScore.factId =
    documents.map RawCausalDocument.factId
  cavity_ids : ∀ q, ((cavity q).map CavityScore.factId).Perm
    (documents.map RawCausalDocument.factId)

end

/-- A query as it is cached: its obligations, the rankings and witnesses of its surfaces, and for
each FactId the obligations its document closes. -/
structure CompiledQuery (σ : Type) where
  obligations : List (SearchObligation σ)
  ranking : Mode → List Int
  witnesses : Int → List Int
  coverage : Int → List String

namespace HorizonSearchEngine

variable {σ : Type} [Zero σ] [LinearOrder σ] [Add σ] [Sub σ] [Mul σ]
  (num : Arithmetic σ) (e : HorizonSearchEngine σ)

def ids : List Int := e.documents.map RawCausalDocument.factId

/-- The text of `by_id[fact_id]`. -/
def textOf (factId : Int) : String :=
  ((e.documents.find? fun item => item.factId = factId).map RawCausalDocument.text).getD ""

/-- `byte_cost[fact_id]`. -/
def byteCost (factId : Int) : Nat := (encode (e.textOf factId)).length

/-- `_rank_ids`. -/
def rankIds {κ : Type} [LinearOrder κ] (rows : List (SignedChannelScore σ))
    (key : SignedChannelScore σ → κ) : List Int :=
  (rows.insertionSort fun a b => key a ≤ key b).map SignedChannelScore.factId

/-- `_surfaces`, the ranking of each mode. -/
def ranking (query : String) : Mode → List Int
  | .cavity => (e.cavity query).map CavityScore.factId
  | .direct => (ranked (e.components query) ⟨num.one, 0, 0, 0, 0, 0⟩).map SignedChannelScore.factId
  | .entity => rankIds (e.components query) fun row =>
      toLex (OrderDual.toDual row.entity, toLex (OrderDual.toDual row.observable,
        toLex (OrderDual.toDual row.lexical, row.factId)))
  | .field => (ranked (e.components query) ⟨num.one, e.sublexicalWeight, num.half, num.fifth,
      num.quarter, num.one⟩).map SignedChannelScore.factId
  | .observable => rankIds (e.components query) fun row =>
      toLex (OrderDual.toDual row.observable, toLex (row.contradiction,
        toLex (OrderDual.toDual row.lexical, row.factId)))
  | .relation => rankIds (e.components query) fun row =>
      toLex (OrderDual.toDual row.relation, toLex (OrderDual.toDual row.sublexical,
        toLex (OrderDual.toDual row.lexical, row.factId)))

def compile (query : String) : CompiledQuery σ :=
  let obligations := compileObligations num (e.observe query true)
  { obligations
    ranking := e.ranking num query
    witnesses := fun factId =>
      (((e.cavity query).find? fun row => row.factId = factId).map
        CavityScore.witnessFactIds).getD []
    coverage := fun factId => Recall.coverage (e.observe (e.textOf factId) false) obligations }

end HorizonSearchEngine

inductive AdmissionReason where
  | protectedCore
  | residualReduction
  | explicitExploration
  deriving DecidableEq, Repr

/-- `SearchAdmission`. -/
structure SearchAdmission (σ : Type) where
  factId : Int
  mode : Mode
  reason : AdmissionReason
  closed : List String
  residualAfter : List String
  pressureGain : σ
  byteCost : Nat
  witnessFactIds : List Int

/-- The arguments of `search`. -/
structure SearchRequest where
  queryText : String
  maxResults : Int
  maxBytes : Option Int
  hardExclusions : List Int
  explorationReserve : Int
  coreWidth : Option Int
  deriving DecidableEq, Repr

/-- What a search has selected so far. -/
structure SearchState (σ : Type) where
  selected : List Int
  admissions : List (SearchAdmission σ)
  closed : List String
  usedBytes : Nat

/-- `ProofPressureResult`. -/
structure ProofPressureResult (σ : Type) where
  factIds : List Int
  obligations : List (SearchObligation σ)
  admissions : List (SearchAdmission σ)
  residual : List String
  proofClosed : Bool
  bytesSelected : Nat
  excluded : List Int

section

variable {σ : Type} [Zero σ] [LinearOrder σ] [Add σ] [Sub σ]
  (num : Arithmetic σ) (byteCost : Int → Nat) (q : CompiledQuery σ) (r : SearchRequest)

namespace CompiledQuery

/-- The keys of `obligation_by_key`. -/
def keys : List String := q.obligations.map SearchObligation.key

/-- `obligation_by_key[key].weight`. -/
def weight (key : String) : σ :=
  ((q.obligations.find? fun o => o.key = key).map SearchObligation.weight).getD 0

/-- `tuple(sorted(set(obligation_by_key).difference(closed)))`. -/
def residual (closed : List String) : List String :=
  sortedSet id (q.keys.filter fun key => key ∉ closed)

/-- `coverage[fact_id].difference(closed)`. -/
def newly (s : SearchState σ) (factId : Int) : List String :=
  (q.coverage factId).filter fun key => key ∉ s.closed

/-- `sum(obligation_by_key[key].weight for key in new)`. -/
def closure (s : SearchState σ) (factId : Int) : σ := num.sum ((q.newly s factId).map q.weight)

/-- `mode_rank[(mode, fact_id)]`. -/
def modeRank (mode : Mode) (factId : Int) : Nat := (q.ranking mode).idxOf factId

/-- `reciprocal + structural`, where a structural route counts through its witnesses. -/
def reach (mode : Mode) (factId : Int) : σ :=
  num.reciprocal (q.modeRank mode factId) +
    (if mode = .cavity ∧ q.witnesses factId ≠ [] then num.structural else 0)

end CompiledQuery

open CompiledQuery

/-- `admit`; none where it answers false. -/
def admitFact (s : SearchState σ) (factId : Int) (mode : Mode) (reason : AdmissionReason)
    (gain : σ) : Option (SearchState σ) :=
  if factId ∈ r.hardExclusions ∨ factId ∈ s.selected then none
  else if r.maxBytes.any fun limit : Int => limit < (s.usedBytes + byteCost factId : Nat) then none
  else
    let newlyClosed := sortedSet id (q.newly s factId)
    let closed := s.closed ++ newlyClosed
    some
      { selected := s.selected ++ [factId]
        admissions := s.admissions ++ [⟨factId, mode, reason, newlyClosed, q.residual closed,
          num.rounded gain, byteCost factId, if mode = .cavity then q.witnesses factId else []⟩]
        closed
        usedBytes := s.usedBytes + byteCost factId }

def core (width : Int) : List Int → SearchState σ → SearchState σ
  | [], s => s
  | factId :: rest, s =>
    if min width r.maxResults ≤ s.selected.length then s
    else core width rest
      ((admitFact num byteCost q r s factId .direct .protectedCore (q.closure num s factId)).getD s)

def entries (frontier : Mode → List Int) : List (Mode × Int) :=
  modes.flatMap fun mode => (frontier mode).map (Prod.mk mode)

def candidates (s : SearchState σ) (frontier : Mode → List Int) : List (Mode × Int) :=
  (entries frontier).filter fun c => c.2 ∉ s.selected

/-- `closure + reciprocal + structural - cost_penalty`. -/
def gain (s : SearchState σ) (c : Mode × Int) : σ :=
  q.closure num s c.2 + q.reach num c.1 c.2 - num.costPenalty (byteCost c.2)

/-- What `max(candidates)` compares. -/
def candidateKey (s : SearchState σ) (c : Mode × Int) : σ ×ₗ σ ×ₗ Int ×ₗ Int ×ₗ Nat ×ₗ Int :=
  toLex (q.closure num s c.2, toLex (gain num byteCost q s c, toLex (-(byteCost c.2 : Int),
    toLex (-(q.modeRank c.1 c.2 : Int), toLex (c.1.place, -c.2)))))

variable {num byteCost q r}

variable {reason : AdmissionReason}

omit [Add σ] [Sub σ] in
theorem admitFact_eq_some {s s' : SearchState σ} {factId : Int} {mode : Mode} {gain : σ}
    (admitted : admitFact num byteCost q r s factId mode reason gain = some s') :
    (factId ∉ r.hardExclusions ∧ factId ∉ s.selected) ∧
      (∀ limit ∈ r.maxBytes, (s.usedBytes + byteCost factId : Nat) ≤ limit) ∧
      s'.selected = s.selected ++ [factId] ∧
      s'.closed = s.closed ++ sortedSet id (q.newly s factId) ∧
      s'.usedBytes = s.usedBytes + byteCost factId ∧
      ∃ a, s'.admissions = s.admissions ++ [a] ∧ a.factId = factId ∧
        a.closed = sortedSet id (q.newly s factId) ∧ a.residualAfter = q.residual s'.closed ∧
        a.byteCost = byteCost factId := by
  unfold admitFact at admitted
  split at admitted
  · cases admitted
  · rename_i fresh
    split at admitted
    · cases admitted
    · rename_i fits
      cases admitted
      refine ⟨not_or.mp fresh, fun limit bound => ?_, rfl, rfl, rfl, _, rfl, rfl, rfl, rfl, rfl⟩
      by_contra above
      refine fits ?_
      rw [Option.mem_def.mp bound]
      simpa using above

omit [Add σ] [Sub σ] in
theorem admitFact_eq_none {s : SearchState σ} {factId : Int} {mode : Mode} {gain : σ}
    (refused : admitFact num byteCost q r s factId mode reason gain = none)
    (free : factId ∉ r.hardExclusions) (fresh : factId ∉ s.selected) :
    ∃ limit ∈ r.maxBytes, limit < (s.usedBytes + byteCost factId : Nat) := by
  unfold admitFact at refused
  rw [if_neg (not_or.mpr ⟨free, fresh⟩)] at refused
  split at refused
  · rename_i large
    cases bound : r.maxBytes with
    | none => simp [bound] at large
    | some limit =>
      rw [bound] at large
      exact ⟨limit, rfl, by simpa using large⟩
  · cases refused

variable {c : Mode × Int} {frontier : Mode → List Int}

theorem mem_entries : c ∈ entries frontier ↔ c.2 ∈ frontier c.1 := by
  obtain ⟨mode, factId⟩ := c
  simp only [entries, List.mem_flatMap, List.mem_map, Prod.mk.injEq]
  constructor
  · rintro ⟨mode', -, factId', member, rfl, rfl⟩
    exact member
  · intro member
    exact ⟨mode, by cases mode <;> simp [modes], factId, member, rfl, rfl⟩

def without (frontier : Mode → List Int) (c : Mode × Int) : Mode → List Int := fun mode =>
  if mode = c.1 then (frontier mode).filter fun factId => factId ≠ c.2 else frontier mode

theorem entries_without (frontier : Mode → List Int) (c : Mode × Int) :
    entries (without frontier c) = (entries frontier).filter fun d => d ≠ c := by
  unfold entries without
  rw [List.filter_flatMap]
  refine List.flatMap_congr fun mode _ => ?_
  rw [List.filter_map]
  by_cases same : mode = c.1
  · subst same
    rw [if_pos rfl]
    congr 1
    refine List.filter_congr fun factId _ => ?_
    simp [Prod.ext_iff]
  · rw [if_neg same]
    congr 1
    refine (List.filter_eq_self.mpr fun factId _ => ?_).symm
    simp [Prod.ext_iff, same]

theorem length_filter_lt_of_mem {α : Type} {keep : α → Bool} {l : List α} {a : α} (member : a ∈ l)
    (out : keep a = false) : (l.filter keep).length < l.length := by
  refine lt_of_le_of_ne (List.length_filter_le _ _) fun same => ?_
  have kept := List.length_filter_eq_length_iff.mp same a member
  rw [out] at kept
  cases kept

omit [Zero σ] [LinearOrder σ] [Add σ] [Sub σ] in
theorem candidates_admitted_lt {s s' : SearchState σ} (chosen : c ∈ candidates s frontier)
    (grown : s'.selected = s.selected ++ [c.2]) :
    (candidates s' frontier).length < (candidates s frontier).length := by
  have fewer : candidates s' frontier =
      (candidates s frontier).filter fun d => d.2 ≠ c.2 := by
    unfold candidates
    rw [List.filter_filter, grown]
    refine List.filter_congr fun d _ => ?_
    simp [not_or, and_comm]
  rw [fewer]
  exact length_filter_lt_of_mem chosen (by simp)

omit [Zero σ] [LinearOrder σ] [Add σ] [Sub σ] in
theorem candidates_without_lt {s : SearchState σ} (chosen : c ∈ candidates s frontier) :
    (candidates s (without frontier c)).length < (candidates s frontier).length := by
  have fewer : candidates s (without frontier c) =
      (candidates s frontier).filter fun d => d ≠ c := by
    unfold candidates
    rw [entries_without, List.filter_filter, List.filter_filter]
    exact List.filter_congr fun d _ => Bool.and_comm _ _
  rw [fewer]
  exact length_filter_lt_of_mem chosen (by simp)

variable (num byteCost q r)

/-- The reduction of the residual: the best candidate is admitted, or leaves the frontier of its
mode where it does not fit. -/
def reduce (frontier : Mode → List Int) (s : SearchState σ) : SearchState σ :=
  if r.maxResults ≤ s.selected.length then s
  else
    match _best : (candidates s frontier).argmax (candidateKey num byteCost q s) with
    | none => s
    | some c =>
      if q.closure num s c.2 ≤ 0 then s
      else
        match _admitted : admitFact num byteCost q r s c.2 c.1 .residualReduction
            (gain num byteCost q s c) with
        | some s' => reduce frontier s'
        | none => reduce (without frontier c) s
termination_by (candidates s frontier).length
decreasing_by
  · exact candidates_admitted_lt (List.argmax_mem _best) (admitFact_eq_some _admitted).2.2.1
  · exact candidates_without_lt (List.argmax_mem _best)

/-- What `max(pool)` compares. -/
def poolKey (c : Mode × Int) : σ ×ₗ Int ×ₗ Nat ×ₗ Int :=
  toLex (q.reach num c.1 c.2, toLex (-(q.modeRank c.1 c.2 : Int), toLex (c.1.place, -c.2)))

def besides (pool : List (Mode × Int)) (factId : Int) : List (Mode × Int) :=
  pool.filter fun c => c.2 ≠ factId

theorem besides_lt {pool : List (Mode × Int)} (chosen : c ∈ pool) :
    (besides pool c.2).length < pool.length :=
  length_filter_lt_of_mem chosen (by simp)

def explore (reserve : Nat) (pool : List (Mode × Int)) (s : SearchState σ) : SearchState σ :=
  match reserve with
  | 0 => s
  | reserve + 1 =>
    match _best : pool.argmax (poolKey num q) with
    | none => s
    | some c =>
      match admitFact num byteCost q r s c.2 c.1 .explicitExploration (q.reach num c.1 c.2) with
      | some s' => explore reserve (besides pool c.2) s'
      | none => explore (reserve + 1) (besides pool c.2) s
termination_by pool.length
decreasing_by all_goals exact besides_lt (List.argmax_mem _best)

def head (frontierWidth : Int) (mode : Mode) : List Int :=
  (q.ranking mode).take frontierWidth.toNat

def phases (coreWidth frontierWidth : Int) : SearchState σ :=
  let s := core num byteCost q r coreWidth (q.ranking .direct) ⟨[], [], [], 0⟩
  let s := reduce num byteCost q r
    (fun mode => (head q frontierWidth mode).filter fun factId => factId ∉ r.hardExclusions) s
  let reserve := (min r.explorationReserve (r.maxResults - s.selected.length)).toNat
  explore num byteCost q r reserve ((entries (head q frontierWidth)).filter fun c =>
    c.2 ∉ s.selected ∧ c.2 ∉ r.hardExclusions) s

end

section

variable {σ : Type} [Zero σ] [LinearOrder σ] [Add σ] [Sub σ] [Mul σ]

def activeCoreWidth (e : HorizonSearchEngine σ) (r : SearchRequest) : Int :=
  r.coreWidth.getD e.coreWidth

/-- `search`. -/
def search (num : Arithmetic σ) (e : HorizonSearchEngine σ) (r : SearchRequest) :
    Except PyError (ProofPressureResult σ) := do
  require (blank r.queryText = false ∧ 1 ≤ r.maxResults ∧ 0 ≤ r.explorationReserve)
    (.valueError "query, positive result limit, and non-negative reserve are required")
  require (∀ limit ∈ r.maxBytes, 1 ≤ limit) (.valueError "byte budget must be positive")
  require (1 ≤ activeCoreWidth e r) (.valueError "core width must be positive")
  require (∀ factId ∈ r.hardExclusions, factId ∈ e.ids)
    (.valueError "hard exclusions must reference known FactIds")
  let q := e.compile num r.queryText
  let s := phases num e.byteCost q r (activeCoreWidth e r) e.frontierWidth
  let residual := q.residual s.closed
  return ⟨s.selected, q.obligations, s.admissions, residual, residual.isEmpty, s.usedBytes,
    sortedSet id r.hardExclusions⟩

end

section

variable {σ : Type} (byteCost : Int → Nat) (q : CompiledQuery σ) (r : SearchRequest)
  (known : List Int)

def Uncovered (ids : List Int) (key : String) : Prop :=
  key ∈ q.keys ∧ ∀ factId ∈ ids, key ∉ q.coverage factId

/-- What every state of a search satisfies. -/
structure Progress (s : SearchState σ) : Prop where
  nodup : s.selected.Nodup
  known : ∀ factId ∈ s.selected, factId ∈ known
  free : ∀ factId ∈ s.selected, factId ∉ r.hardExclusions
  bytes : s.usedBytes = (s.selected.map byteCost).sum
  fits : ∀ limit ∈ r.maxBytes, (s.usedBytes : Int) ≤ limit
  closed : ∀ key, key ∈ s.closed ↔ ∃ factId ∈ s.selected, key ∈ q.coverage factId
  admitted : s.admissions.map SearchAdmission.factId = s.selected
  running : ∀ front a back, s.admissions = front ++ a :: back → ∀ key, key ∈ a.residualAfter ↔
    Uncovered q (front.map SearchAdmission.factId ++ [a.factId]) key

variable {byteCost q r known}

theorem mem_residual {s : SearchState σ}
    (closed : ∀ key, key ∈ s.closed ↔ ∃ factId ∈ s.selected, key ∈ q.coverage factId)
    {key : String} : key ∈ q.residual s.closed ↔ Uncovered q s.selected key := by
  simp only [CompiledQuery.residual, Lib.mem_sortedSet, List.mem_filter, decide_eq_true_eq, closed,
    Uncovered, not_exists, not_and]

theorem Progress.start (positive : ∀ limit ∈ r.maxBytes, 1 ≤ limit) :
    Progress byteCost q r known ⟨[], [], [], 0⟩ where
  nodup := List.nodup_nil
  known := by simp
  free := by simp
  bytes := rfl
  fits := by
    intro limit bound
    have := positive limit bound
    simp only [Nat.cast_zero]
    omega
  closed := by simp
  admitted := rfl
  running := by simp

/-- What a later state keeps of an earlier one. -/
structure Grows (s s' : SearchState σ) : Prop where
  selected : s.selected <+: s'.selected
  closed : ∀ key ∈ s.closed, key ∈ s'.closed
  used : s.usedBytes ≤ s'.usedBytes

theorem Grows.refl (s : SearchState σ) : Grows s s :=
  ⟨List.prefix_refl _, fun _ member => member, le_rfl⟩

theorem Grows.trans {s s' s'' : SearchState σ} (first : Grows s s') (second : Grows s' s'') :
    Grows s s'' :=
  ⟨first.selected.trans second.selected,
    fun key member => second.closed key (first.closed key member), first.used.trans second.used⟩

variable (byteCost q r) in
def Unfit (s : SearchState σ) (factId : Int) : Prop :=
  ∃ limit ∈ r.maxBytes, limit < (s.usedBytes + byteCost factId : Nat)

theorem Unfit.mono {s s' : SearchState σ} {factId : Int} (grows : Grows s s')
    (unfit : Unfit byteCost r s factId) : Unfit byteCost r s' factId := by
  obtain ⟨limit, bound, above⟩ := unfit
  refine ⟨limit, bound, ?_⟩
  have := grows.used
  omega

variable (byteCost q r) in
def Settled (frontier : Mode → List Int) (s : SearchState σ) : Prop :=
  ∀ mode, ∀ factId ∈ frontier mode, factId ∈ s.selected ∨ Unfit byteCost r s factId ∨
    ∀ key ∈ q.coverage factId, key ∈ s.closed

theorem Settled.mono {frontier : Mode → List Int} {s s' : SearchState σ} (grows : Grows s s')
    (settled : Settled byteCost q r frontier s) : Settled byteCost q r frontier s' := by
  intro mode factId member
  rcases settled mode factId member with chosen | unfit | covered
  · exact .inl (grows.selected.subset chosen)
  · exact .inr (.inl (unfit.mono grows))
  · exact .inr (.inr fun key covers => grows.closed key (covered key covers))

end

section

variable {σ : Type} [Zero σ] [LinearOrder σ] {num : Arithmetic σ} {byteCost : Int → Nat}
  {q : CompiledQuery σ} {r : SearchRequest} {known : List Int}

variable {s : SearchState σ} {factId : Int} {mode : Mode}

variable {reason : AdmissionReason}

theorem Progress.step {s s' : SearchState σ} {gain : σ} (progress : Progress byteCost q r known s)
    (here : factId ∈ known)
    (admitted : Recall.admitFact num byteCost q r s factId mode reason gain = some s') :
    Progress byteCost q r known s' := by
  obtain ⟨⟨free, fresh⟩, fits, selected, closed, used, a, admissions, named, -, residual, -⟩ :=
    admitFact_eq_some admitted
  have closes : ∀ key, key ∈ s'.closed ↔ ∃ factId ∈ s'.selected, key ∈ q.coverage factId := by
    intro key
    rw [closed, selected, List.mem_append, Lib.mem_sortedSet, CompiledQuery.newly, List.mem_filter]
    simp only [List.mem_append, List.mem_singleton, decide_eq_true_eq, progress.closed]
    constructor
    · rintro (⟨other, member, covers⟩ | ⟨covers, -⟩)
      · exact ⟨other, .inl member, covers⟩
      · exact ⟨factId, .inr rfl, covers⟩
    · rintro ⟨other, member | rfl, covers⟩
      · exact .inl ⟨other, member, covers⟩
      · by_cases before : ∃ other ∈ s.selected, key ∈ q.coverage other
        · exact .inl before
        · exact .inr ⟨covers, before⟩
  have all_admitted : s'.admissions.map SearchAdmission.factId = s'.selected := by
    rw [admissions, selected, List.map_append, progress.admitted, List.map_singleton, named]
  refine ⟨?_, ?_, ?_, ?_, ?_, closes, all_admitted, ?_⟩
  · rw [selected]
    refine List.nodup_append.mpr ⟨progress.nodup, List.nodup_singleton _, ?_⟩
    intro other member last inside equal
    rw [List.mem_singleton.mp inside] at equal
    exact fresh (equal ▸ member)
  · intro other member
    rw [selected] at member
    rcases List.mem_append.mp member with before | last
    · exact progress.known other before
    · exact List.mem_singleton.mp last ▸ here
  · intro other member
    rw [selected] at member
    rcases List.mem_append.mp member with before | last
    · exact progress.free other before
    · exact List.mem_singleton.mp last ▸ free
  · rw [used, selected, progress.bytes]
    simp
  · intro limit bound
    rw [used]
    exact fits limit bound
  · intro front b back split key
    rw [admissions] at split
    rcases List.eq_nil_or_concat' back with rfl | ⟨back', last, rfl⟩
    · obtain ⟨rfl, same⟩ := List.append_inj' split rfl
      obtain rfl := List.singleton_inj.mp same
      rw [residual, mem_residual closes, progress.admitted, named, ← selected]
    · rw [← List.cons_append, ← List.append_assoc] at split
      obtain ⟨before, -⟩ := List.append_inj' split rfl
      exact progress.running front b back' before key

theorem grows_of_admitFact {s s' : SearchState σ} {gain : σ}
    (admitted : Recall.admitFact num byteCost q r s factId mode reason gain = some s') :
    Grows s s' ∧ s'.selected.length = s.selected.length + 1 := by
  obtain ⟨-, -, selected, closed, used, -⟩ := admitFact_eq_some admitted
  refine ⟨⟨?_, fun key member => ?_, ?_⟩, ?_⟩
  · rw [selected]
    exact List.prefix_append _ _
  · rw [closed]
    exact List.mem_append_left _ member
  · rw [used]
    exact Nat.le_add_right _ _
  · rw [selected, List.length_append, List.length_singleton]

theorem core_keeps (num : Arithmetic σ) (width : Int) {ranking : List Int}
    (progress : Progress byteCost q r known s) (room : (s.selected.length : Int) ≤ r.maxResults)
    (all : ∀ factId ∈ ranking, factId ∈ known) :
    Progress byteCost q r known (core num byteCost q r width ranking s) ∧
      ((core num byteCost q r width ranking s).selected.length : Int) ≤ r.maxResults := by
  induction ranking generalizing s with
  | nil => exact ⟨progress, room⟩
  | cons factId rest ih =>
    have later : ∀ other ∈ rest, other ∈ known := fun other member =>
      all other (List.mem_cons_of_mem _ member)
    unfold core
    split
    · exact ⟨progress, room⟩
    · rename_i narrow
      cases admitted : Recall.admitFact num byteCost q r s factId .direct .protectedCore
          (q.closure num s factId) with
      | none => exact ih progress room later
      | some s' =>
        have grown := (grows_of_admitFact admitted).2
        rw [Option.getD_some]
        refine ih (progress.step (all factId List.mem_cons_self) admitted) ?_ later
        omega

/-- What the obligations of a query and the documents' coverage of them satisfy. -/
structure CompiledQuery.Fair (q : CompiledQuery σ) : Prop where
  positive : ∀ o ∈ q.obligations, 0 < o.weight
  within : ∀ factId, ∀ key ∈ q.coverage factId, key ∈ q.keys

theorem covered_of_closure_le (fair : q.Fair) (none_closed : q.closure num s factId ≤ 0) :
    ∀ key ∈ q.coverage factId, key ∈ s.closed := by
  intro key covers
  by_contra open_key
  have new : key ∈ q.newly s factId :=
    List.mem_filter.mpr ⟨covers, decide_eq_true open_key⟩
  refine absurd (num.sum_pos _ (List.ne_nil_of_mem (List.mem_map_of_mem new)) ?_)
    (not_lt.mpr none_closed)
  intro w weighed
  obtain ⟨key', member, rfl⟩ := List.mem_map.mp weighed
  have inside := fair.within factId key' (List.mem_filter.mp member).1
  obtain ⟨o, there, rfl⟩ := List.mem_map.mp inside
  unfold CompiledQuery.weight
  cases found : q.obligations.find? fun o' => o'.key = o.key with
  | none => exact absurd (List.find?_eq_none.mp found o there) (by simp)
  | some o' => exact fair.positive o' (List.mem_of_find?_eq_some found)

variable [Add σ] [Sub σ]

theorem closure_le_of_best {frontier : Mode → List Int} {c : Mode × Int}
    (best : (candidates s frontier).argmax (candidateKey num byteCost q s) = some c)
    {d : Mode × Int} (member : d ∈ candidates s frontier) :
    q.closure num s d.2 ≤ q.closure num s c.2 := by
  have most := List.le_of_mem_argmax member (Option.mem_def.mpr best)
  rcases Prod.Lex.toLex_le_toLex.mp most with less | ⟨same, -⟩
  · exact less.le
  · exact same.le

theorem mem_without {frontier : Mode → List Int} {c : Mode × Int} :
    factId ∈ without frontier c mode ↔ factId ∈ frontier mode ∧ (mode, factId) ≠ c := by
  unfold without
  split
  · rename_i same
    simp [same, Prod.ext_iff]
  · rename_i other
    simp [other, Prod.ext_iff]

/-- The reduction ends with all results taken, or with nothing left on the frontier that fits and
closes a further obligation. -/
theorem reduce_keeps (num : Arithmetic σ) {initial frontier : Mode → List Int} (fair : q.Fair)
    (progress : Progress byteCost q r known s) (room : (s.selected.length : Int) ≤ r.maxResults)
    (pending : ∀ mode, ∀ factId ∈ initial mode, factId ∈ frontier mode ∨ Unfit byteCost r s factId)
    (free : ∀ mode, ∀ factId ∈ frontier mode, factId ∈ known ∧ factId ∉ r.hardExclusions) :
    Progress byteCost q r known (reduce num byteCost q r frontier s) ∧
      ((reduce num byteCost q r frontier s).selected.length : Int) ≤ r.maxResults ∧
      (r.maxResults ≤ (reduce num byteCost q r frontier s).selected.length ∨
        Settled byteCost q r initial (reduce num byteCost q r frontier s)) := by
  fun_induction reduce num byteCost q r frontier s with
  | case1 frontier s full => exact ⟨progress, room, .inl full⟩
  | case2 frontier s short none_left =>
    refine ⟨progress, room, .inr fun mode factId member => ?_⟩
    rcases pending mode factId member with here | unfit
    · by_contra open_id
      have candidate : (mode, factId) ∈ candidates s frontier :=
        List.mem_filter.mpr ⟨mem_entries.mpr here, decide_eq_true fun chosen =>
          open_id (.inl chosen)⟩
      rw [List.argmax_eq_none.mp none_left] at candidate
      cases candidate
    · exact .inr (.inl unfit)
  | case3 frontier s short c best closed =>
    refine ⟨progress, room, .inr fun mode factId member => ?_⟩
    rcases pending mode factId member with here | unfit
    · by_cases chosen : factId ∈ s.selected
      · exact .inl chosen
      · have candidate : (mode, factId) ∈ candidates s frontier :=
          List.mem_filter.mpr ⟨mem_entries.mpr here, decide_eq_true chosen⟩
        have least := (closure_le_of_best best candidate).trans closed
        exact .inr (.inr (covered_of_closure_le fair least))
    · exact .inr (.inl unfit)
  | case4 frontier s short c best closes s' admitted ih =>
    have member := mem_entries.mp (List.mem_filter.mp (List.argmax_mem best)).1
    obtain ⟨grows, longer⟩ := grows_of_admitFact admitted
    refine ih (progress.step (free c.1 c.2 member).1 admitted) (by omega)
      (fun mode factId member => ?_) free
    exact (pending mode factId member).imp id (Unfit.mono grows)
  | case5 frontier s short c best closes refused ih =>
    obtain ⟨member, fresh⟩ := List.mem_filter.mp (List.argmax_mem best)
    have unfit := admitFact_eq_none refused (free c.1 c.2 (mem_entries.mp member)).2
      (of_decide_eq_true fresh)
    refine ih progress room (fun mode factId member => ?_) fun mode factId member =>
      free mode factId (mem_without.mp member).1
    rcases pending mode factId member with here | before
    · by_cases same : (mode, factId) = c
      · subst same
        exact .inr unfit
      · exact .inl (mem_without.mpr ⟨here, same⟩)
    · exact .inr before

omit [Sub σ] in
theorem explore_keeps (num : Arithmetic σ) (reserve : Nat) (pool : List (Mode × Int))
    (progress : Progress byteCost q r known s)
    (room : (s.selected.length + reserve : Nat) ≤ r.maxResults) (all : ∀ c ∈ pool, c.2 ∈ known) :
    Progress byteCost q r known (explore num byteCost q r reserve pool s) ∧
      ((explore num byteCost q r reserve pool s).selected.length : Int) ≤ r.maxResults ∧
      Grows s (explore num byteCost q r reserve pool s) := by
  fun_induction explore num byteCost q r reserve pool s with
  | case1 pool s => exact ⟨progress, by omega, .refl s⟩
  | case2 pool s reserve none_left => exact ⟨progress, by omega, .refl s⟩
  | case3 pool s reserve c best s' admitted ih =>
    obtain ⟨grows, longer⟩ := grows_of_admitFact admitted
    obtain ⟨after, within, later⟩ := ih
      (progress.step (all c (List.argmax_mem best)) admitted) (by omega)
      fun d member => all d (List.mem_filter.mp member).1
    exact ⟨after, within, grows.trans later⟩
  | case4 pool s reserve c best refused ih =>
    exact ih progress room fun d member => all d (List.mem_filter.mp member).1

theorem phases_keeps (num : Arithmetic σ) (coreWidth frontierWidth : Int) (fair : q.Fair)
    (some_result : 1 ≤ r.maxResults) (positive : ∀ limit ∈ r.maxBytes, 1 ≤ limit)
    (all : ∀ mode, ∀ factId ∈ q.ranking mode, factId ∈ known) :
    Progress byteCost q r known (phases num byteCost q r coreWidth frontierWidth) ∧
      ((phases num byteCost q r coreWidth frontierWidth).selected.length : Int) ≤ r.maxResults ∧
      (r.maxResults ≤ (phases num byteCost q r coreWidth frontierWidth).selected.length ∨
        Settled byteCost q r (fun mode => (head q frontierWidth mode).filter fun factId =>
          factId ∉ r.hardExclusions) (phases num byteCost q r coreWidth frontierWidth)) := by
  have heads : ∀ mode, ∀ factId ∈ head q frontierWidth mode, factId ∈ known :=
    fun mode factId member => all mode factId (List.mem_of_mem_take member)
  obtain ⟨progress, room⟩ := core_keeps num coreWidth
    (@Progress.start σ byteCost q r known positive)
    (by simp only [List.length_nil]; omega) (all .direct)
  obtain ⟨progress, room, settled⟩ := reduce_keeps num fair progress room
    (fun mode factId (member : factId ∈ (head q frontierWidth mode).filter fun factId =>
      factId ∉ r.hardExclusions) => .inl member) fun mode factId member =>
      ⟨heads mode factId (List.mem_filter.mp member).1,
        of_decide_eq_true (List.mem_filter.mp member).2⟩
  unfold phases
  simp only
  generalize reduce num byteCost q r _ _ = s at progress room settled ⊢
  obtain ⟨progress', room', grows⟩ := explore_keeps num
    (min r.explorationReserve (r.maxResults - s.selected.length)).toNat
    ((entries (head q frontierWidth)).filter fun c =>
      c.2 ∉ s.selected ∧ c.2 ∉ r.hardExclusions) progress (by omega)
    fun c member => heads c.1 c.2 (mem_entries.mp (List.mem_filter.mp member).1)
  refine ⟨progress', room', settled.imp (fun full => full.trans ?_) (Settled.mono grows)⟩
  exact_mod_cast grows.selected.length_le

end

section

variable {σ : Type} [Zero σ] [LinearOrder σ] {num : Arithmetic σ}

theorem weight_pos_of_compiled {query : RawCausalChannels} {o : SearchObligation σ}
    (member : o ∈ compileObligations num query) : 0 < o.weight := by
  obtain ⟨⟨key, o'⟩, inside, rfl⟩ := List.mem_map.mp member
  have added : (key, o') ∈ observedObligations num query :=
    (Dict.get_update_eq_some (Dict.mem_sortedBy.mp inside)).resolve_right (by simp)
  have plain (kind : ObligationKind) (value : String)
      (same : obligation kind value (num.kindWeight kind) = (key, o')) : 0 < o'.weight := by
    cases same
    exact num.kindWeight_pos kind
  simp only [observedObligations, List.mem_append, List.mem_map] at added
  rcases added with ((((((⟨token, -, same⟩ | ⟨value, -, same⟩) | ⟨value, -, same⟩) |
    ⟨value, -, same⟩) | ⟨value, -, same⟩) | asked) | negative) | modal
  · cases same
    exact num.repeated_pos _
  · exact plain _ _ same
  · exact plain _ _ same
  · exact plain _ _ same
  · exact plain _ _ same
  · split at asked
    · exact plain _ _ (List.mem_singleton.mp asked).symm
    · cases asked
  · split at negative
    · exact plain _ _ (List.mem_singleton.mp negative).symm
    · cases negative
  · split at modal
    · exact plain _ _ (List.mem_singleton.mp modal).symm
    · cases modal

variable [Add σ] [Sub σ] [Mul σ] (num) (e : HorizonSearchEngine σ) (r : SearchRequest)

theorem fair_compile (query : String) : (e.compile num query).Fair where
  positive := fun _ => weight_pos_of_compiled
  within := by
    intro factId key covers
    obtain ⟨o, member, rfl⟩ := List.mem_map.mp covers
    exact List.mem_map_of_mem (List.mem_filter.mp member).1

theorem mem_ids_of_ranking {query : String} {mode : Mode} {factId : Int}
    (member : factId ∈ e.ranking num query mode) : factId ∈ e.ids := by
  have row : ∀ row ∈ e.components query, row.factId ∈ e.ids := by
    intro row inside
    unfold HorizonSearchEngine.ids
    rw [← e.components_ids query]
    exact List.mem_map_of_mem inside
  have sorted {κ : Type} [LinearOrder κ] (key : SignedChannelScore σ → κ)
      (there : factId ∈ HorizonSearchEngine.rankIds (e.components query) key) :
      factId ∈ e.ids := by
    obtain ⟨found, inside, rfl⟩ := List.mem_map.mp there
    exact row found ((List.perm_insertionSort _ _).mem_iff.mp inside)
  have weighed (w : FieldWeights σ)
      (there : factId ∈ (ranked (e.components query) w).map SignedChannelScore.factId) :
      factId ∈ e.ids := by
    obtain ⟨found, inside, rfl⟩ := List.mem_map.mp there
    obtain ⟨source, within, rfl⟩ :=
      List.mem_map.mp ((List.perm_insertionSort _ _).mem_iff.mp inside)
    exact row source within
  cases mode with
  | cavity => exact (e.cavity_ids query).mem_iff.mp member
  | direct => exact weighed _ member
  | entity => exact sorted _ member
  | field => exact weighed _ member
  | observable => exact sorted _ member
  | relation => exact sorted _ member

def Accepts : Prop :=
  (blank r.queryText = false ∧ 1 ≤ r.maxResults ∧ 0 ≤ r.explorationReserve) ∧
    (∀ limit ∈ r.maxBytes, 1 ≤ limit) ∧ 1 ≤ activeCoreWidth e r ∧
    ∀ factId ∈ r.hardExclusions, factId ∈ e.ids

/-- The law of a result: what it holds is new, admitted and within the limits, its residual is what
no document of it covers, and where results are left, nothing that still fits closes more. -/
structure SearchLaw (p : ProofPressureResult σ) : Prop where
  nodup : p.factIds.Nodup
  known : ∀ factId ∈ p.factIds, factId ∈ e.ids
  free : ∀ factId ∈ p.factIds, factId ∉ r.hardExclusions
  atMost : (p.factIds.length : Int) ≤ r.maxResults
  bytes : p.bytesSelected = (p.factIds.map e.byteCost).sum
  within : ∀ limit ∈ r.maxBytes, (p.bytesSelected : Int) ≤ limit
  obligations : p.obligations = (e.compile num r.queryText).obligations
  residual : ∀ key, key ∈ p.residual ↔ Uncovered (e.compile num r.queryText) p.factIds key
  admitted : p.admissions.map SearchAdmission.factId = p.factIds
  running : ∀ front a back, p.admissions = front ++ a :: back → ∀ key, key ∈ a.residualAfter ↔
    Uncovered (e.compile num r.queryText) (front.map SearchAdmission.factId ++ [a.factId]) key
  closed : p.proofClosed = true ↔ p.residual = []
  maximal : (p.factIds.length : Int) < r.maxResults → ∀ mode,
    ∀ factId ∈ (e.ranking num r.queryText mode).take e.frontierWidth.toNat,
      factId ∉ p.factIds → factId ∉ r.hardExclusions →
      (∀ limit ∈ r.maxBytes, (p.bytesSelected + e.byteCost factId : Nat) ≤ limit) →
      ∀ key ∈ (e.compile num r.queryText).coverage factId, key ∉ p.residual

instance : Decidable (Accepts e r) := by
  unfold Accepts
  infer_instance

theorem search_of_accepts (accepts : Accepts e r) :
    let q := e.compile num r.queryText
    let s := phases num e.byteCost q r (activeCoreWidth e r) e.frontierWidth
    search num e r = .ok ⟨s.selected, q.obligations, s.admissions, q.residual s.closed,
      (q.residual s.closed).isEmpty, s.usedBytes, sortedSet id r.hardExclusions⟩ := by
  obtain ⟨asked, positive, wide, excluded⟩ := accepts
  simp only [search, require_of asked, require_of positive, require_of wide, require_of excluded,
    ok_bind]
  rfl

theorem law_of_progress {s : SearchState σ}
    (progress : Progress e.byteCost (e.compile num r.queryText) r e.ids s)
    (room : (s.selected.length : Int) ≤ r.maxResults)
    (ends : r.maxResults ≤ s.selected.length ∨ Settled e.byteCost (e.compile num r.queryText) r
      (fun mode => (head (e.compile num r.queryText) e.frontierWidth mode).filter fun factId =>
        factId ∉ r.hardExclusions) s) :
    SearchLaw num e r ⟨s.selected, (e.compile num r.queryText).obligations, s.admissions,
      (e.compile num r.queryText).residual s.closed,
      ((e.compile num r.queryText).residual s.closed).isEmpty, s.usedBytes,
      sortedSet id r.hardExclusions⟩ := by
  have left (key : String) : key ∈ (e.compile num r.queryText).residual s.closed ↔
      Uncovered (e.compile num r.queryText) s.selected key := mem_residual progress.closed
  refine ⟨progress.nodup, progress.known, progress.free, room, progress.bytes, progress.fits, rfl,
    ?_, progress.admitted, progress.running, ?_, ?_⟩
  all_goals dsimp only
  · exact left
  · rw [List.isEmpty_iff]
  · intro fewer mode factId ahead fresh free fits key covers open_key
    obtain ⟨-, uncovered⟩ := (left key).mp open_key
    have settled := ends.resolve_left (not_le.mpr fewer)
    rcases settled mode factId (List.mem_filter.mpr ⟨ahead, decide_eq_true free⟩) with
      chosen | ⟨limit, bound, above⟩ | covered
    · exact fresh chosen
    · exact absurd (fits limit bound) (not_le.mpr above)
    · obtain ⟨other, member, covers'⟩ := (progress.closed key).mp (covered key covers)
      exact uncovered other member covers'

/-- A search that is accepted ends with a result that meets the law; any other is refused. -/
theorem search_meets_law : (Accepts e r ∧ ∃ p, search num e r = .ok p ∧ SearchLaw num e r p) ∨
    (¬ Accepts e r ∧ ∃ message, search num e r = .error (.valueError message)) := by
  by_cases accepts : Accepts e r
  · obtain ⟨progress, room, ends⟩ := phases_keeps num (activeCoreWidth e r) e.frontierWidth
      (fair_compile num e r.queryText) accepts.1.2.1 accepts.2.1
      (fun mode factId (member : factId ∈ e.ranking num r.queryText mode) =>
        mem_ids_of_ranking num e member)
    exact .inl ⟨accepts, _, search_of_accepts num e r accepts,
      law_of_progress num e r progress room ends⟩
  · refine .inr ⟨accepts, ?_⟩
    cases answer : search num e r with
    | ok p =>
      simp only [search, bind_eq_ok, require_eq_ok] at answer
      obtain ⟨-, asked, -, positive, -, wide, -, excluded, -⟩ := answer
      exact absurd ⟨asked, positive, wide, excluded⟩ accepts
    | error refusal =>
      simp only [search, bind_eq_error, require_eq_error, pure_ne_error, and_false, exists_false,
        or_false] at answer
      rcases answer with ⟨-, rfl⟩ | ⟨-, -, ⟨-, rfl⟩ | ⟨-, -, ⟨-, rfl⟩ | ⟨-, -, -, rfl⟩⟩⟩
      all_goals exact ⟨_, rfl⟩

end

end ProofRay.Recall
