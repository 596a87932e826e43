/- Witness frontloading: the best witnesses of each query first, then everything else in its order
   (`witness_frontload.py`). -/

import ProofRay.Lib.Lines
import ProofRay.OpenText.Documents
import ProofRay.Recall.Independent

namespace ProofRay.Frontload

open Engine (PyError)
open Lib.Guard
open Lib.Lines
open OpenText (checked)
open Recall (Arithmetic Collection Observer RawCausalDocument independentEngine
  plainParameters search search_meets_law)
open Sidecar (blank encode)

section

variable {σ : Type} [Field σ] [LinearOrder σ] [IsStrictOrderedRing σ] (num : Arithmetic σ)
  (log : σ → σ) (o : Observer)

/-- `documents`: the texts under the ids from 1. -/
def rawDocuments (texts : List String) : List RawCausalDocument :=
  texts.zipIdx.map fun e => ⟨(e.2 : Int) + 1, e.1, 0, e.2 + 1⟩

/-- `sum(len(text.encode("utf-8")) + 1 for text in texts)`. -/
def totalBytes (texts : List String) : Nat :=
  (texts.map fun text => (encode text).length + 1).sum

theorem one_le_frontier (n : Nat) : (1 : Int) ≤ max 32 (n : Int) := by omega

/-- `_rank_indexes`. -/
def rankIndexes (query : String) (texts : List String) : Except PyError (List Nat) := do
  let documents := rawDocuments texts
  if documents = [] ∨ blank query = true then return List.range texts.length
  let collection ← checked (documents ≠ [] ∧ (documents.map RawCausalDocument.factId).Nodup)
    (fun holds => (⟨documents, holds.1, holds.2⟩ : Collection)) "documents require unique FactIds"
  let engine := independentEngine log plainParameters o collection
    (max 32 (documents.length : Int)) (one_le_frontier documents.length)
  let run ← search num engine
    { queryText := query, maxResults := documents.length,
      maxBytes := some (max 1 (totalBytes texts)), hardExclusions := [],
      explorationReserve := documents.length, coreWidth := none }
  let ranked := run.admissions.map fun item => (item.factId - 1).toNat
  return ranked ++ (List.range texts.length).filter fun index => index ∉ ranked

def turn (taken : List Nat) (depth : Nat) (ranking : List Nat) : List Nat :=
  match (ranking.drop depth).find? fun index => index ∉ taken with
  | some candidate => taken ++ [candidate]
  | none => taken

/-- `prefix`. -/
def witnesses (witnessesPerQuery : Nat) (rankings : List (List Nat)) : List Nat :=
  (List.range witnessesPerQuery).foldl
    (fun taken depth => rankings.foldl (fun taken ranking => turn taken depth ranking) taken) []

/-- `order`. -/
def order (witnessesPerQuery : Nat) (rankings : List (List Nat)) (length : Nat) : List Nat :=
  let first := witnesses witnessesPerQuery rankings
  first ++ (List.range length).filter fun index => index ∉ first

/-- `QueryWitnessFrontloadConfig`. -/
structure QueryWitnessFrontloadConfig where
  witnessesPerQuery : Nat
  positive : 1 ≤ witnessesPerQuery

/-- `queries`. -/
def queries (finalQuestion : String) (turnQueries : List String) : List String :=
  (finalQuestion :: turnQueries).filter fun query => !blank query

/-- `frontload_query_witnesses`. -/
def frontloadQueryWitnesses {α : Type} (textOf : α → String)
    (config : QueryWitnessFrontloadConfig) (items : List α) (finalQuestion : String)
    (turnQueries : List String) : Except PyError (List α) := do
  if items.length < 2 then return items
  let texts := items.map textOf
  let asked := queries finalQuestion turnQueries
  if asked = [] then return items
  let rankings ← asked.mapM fun query => rankIndexes num log o query texts
  return (order config.witnessesPerQuery rankings items.length).filterMap fun index => items[index]?

/-- `frontload_text_lines`. -/
def frontloadTextLines (config : QueryWitnessFrontloadConfig) (answerText : List Char)
    (finalQuestion : String) (turnQueries : List String) : Except PyError (List Char) := do
  let lines := splitLines answerText
  if lines.length < 2 then return answerText
  let ordered ← frontloadQueryWitnesses num log o String.ofList config lines finalQuestion
    turnQueries
  return join ordered

end

/-- `len(line.encode("utf-8"))`. -/
def size (line : List Char) : Nat := (String.ofList line).utf8ByteSize

def fill (maxBytes : Nat) : List (List Char) → List (List Char) → Nat → List (List Char)
  | [], selected, _ => selected
  | line :: lines, selected, used =>
    let cost := size line + if selected = [] then 0 else 1
    if maxBytes < used + cost then selected
    else fill maxBytes lines (selected ++ [line]) (used + cost)

/-- `utf8_line_prefix`. -/
def utf8LinePrefix (text : List Char) (maxBytes : Int) : Except PyError (List Char) := do
  require (1 ≤ maxBytes) (.valueError "max_bytes must be positive")
  return join (fill maxBytes.toNat (splitLines text) [] 0)

variable {taken ranking : List Nat} {maxBytes : Nat} {n : Nat}

theorem perm_append_rest {taken : List Nat} (nodup : taken.Nodup)
    (known : ∀ index ∈ taken, index < n) :
    (taken ++ (List.range n).filter fun index => index ∉ taken).Perm (List.range n) := by
  refine (List.perm_ext_iff_of_nodup ?_ List.nodup_range).mpr fun index => ?_
  · refine nodup.append (List.nodup_range.filter _) fun index here there => ?_
    have absent := (List.mem_filter.mp there).2
    rw [decide_eq_true_eq] at absent
    exact absent here
  · rw [List.mem_append, List.mem_filter, List.mem_range, decide_eq_true_eq]
    constructor
    · rintro (here | ⟨inside, -⟩)
      · exact known index here
      · exact inside
    · intro inside
      by_cases here : index ∈ taken
      · exact .inl here
      · exact .inr ⟨inside, here⟩

theorem subset_turn (taken : List Nat) (depth : Nat) (ranking : List Nat) :
    taken ⊆ turn taken depth ranking := by
  unfold turn
  split
  · exact List.subset_append_left _ _
  · exact List.Subset.refl _

variable {depth : Nat}

theorem turn_eq (past : ranking.take depth ⊆ taken) :
    turn taken depth ranking = turn taken 0 ranking := by
  have skipped : (ranking.take depth).find? (fun index => index ∉ taken) = none := by
    rw [List.find?_eq_none]
    intro index member
    simpa using past member
  have whole : ranking.find? (fun index => index ∉ taken) =
      (ranking.drop depth).find? fun index => index ∉ taken := by
    conv_lhs => rw [← List.take_append_drop depth ranking, List.find?_append, skipped]
    rfl
  unfold turn
  rw [List.drop_zero, whole]

theorem take_succ_subset_turn (past : ranking.take depth ⊆ taken) :
    ranking.take (depth + 1) ⊆ turn taken depth ranking := by
  rw [List.take_add_one]
  refine List.append_subset.mpr ⟨List.Subset.trans past (subset_turn _ _ _), fun index here => ?_⟩
  by_cases known : index ∈ taken
  · exact subset_turn _ _ _ known
  · have found : (ranking.drop depth).find? (fun index => index ∉ taken) = some index := by
      have first : (ranking.drop depth).head? = some index := by
        rw [List.head?_drop]
        exact Option.mem_toList.mp here
      obtain ⟨rest, same⟩ := List.head?_eq_some_iff.mp first
      rw [same, List.find?_cons_of_pos (by simpa using known)]
    unfold turn
    rw [found]
    exact List.mem_append_right _ (List.mem_singleton_self _)

theorem round_eq : ∀ (rankings : List (List Nat)) (taken : List Nat),
    (∀ ranking ∈ rankings, ranking.take depth ⊆ taken) →
      rankings.foldl (fun taken ranking => turn taken depth ranking) taken =
          rankings.foldl (fun taken ranking => turn taken 0 ranking) taken ∧
        taken ⊆ rankings.foldl (fun taken ranking => turn taken depth ranking) taken ∧
        ∀ ranking ∈ rankings, ranking.take (depth + 1) ⊆
          rankings.foldl (fun taken ranking => turn taken depth ranking) taken := by
  intro rankings
  induction rankings with
  | nil =>
    intro taken _
    exact ⟨rfl, List.Subset.refl _, fun _ member => absurd member List.not_mem_nil⟩
  | cons first rankings ih =>
    intro taken past
    have past_first := past first List.mem_cons_self
    obtain ⟨same, grown, deeper⟩ := ih (turn taken depth first) fun ranking member =>
      List.Subset.trans (past ranking (List.mem_cons_of_mem _ member)) (subset_turn _ _ _)
    simp only [List.foldl_cons]
    refine ⟨?_, List.Subset.trans (subset_turn _ _ _) grown, fun ranking member => ?_⟩
    · rw [same, turn_eq past_first]
    · rcases List.mem_cons.mp member with rfl | later
      · exact List.Subset.trans (take_succ_subset_turn past_first) grown
      · exact deeper ranking later

theorem witnesses_eq (k : Nat) (rankings : List (List Nat)) :
    witnesses k rankings =
      (List.replicate k rankings).flatten.foldl (fun taken ranking => turn taken 0 ranking) [] ∧
    ∀ ranking ∈ rankings, ranking.take k ⊆ witnesses k rankings := by
  induction k with
  | zero => exact ⟨rfl, fun ranking _ => by rw [List.take_zero]; exact List.nil_subset _⟩
  | succ k ih =>
    obtain ⟨walked, past⟩ := ih
    have next : witnesses (k + 1) rankings =
        rankings.foldl (fun taken ranking => turn taken k ranking) (witnesses k rankings) := by
      unfold witnesses
      rw [List.range_succ, List.foldl_append]
      rfl
    obtain ⟨same, -, deeper⟩ := round_eq rankings (witnesses k rankings) past
    refine ⟨?_, fun ranking member => ?_⟩
    · rw [next, same, List.replicate_succ', List.flatten_append, List.foldl_append, ← walked]
      simp
    · rw [next]
      exact deeper ranking member

theorem walk_spec : ∀ (rankings : List (List Nat)) (taken : List Nat), taken.Nodup →
    (∀ index ∈ taken, index < n) → (∀ ranking ∈ rankings, ranking.Perm (List.range n)) →
    ∃ chosen, rankings.foldl (fun taken ranking => turn taken 0 ranking) taken = taken ++ chosen ∧
      (taken ++ chosen).Nodup ∧ (∀ index ∈ taken ++ chosen, index < n) ∧
      chosen.length = min rankings.length (n - taken.length) ∧
      ∀ j ranking, rankings[j]? = some ranking → taken.length + j < n →
        chosen[j]? = ranking.find? fun index => index ∉ taken ++ chosen.take j := by
  intro rankings
  induction rankings with
  | nil =>
    intro taken nodup known _
    refine ⟨[], by simp, by simpa using nodup, by simpa using known, by simp, ?_⟩
    intro j ranking here
    cases here
  | cons first rankings ih =>
    intro taken nodup known perms
    have perm := perms first List.mem_cons_self
    have others := fun ranking member => perms ranking (List.mem_cons_of_mem first member)
    cases found : first.find? fun index => index ∉ taken with
    | none =>
      -- every index is taken, and stays so
      have all_taken : List.range n ⊆ taken := by
        intro index member
        have looked := List.find?_eq_none.mp found index (perm.symm.subset member)
        simpa using looked
      have full : n ≤ taken.length := by
        have bound := (List.nodup_range.subperm all_taken).length_le
        rwa [List.length_range] at bound
      have same : turn taken 0 first = taken := by
        unfold turn
        rw [List.drop_zero, found]
      obtain ⟨chosen, walked, nodup', known', length, -⟩ := ih taken nodup known others
      refine ⟨chosen, by rw [List.foldl_cons, same, walked], nodup', known', ?_, ?_⟩
      · rw [length]
        omega
      · intro j ranking _ inside
        omega
    | some best =>
      have fresh : best ∉ taken := by
        simpa using List.find?_some found
      have inside : best < n := List.mem_range.mp (perm.subset (List.mem_of_find?_eq_some found))
      have step : turn taken 0 first = taken ++ [best] := by
        unfold turn
        rw [List.drop_zero, found]
      have nodup_step : (taken ++ [best]).Nodup := by
        refine nodup.append (List.nodup_singleton best) fun index here there => ?_
        rw [List.mem_singleton.mp there] at here
        exact fresh here
      have known_step : ∀ index ∈ taken ++ [best], index < n := by
        intro index member
        rcases List.mem_append.mp member with here | there
        · exact known index here
        · rw [List.mem_singleton.mp there]
          exact inside
      obtain ⟨chosen, walked, nodup', known', length, picks⟩ :=
        ih (taken ++ [best]) nodup_step known_step others
      have regroup : taken ++ [best] ++ chosen = taken ++ (best :: chosen) := by simp
      rw [regroup] at walked nodup' known'
      refine ⟨best :: chosen, by rw [List.foldl_cons, step, walked], nodup', known', ?_, ?_⟩
      · have bound : taken.length < n := by
          have count := (nodup_step.subperm fun index member =>
            List.mem_range.mpr (known_step index member)).length_le
          rw [List.length_append, List.length_singleton, List.length_range] at count
          exact count
        rw [List.length_append, List.length_singleton] at length
        rw [List.length_cons, List.length_cons, length]
        omega
      · intro j ranking here room
        cases j with
        | zero =>
          cases here
          rw [List.take_zero, List.append_nil, found]
          rfl
        | succ j =>
          rw [List.getElem?_cons_succ] at here ⊢
          have picked := picks j ranking here (by
            rw [List.length_append, List.length_singleton]
            omega)
          rw [picked]
          simp

section

variable {σ : Type} [Field σ] [LinearOrder σ] [IsStrictOrderedRing σ] (num : Arithmetic σ)
  (log : σ → σ) (o : Observer)

theorem rawDocuments_factIds (texts : List String) :
    (rawDocuments texts).map RawCausalDocument.factId =
      (List.range texts.length).map fun n : Nat => (n : Int) + 1 := by
  rw [rawDocuments, List.map_map, List.range_eq_range', ← List.zipIdx_map_snd 0 texts, List.map_map]
  rfl

theorem exists_rankIndexes {query : String} (asked : blank query = false) (texts : List String) :
    ∃ ranking, rankIndexes num log o query texts = .ok ranking ∧
      ranking.Perm (List.range texts.length) := by
  unfold rankIndexes
  by_cases none_documents : rawDocuments texts = [] ∨ blank query = true
  · simp only [if_pos none_documents]
    exact ⟨_, rfl, List.Perm.refl _⟩
  simp only [if_neg none_documents]
  have some_document : rawDocuments texts ≠ [] := (not_or.mp none_documents).1
  have unique : ((rawDocuments texts).map RawCausalDocument.factId).Nodup := by
    rw [rawDocuments_factIds]
    exact List.nodup_range.map fun _ _ same => by omega
  have positive : (1 : Int) ≤ (rawDocuments texts).length :=
    by exact_mod_cast List.length_pos_of_ne_nil some_document
  rw [OpenText.checked_eq_ok.mpr ⟨⟨some_document, unique⟩, rfl⟩]
  generalize engine_here : independentEngine log plainParameters o
    ⟨rawDocuments texts, some_document, unique⟩ (max 32 ((rawDocuments texts).length : Int))
      (one_le_frontier (rawDocuments texts).length) = engine
  have ids : engine.ids = (List.range texts.length).map fun n : Nat => (n : Int) + 1 := by
    rw [← engine_here, ← rawDocuments_factIds]
    rfl
  have width : engine.coreWidth = 1 := by
    rw [← engine_here]
    rfl
  rcases search_meets_law num engine
    { queryText := query, maxResults := (rawDocuments texts).length,
      maxBytes := some (max 1 (totalBytes texts)), hardExclusions := [],
      explorationReserve := (rawDocuments texts).length, coreWidth := none } with
    ⟨-, run, found, law⟩ | ⟨refused, -⟩
  · refine ⟨_, ?_, @perm_append_rest texts.length
      (run.admissions.map fun item => (item.factId - 1).toNat) ?_ ?_⟩
    · show (search num (independentEngine log plainParameters o _ _ _) _ >>= _) = _
      rw [engine_here, found]
      rfl
    · have named : run.admissions.map (fun item => (item.factId - 1).toNat) =
          run.factIds.map fun factId => (factId - 1).toNat := by
        rw [← law.admitted, List.map_map]
        rfl
      rw [named]
      refine law.nodup.map_on fun a here b there same => ?_
      have known_a := law.known a here
      have known_b := law.known b there
      rw [ids] at known_a known_b
      obtain ⟨n, -, rfl⟩ := List.mem_map.mp known_a
      obtain ⟨m, -, rfl⟩ := List.mem_map.mp known_b
      omega
    · intro index member
      obtain ⟨item, here, rfl⟩ := List.mem_map.mp member
      have known := law.known item.factId (by
        rw [← law.admitted]
        exact List.mem_map_of_mem here)
      rw [ids] at known
      obtain ⟨n, inside, same⟩ := List.mem_map.mp known
      rw [← same]
      have bound := List.mem_range.mp inside
      omega
  · refine absurd ⟨⟨asked, positive, Int.natCast_nonneg _⟩, ?_, ?_, ?_⟩ refused
    · intro limit same
      cases same
      omega
    · show 1 ≤ engine.coreWidth
      rw [width]
    · intro factId member
      cases member

omit [Field σ] [LinearOrder σ] [IsStrictOrderedRing σ] in
theorem perm_of_indexes {α : Type} {items : List α} {indexes : List Nat}
    (perm : indexes.Perm (List.range items.length)) :
    (indexes.filterMap fun index => items[index]?).Perm items ∧
      (indexes.filterMap fun index => items[index]?).map some =
        indexes.map fun index => items[index]? := by
  have mapped : (List.range items.length).map (fun index => items[index]?) = items.map some := by
    refine List.ext_getElem (by simp) fun i left right => ?_
    simp
  have read (l : List Nat) (inside : ∀ index ∈ l, index < items.length) :
      (l.filterMap fun index => items[index]?).map some = l.map fun index => items[index]? := by
    induction l with
    | nil => rfl
    | cons index l ih =>
      have here := List.getElem?_eq_getElem (inside index List.mem_cons_self)
      rw [List.filterMap_cons_some here, List.map_cons, List.map_cons, here,
        ih fun index' member => inside index' (List.mem_cons_of_mem _ member)]
  have read_perm := read indexes fun index member => List.mem_range.mp (perm.subset member)
  refine ⟨?_, read_perm⟩
  have somes : ((indexes.filterMap fun index => items[index]?).map some).Perm (items.map some) := by
    rw [read_perm, ← mapped]
    exact perm.map _
  exact (List.map_perm_map_iff (Option.some_injective α)).mp somes

/-- What frontloading gives: the items in an order whose first places hold, turn by turn, the best
witness of a query that is not taken. -/
structure Frontloaded {α : Type} (witnessesPerQuery : Nat) (rankings : List (List Nat))
    (items result : List α) : Prop where
  ranked : ∀ ranking ∈ rankings, ranking.Perm (List.range items.length)
  ordered : ∃ order : List Nat, order.Perm (List.range items.length) ∧
    result.map some = (order.map fun index => items[index]?) ∧
    (∀ j ranking, (List.replicate witnessesPerQuery rankings).flatten[j]? = some ranking →
      j < items.length → order[j]? = ranking.find? fun index => index ∉ order.take j) ∧
    (order.drop (witnessesPerQuery * rankings.length)).Pairwise (· < ·)

omit [Field σ] [LinearOrder σ] [IsStrictOrderedRing σ] in
theorem order_spec {n k : Nat} {rankings : List (List Nat)}
    (perms : ∀ ranking ∈ rankings, ranking.Perm (List.range n)) :
    (order k rankings n).Perm (List.range n) ∧
    (∀ j ranking, (List.replicate k rankings).flatten[j]? = some ranking → j < n →
      (order k rankings n)[j]? = ranking.find? fun index => index ∉ (order k rankings n).take j) ∧
    ((order k rankings n).drop (k * rankings.length)).Pairwise (· < ·) := by
  have all_perms : ∀ ranking ∈ (List.replicate k rankings).flatten,
      ranking.Perm (List.range n) := by
    intro ranking member
    obtain ⟨round, in_rounds, here⟩ := List.mem_flatten.mp member
    rw [List.eq_of_mem_replicate in_rounds] at here
    exact perms ranking here
  obtain ⟨chosen, walked, nodup, known, length, picks⟩ :=
    walk_spec (n := n) _ [] List.nodup_nil (fun _ member => absurd member List.not_mem_nil)
      all_perms
  rw [List.nil_append] at walked nodup known
  have first : witnesses k rankings = chosen := (witnesses_eq k rankings).1.trans walked
  have turns : (List.replicate k rankings).flatten.length = k * rankings.length := by
    simp
  rw [turns, List.length_nil, Nat.sub_zero] at length
  unfold order
  rw [first]
  refine ⟨perm_append_rest nodup known, ?_, ?_⟩
  · intro j ranking here inside
    have within : j < (List.replicate k rankings).flatten.length :=
      (List.getElem?_eq_some_iff.mp here).1
    have placed : j < chosen.length := by
      rw [length]
      omega
    have picked := picks j ranking here (by rw [List.length_nil]; omega)
    simp only [List.nil_append] at picked
    rw [List.getElem?_append_left placed, List.take_append_of_le_length placed.le]
    exact picked
  · have past : chosen.length ≤ k * rankings.length := by
      rw [length]
      exact Nat.min_le_left _ _
    rw [List.drop_append, List.drop_eq_nil_of_le past, List.nil_append]
    have rising : (List.range n).Pairwise (· < ·) := List.pairwise_lt_range
    exact (rising.sublist List.filter_sublist).sublist (List.drop_sublist _ _)

theorem exists_frontloaded {α : Type} (textOf : α → String) (config : QueryWitnessFrontloadConfig)
    (items : List α) (finalQuestion : String) (turnQueries : List String) :
    ∃ result, frontloadQueryWitnesses num log o textOf config items finalQuestion turnQueries =
        .ok result ∧ result.Perm items ∧
      (2 ≤ items.length → ∃ rankings,
        (queries finalQuestion turnQueries).mapM
          (fun query => rankIndexes num log o query (items.map textOf)) = .ok rankings ∧
        Frontloaded config.witnessesPerQuery rankings items result) := by
  obtain ⟨rankings, ranked⟩ := exists_mapM_ok
    (f := fun query => rankIndexes num log o query (items.map textOf))
    (l := queries finalQuestion turnQueries) fun query member => by
      have asked : blank query = false := by simpa using (List.mem_filter.mp member).2
      obtain ⟨ranking, found, -⟩ := exists_rankIndexes num log o asked (items.map textOf)
      exact ⟨ranking, found⟩
  have perms : ∀ ranking ∈ rankings, ranking.Perm (List.range items.length) := by
    intro ranking member
    obtain ⟨query, here, found⟩ := mem_of_mapM_ok ranked ranking member
    have asked : blank query = false := by simpa using (List.mem_filter.mp here).2
    obtain ⟨ranking', found', perm⟩ := exists_rankIndexes num log o asked (items.map textOf)
    rw [found] at found'
    cases found'
    rwa [List.length_map] at perm
  obtain ⟨perm, picks, rising⟩ := order_spec (k := config.witnessesPerQuery) perms
  obtain ⟨permuted, read⟩ := perm_of_indexes perm
  have frontloaded : Frontloaded config.witnessesPerQuery rankings items
      ((order config.witnessesPerQuery rankings items.length).filterMap fun index =>
        items[index]?) := ⟨perms, _, perm, read, picks, rising⟩
  unfold frontloadQueryWitnesses
  by_cases few : items.length < 2
  · exact ⟨items, by rw [if_pos few]; rfl, List.Perm.refl _, fun many => by omega⟩
  simp only [if_neg few]
  by_cases none_asked : queries finalQuestion turnQueries = []
  · simp only [if_pos none_asked]
    refine ⟨items, rfl, List.Perm.refl _, fun _ => ⟨rankings, ranked, ?_⟩⟩
    -- without a ranking nothing moves
    rw [none_asked, List.mapM_nil] at ranked
    cases ranked
    refine ⟨perms, List.range items.length, List.Perm.refl _, ?_, ?_, ?_⟩
    · refine List.ext_getElem (by simp) fun i left right => ?_
      simp
    · intro j ranking here
      simp at here
    · exact List.pairwise_lt_range.sublist (List.drop_sublist _ _)
  · simp only [if_neg none_asked]
    refine ⟨_, ?_, permuted, fun _ => ⟨rankings, ranked, frontloaded⟩⟩
    show (((queries finalQuestion turnQueries).mapM
      fun query => rankIndexes num log o query (items.map textOf)) >>= _) = _
    rw [ranked]
    rfl

theorem frontloadTextLines_iff (config : QueryWitnessFrontloadConfig) (text : List Char)
    (finalQuestion : String) (turnQueries : List String) :
    ∃ result, frontloadTextLines num log o config text finalQuestion turnQueries = .ok result ∧
      ((pieces result).Perm (pieces text) ↔ (splitLines text).length < 2 ∨ Clean text) := by
  unfold frontloadTextLines
  by_cases few : (splitLines text).length < 2
  · simp only [if_pos few]
    exact ⟨text, rfl, iff_of_true (List.Perm.refl _) (.inl few)⟩
  simp only [if_neg few]
  rw [or_iff_right few]
  obtain ⟨ordered, found, perm, -⟩ := exists_frontloaded num log o String.ofList config
    (splitLines text) finalQuestion turnQueries
  refine ⟨join ordered, ?_, ?_⟩
  · rw [found]
    rfl
  have some_line : ordered ≠ [] := by
    intro empty
    have lengths := perm.length_eq
    rw [empty, List.length_nil] at lengths
    omega
  have unbroken : ∀ line ∈ ordered, '\n' ∉ line := by
    intro line member inside
    have plain := unbroken_of_mem line (perm.subset member) '\n' inside
    cases plain
  rw [pieces_join some_line unbroken]
  constructor
  · exact clean_of_perm perm
  · intro clean
    have some_char : text ≠ [] := by
      rintro rfl
      exact few (by decide)
    rw [pieces_eq_of_clean clean some_char]
    exact perm

end

theorem size_append (l l' : List Char) : size (l ++ l') = size l + size l' := by
  rw [size, String.ofList_append, String.utf8ByteSize_append]
  rfl

theorem size_newline (l : List Char) : size ('\n' :: l) = 1 + size l := size_append ['\n'] l

theorem size_le_of_prefix {l l' : List Char} (before : l <+: l') : size l ≤ size l' := by
  obtain ⟨rest, rfl⟩ := before
  rw [size_append]
  exact Nat.le_add_right _ _

theorem size_join_append (selected : List (List Char)) (line : List Char) :
    size (join (selected ++ [line])) =
      size (join selected) + (size line + if selected = [] then 0 else 1) := by
  by_cases first : selected = []
  · rw [if_pos first, first, List.nil_append, join_singleton, join_nil, Nat.add_zero]
    exact (Nat.zero_add _).symm
  · rw [if_neg first, join_append first (List.cons_ne_nil line []), join_singleton, size_append,
      size_newline, Nat.add_comm (size line)]

theorem fill_spec : ∀ (lines selected : List (List Char)),
    size (join selected) ≤ maxBytes → ∃ k ≤ lines.length,
      fill maxBytes lines selected (size (join selected)) = selected ++ lines.take k ∧
      size (join (selected ++ lines.take k)) ≤ maxBytes ∧
      (k < lines.length → maxBytes < size (join (selected ++ lines.take (k + 1)))) := by
  intro lines
  induction lines with
  | nil =>
    intro selected fits
    exact ⟨0, Nat.le_refl 0, by simp [fill], by simpa using fits, fun more => by cases more⟩
  | cons line lines ih =>
    intro selected fits
    have cost := size_join_append selected line
    simp only [fill]
    by_cases large : maxBytes < size (join selected) + (size line + if selected = [] then 0 else 1)
    · refine ⟨0, Nat.zero_le _, by rw [if_pos large]; simp, by simpa using fits, fun _ => ?_⟩
      rw [Nat.zero_add, List.take_succ_cons, List.take_zero, cost]
      exact large
    · rw [if_neg large, ← cost]
      obtain ⟨k, bound, filled, fits', more⟩ := ih (selected ++ [line]) (by omega)
      refine ⟨k + 1, Nat.succ_le_succ bound, ?_, ?_, fun inside => ?_⟩
      · rw [filled, List.take_succ_cons, List.append_assoc, List.singleton_append]
      · rw [List.take_succ_cons, List.append_cons]
        exact fits'
      · rw [List.take_succ_cons, List.append_cons]
        exact more (Nat.lt_of_succ_lt_succ inside)

/-- The longest prefix that ends at a line boundary and fits. -/
structure LongestPrefix (text : List Char) (maxBytes : Nat) (p : List Char) : Prop where
  boundary : AtBoundary text p
  fits : size p ≤ maxBytes
  longest : ∀ p', AtBoundary text p' → size p' ≤ maxBytes → p'.length ≤ p.length

theorem utf8LinePrefix_spec (text : List Char) (positive : 1 ≤ maxBytes) :
    ∃ k, utf8LinePrefix text maxBytes = .ok (join ((splitLines text).take k)) ∧
      size (join ((splitLines text).take k)) ≤ maxBytes ∧
      (k < (splitLines text).length → maxBytes < size (join ((splitLines text).take (k + 1)))) := by
  obtain ⟨k, -, filled, fits, more⟩ := fill_spec (splitLines text) []
    (show size (join []) ≤ maxBytes from Nat.zero_le _)
  simp only [List.nil_append] at filled fits more
  refine ⟨k, ?_, fits, more⟩
  unfold utf8LinePrefix
  rw [require_of (by omega : (1 : Int) ≤ maxBytes), Int.toNat_natCast]
  show Except.ok _ = _
  rw [show (0 : Nat) = size (join []) from rfl, filled]

theorem utf8LinePrefix_iff (text : List Char) :
    (∀ maxBytes : Nat, 1 ≤ maxBytes → ∃ p, utf8LinePrefix text maxBytes = .ok p ∧
      LongestPrefix text maxBytes p) ↔ Clean text := by
  constructor
  · intro right
    by_cases empty : text = []
    · rw [empty]
      exact ⟨fun _ member => absurd member List.not_mem_nil, by simp⟩
    -- a budget for the whole text
    obtain ⟨p, found, law⟩ := right (size text + 1) (Nat.le_add_left _ _)
    obtain ⟨k, found', -, -⟩ := utf8LinePrefix_spec text (Nat.le_add_left 1 (size text))
    rw [found] at found'
    cases found'
    have whole : AtBoundary text text :=
      ⟨List.prefix_refl text, .inr (by rw [List.drop_length]; rfl)⟩
    have long := law.longest text whole (Nat.le_succ _)
    exact clean_of_join (k := k) (law.boundary.1.eq_of_length_le long).symm
  · intro clean maxBytes positive
    obtain ⟨k, found, fits, more⟩ := utf8LinePrefix_spec text positive
    refine ⟨_, found, ?_⟩
    by_cases empty : text = []
    · subst empty
      simp only [splitLines_nil, List.take_nil, join_nil] at fits ⊢
      refine ⟨⟨List.prefix_refl _, .inl rfl⟩, fits, fun p' boundary _ => ?_⟩
      exact boundary.1.length_le
    have parts := pieces_eq_of_clean clean empty
    rw [← parts] at fits more ⊢
    refine ⟨atBoundary_iff.mpr ⟨k, rfl⟩, fits, fun p' boundary fits' => ?_⟩
    obtain ⟨k', rfl⟩ := atBoundary_iff.mp boundary
    by_cases order : k' ≤ k
    · exact (join_take_isPrefix _ order).length_le
    · -- a longer prefix holds one line more, which does not fit
      by_cases inside : k < (pieces text).length
      · have large := more inside
        have wider := size_le_of_prefix (join_take_isPrefix (pieces text) (show k + 1 ≤ k' by omega))
        omega
      · rw [List.take_of_length_le (show (pieces text).length ≤ k by omega),
          List.take_of_length_le (show (pieces text).length ≤ k' by omega)]

open Recall (ObligationKind RawCausalChannels.silent)

/-- `_KIND_WEIGHT`. -/
def kindWeight : ObligationKind → ℚ
  | .entity => 3
  | .number => 3
  | .temporal => 3
  | .relation => 2
  | .answer => 5 / 2
  | .polarity => 5 / 2
  | .modality => 2
  | .lexical => 1

theorem kindWeight_pos (kind : ObligationKind) : 0 < kindWeight kind := by
  cases kind <;> norm_num [kindWeight]

theorem repeated_pos (count : Nat) : (0 : ℚ) < 1 + min (1 / 2) (3 / 20 * (count - 1 : Nat)) := by
  have product : (0 : ℚ) ≤ 3 / 20 * ((count - 1 : Nat) : ℚ) := by positivity
  have least : (0 : ℚ) ≤ min (1 / 2) (3 / 20 * ((count - 1 : Nat) : ℚ)) :=
    le_min (by norm_num) product
  linarith

theorem sum_pos (l : List ℚ) (some_weight : l ≠ []) (positive : ∀ w ∈ l, 0 < w) : 0 < l.sum :=
  List.sum_pos l positive some_weight

def rationals : Arithmetic ℚ where
  one := 1
  half := 1 / 2
  fifth := 1 / 5
  quarter := 1 / 4
  kindWeight := kindWeight
  repeated count := 1 + min (1 / 2) (3 / 20 * (count - 1 : Nat))
  sum := List.sum
  reciprocal rank := 1 / (1 + rank)
  structural := 7 / 20
  costPenalty cost := Nat.log2 (1 + cost) / 100
  rounded gain := gain
  kindWeight_pos := kindWeight_pos
  repeated_pos := repeated_pos
  sum_nil := List.sum_nil
  sum_pos := sum_pos

def oneWordObserver : Observer where
  observe text _ := { RawCausalChannels.silent with lexical := [text] }
  confirmedFinding _ := false

def oneWitness : QueryWitnessFrontloadConfig := ⟨1, Nat.le_refl 1⟩

end ProofRay.Frontload
