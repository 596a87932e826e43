/- Alternative analyses: when a transport keeps them apart, and what each selection of one graph per
   set states. -/

import Mathlib.Data.List.Pairwise
import Mathlib.Data.List.Perm.Subperm
import ProofRay.Engine.Primitives
import ProofRay.Hypergraph.Derivations

namespace ProofRay.Hypergraph

open Attention
open Engine (Crypto stdCrypto)
open Lib (Dict Json)
open Sidecar (encode hexSha256)

/-- A selection of one graph for each source and alternative set. -/
structure Selection (graphs selected : List D45Graph) : Prop where
  subset : selected ⊆ graphs
  one : selected.Pairwise fun graph other => graph.group ≠ other.group
  every : ∀ graph ∈ graphs, ∃ other ∈ selected, other.group = graph.group

section

variable {c : Crypto} {graphs selected : List D45Graph}

theorem Selection.unique (selection : Selection graphs selected) :
    ∀ graph ∈ selected, ∀ other ∈ selected, graph.group = other.group → graph = other := by
  intro graph member other member' same
  by_contra differ
  have : Std.Symm fun graph other : D45Graph => graph.group ≠ other.group :=
    ⟨fun _ _ apart => apart.symm⟩
  exact selection.one.forall member member' differ same

theorem exists_selection {used : List D45Graph} (inside : used ⊆ graphs)
    (apart : ∀ graph ∈ used, ∀ other ∈ used, graph.group = other.group → graph = other) :
    ∃ selected, Selection graphs selected ∧ used ⊆ selected := by
  have picked : ∀ k : {k // k ∈ (graphs.map D45Graph.group).dedup}, ∃ graph ∈ graphs,
      graph.group = k.1 ∧ ∀ other ∈ used, other.group = k.1 → other = graph := by
    rintro ⟨k, known⟩
    by_cases some_used : ∃ graph ∈ used, graph.group = k
    · obtain ⟨graph, member, rfl⟩ := some_used
      exact ⟨graph, inside member, rfl, fun other member' same =>
        apart other member' graph member same⟩
    · obtain ⟨graph, member, same⟩ := List.mem_map.mp (List.mem_dedup.mp known)
      exact ⟨graph, member, same, fun other member' here =>
        absurd ⟨other, member', here⟩ some_used⟩
  choose pick member grouped only using picked
  refine ⟨(graphs.map D45Graph.group).dedup.attach.map pick, ⟨?_, ?_, ?_⟩, ?_⟩
  · intro graph listed
    obtain ⟨k, -, rfl⟩ := List.mem_map.mp listed
    exact member k
  · rw [List.pairwise_map]
    have once := List.nodup_attach.mpr (List.nodup_dedup (graphs.map D45Graph.group))
    refine once.imp fun {k k'} differ same => differ ?_
    rw [grouped, grouped] at same
    exact Subtype.ext same
  · intro graph inGraphs
    have known := List.mem_dedup.mpr (List.mem_map_of_mem (f := D45Graph.group) inGraphs)
    exact ⟨pick ⟨_, known⟩, List.mem_map_of_mem (List.mem_attach _ _), grouped _⟩
  · intro graph inUsed
    have known := List.mem_dedup.mpr (List.mem_map_of_mem (f := D45Graph.group) (inside inUsed))
    rw [only ⟨_, known⟩ graph inUsed rfl]
    exact List.mem_map_of_mem (List.mem_attach _ _)

theorem Transportable.selection (able : Transportable c graphs)
    (selection : Selection graphs selected) : Transportable c selected := by
  have once : selected.Nodup := selection.one.imp fun {graph other} apart same =>
    apart (congrArg D45Graph.group same)
  refine ⟨?_, ?_, ?_, ?_, ?_⟩
  · rintro rfl
    obtain ⟨graph, member⟩ := List.exists_mem_of_ne_nil _ able.nonempty
    obtain ⟨other, none, -⟩ := selection.every graph member
    cases none
  · exact (List.Nodup.subperm once selection.subset).length_le.trans able.bounded
  · exact fun graph member other member' =>
      able.oneScope graph (selection.subset member) other (selection.subset member')
  · exact fun graph member other member' =>
      able.oneSource graph (selection.subset member) other (selection.subset member')
  · exact fun graph member => able.sealed_ graph (selection.subset member)

theorem Selection.not_excludes (selection : Selection graphs selected) (label other : String) :
    ¬Excludes selected label other := by
  rintro ⟨differ, graph, member, graph', member', same, rfl, rfl⟩
  exact differ (congrArg D45Graph.environmentLabel
    (selection.unique graph member graph' member' same))

theorem Testified.mono {row : D45Row} (testified : Testified c selected row)
    (inside : selected ⊆ graphs) : Testified c graphs row := by
  obtain ⟨⟨graph, member, inRows⟩, sound⟩ := testified
  exact ⟨⟨graph, inside member, inRows⟩, sound⟩

end

/-- No derivation uses facts of two graphs of one group, each output is one of a selection, and the
outputs of every selection are outputs. -/
structure Separates (c : Crypto) (graphs : List D45Graph) : Prop where
  apart : ∀ executor, Executes c graphs executor → ∀ program assignment choice,
    Homomorphism c executor program assignment choice →
    ∀ i < program.goals.length, ∀ j < program.goals.length, ∀ row row',
      Cites c graphs (choice i) row → Cites c graphs (choice j) row' →
      row.graph.group = row'.graph.group → row.graph = row'.graph
  sound : ∀ program, ∀ values ∈ outputsOf c graphs program,
    ∃ selected, Selection graphs selected ∧ values ∈ outputsOf c selected program
  complete : ∀ program selected, Selection graphs selected →
    outputsOf c selected program ⊆ outputsOf c graphs program

def Distinct (c : Crypto) (graphs : List D45Graph) : Prop :=
  ∀ row row', Testified c graphs row → Testified c graphs row' →
    row.graph.group = row'.graph.group →
    row.graph.environmentLabel = row'.graph.environmentLabel → row.graph = row'.graph

def Stated (c : Crypto) (graphs : List D45Graph) : Prop :=
  ∀ selected, Selection graphs selected → ∃ stating : List D45Graph, stating ⊆ graphs ∧
    (∀ graph ∈ stating, ∀ other ∈ stating,
      ¬Excludes graphs graph.environmentLabel other.environmentLabel) ∧
    ∀ row, Testified c selected row → ∃ row', Testified c stating row' ∧
      row'.component.predicate = row.component.predicate ∧
      row'.component.arguments = row.component.arguments

def D45Row.goal (row : D45Row) : RelationalGoal where
  predicate := row.component.predicate
  arguments := row.component.arguments
  checked := ⟨row.component.checked.1, row.component.checked.2.1, fun empty =>
    (row.component.checked.2.2 _ empty).plain.1 rfl⟩

def D45Row.asking (row : D45Row) : RelationalGoal where
  predicate := row.component.predicate
  arguments := "?X" :: row.component.arguments.tail
  checked := ⟨row.component.checked.1, List.cons_ne_nil _ _, fun empty => by
    rcases List.mem_cons.mp empty with first | later
    · exact absurd first (by decide)
    · exact (row.component.checked.2.2 _ (List.mem_of_mem_tail later)).plain.1 rfl⟩

def probe (row : D45Row) (rows : List D45Row) : ConjunctiveProgram where
  goals := row.asking :: rows.map D45Row.goal
  outputVariables := ["?X"]
  nonempty := ⟨List.cons_ne_nil _ _, List.cons_ne_nil _ _⟩
  outputs := fun x member => by
    rw [List.mem_singleton.mp member]
    exact ⟨by decide, row.asking, List.mem_cons_self, List.mem_cons_self⟩
  distinct := List.nodup_singleton _

section

variable {c : Crypto} {graphs selected : List D45Graph} {row : D45Row} {rows : List D45Row}
  {assignment : String → String}

private theorem map_substitute {arguments : List String} (plain : ∀ a ∈ arguments, IsReference a) :
    arguments.map (substitute assignment) = arguments := by
  have each : ∀ a ∈ arguments, substitute assignment a = id a := by
    intro a inside
    rw [substitute, (plain a inside).plain.2, if_neg Bool.false_ne_true]
    rfl
  rw [List.map_congr_left each, List.map_id]

private def D45Row.first (row : D45Row) : String :=
  row.component.arguments.head row.component.checked.2.1

private theorem substitute_goal : row.goal.arguments.map (substitute assignment) =
    row.component.arguments :=
  map_substitute row.component.checked.2.2

private theorem substitute_asking : row.asking.arguments.map (substitute assignment) =
    assignment "?X" :: row.component.arguments.tail := by
  have tail : row.component.arguments.tail.map (substitute assignment) =
      row.component.arguments.tail :=
    map_substitute fun a later => row.component.checked.2.2 a (List.mem_of_mem_tail later)
  rw [D45Row.asking, List.map_cons, tail]
  rfl

private theorem derives_probe (testified : ∀ r ∈ row :: rows, Testified c graphs r)
    (allowed : ∀ r ∈ row :: rows, ∀ r' ∈ row :: rows,
      ¬Excludes graphs r.graph.environmentLabel r'.graph.environmentLabel) :
    Derives c graphs (probe row rows) (fun _ => row.first)
      (fun i : Nat => ((row :: rows)[i]?).getD row) := by
  have inside : ∀ i : Nat, ((row :: rows)[i]?).getD row ∈ row :: rows := by
    intro i
    cases found : (row :: rows)[i]? with
    | none => exact List.mem_cons_self
    | some r => exact List.mem_of_getElem? found
  refine ⟨fun i goal found => ⟨testified _ (inside i), ?_⟩,
    fun i _ j _ => allowed _ (inside i) _ (inside j)⟩
  cases i with
  | zero =>
    cases found
    refine ⟨rfl, ?_⟩
    rw [substitute_asking]
    exact (List.cons_head_tail row.component.checked.2.1).symm
  | succ i =>
    have here : (rows.map D45Row.goal)[i]? = some goal := found
    rw [List.getElem?_map, Option.map_eq_some_iff] at here
    obtain ⟨r, listed, rfl⟩ := here
    have there : (row :: rows)[i + 1]? = some r := listed
    rw [there]
    exact ⟨rfl, substitute_goal.symm⟩

private theorem states_of_probe {pick : Nat → D45Row}
    (derives : Derives c graphs (probe row rows) assignment pick)
    (value : assignment "?X" = row.first) {i : Nat} {r : D45Row}
    (listed : (row :: rows)[i]? = some r) : Testified c graphs (pick i) ∧
      (pick i).component.predicate = r.component.predicate ∧
      (pick i).component.arguments = r.component.arguments := by
  cases i with
  | zero =>
    cases listed
    obtain ⟨testified, predicate, arguments⟩ := derives.rows 0 row.asking rfl
    refine ⟨testified, predicate, ?_⟩
    rw [arguments, substitute_asking, value]
    exact List.cons_head_tail row.component.checked.2.1
  | succ i =>
    have found : (probe row rows).goals[i + 1]? = some r.goal := by
      show (rows.map D45Row.goal)[i]? = some r.goal
      have there : rows[i]? = some r := listed
      rw [List.getElem?_map, there, Option.map_some]
    obtain ⟨testified, predicate, arguments⟩ := derives.rows (i + 1) r.goal found
    exact ⟨testified, predicate, arguments.trans substitute_goal⟩

private theorem graph_of_group (distinct : Distinct c graphs) {row row' : D45Row}
    (testified : Testified c graphs row) (testified' : Testified c graphs row')
    (same : row.graph.group = row'.graph.group)
    (allowed : ¬Excludes graphs row.graph.environmentLabel row'.graph.environmentLabel) :
    row.graph = row'.graph := by
  refine distinct row row' testified testified' same ?_
  by_contra differ
  exact allowed ⟨differ, row.graph, testified.mem, row'.graph, testified'.mem, same, rfl, rfl⟩

theorem distinct_of_separates (able : Transportable c graphs) (separates : Separates c graphs) :
    Distinct c graphs := by
  intro row row' testified testified' same labels
  have allowed : ∀ r ∈ [row, row'], ∀ r' ∈ [row, row'],
      ¬Excludes graphs r.graph.environmentLabel r'.graph.environmentLabel := by
    intro r inside r' inside' excludes
    have label : ∀ q ∈ [row, row'], q.graph.environmentLabel = row.graph.environmentLabel := by
      intro q listed
      rcases List.mem_cons.mp listed with rfl | later
      · rfl
      · rw [List.mem_singleton.mp later, labels]
    exact excludes.1 ((label r inside).trans (label r' inside').symm)
  have derives := derives_probe
    (List.forall_mem_cons.mpr ⟨testified, List.forall_mem_singleton.mpr testified'⟩) allowed
  obtain ⟨executor, executes⟩ := exists_executes able
  obtain ⟨choice, maps, cites⟩ := homomorphism_of_derives executes derives
  exact separates.apart executor executes _ _ choice maps 0 (by simp [probe]) 1 (by simp [probe])
    row row' (cites 0 (by simp [probe])) (cites 1 (by simp [probe])) same

theorem stated_of_separates (able : Transportable c graphs) (separates : Separates c graphs) :
    Stated c graphs := by
  intro selected selection
  have mem : ∀ row, row ∈ (selected.flatMap (D45Graph.rows c)).filter (fun row => row.Sound) ↔
      Testified c selected row := by
    intro row
    rw [List.mem_filter, List.mem_flatMap, decide_eq_true_eq, Testified]
  cases listed : (selected.flatMap (D45Graph.rows c)).filter (fun row => row.Sound) with
  | nil =>
    refine ⟨[], List.nil_subset _, List.forall_mem_nil _, fun row testified => ?_⟩
    have inside := (mem row).mpr testified
    rw [listed] at inside
    cases inside
  | cons row rows =>
    rw [listed] at mem
    have asked := derives_probe (fun r inside => (mem r).mp inside)
      fun r _ r' _ => selection.not_excludes _ _
    have answered : [row.first] ∈ outputsOf c graphs (probe row rows) :=
      separates.complete _ selected selection
        ((mem_outputsOf (able.selection selection)).mpr ⟨_, _, asked, rfl⟩)
    obtain ⟨assignment, pick, derives, same⟩ := (mem_outputsOf able).mp answered
    have value : assignment "?X" = row.first := by
      simpa [probe] using same.symm
    have length : (probe row rows).goals.length = (row :: rows).length := by simp [probe]
    -- the graphs of the rows that the derivation picks state what the selection states
    refine ⟨(List.range (row :: rows).length).map fun i => (pick i).graph, ?_, ?_, ?_⟩
    · intro graph inside
      obtain ⟨i, within, rfl⟩ := List.mem_map.mp inside
      have there := List.getElem?_eq_getElem (List.mem_range.mp within)
      exact (states_of_probe derives value there).1.mem
    · intro graph inside other inside'
      obtain ⟨i, within, rfl⟩ := List.mem_map.mp inside
      obtain ⟨j, within', rfl⟩ := List.mem_map.mp inside'
      rw [List.mem_range, ← length] at within within'
      exact derives.allowed i within j within'
    · intro r testified
      obtain ⟨i, there⟩ := List.getElem?_of_mem ((mem r).mpr testified)
      obtain ⟨⟨⟨graph, -, inRows⟩, sound⟩, predicate, arguments⟩ :=
        states_of_probe derives value there
      refine ⟨pick i, ⟨⟨_, List.mem_map.mpr ⟨i, ?_, rfl⟩, ?_⟩, sound⟩, predicate, arguments⟩
      · exact List.mem_range.mpr (List.getElem?_eq_some_iff.mp there).1
      · rw [graph_of_mem_rows inRows]
        exact inRows

theorem separates_of_distinct_stated (able : Transportable c graphs)
    (distinct : Distinct c graphs) (stated : Stated c graphs) : Separates c graphs := by
  have alone : ∀ {program assignment pick}, Derives c graphs program assignment pick →
      ∀ i < program.goals.length, ∀ j < program.goals.length,
        (pick i).graph.group = (pick j).graph.group → (pick i).graph = (pick j).graph := by
    intro program assignment pick derives i inI j inJ same
    exact graph_of_group distinct (derives.rows i _ (List.getElem?_eq_getElem inI)).1
      (derives.rows j _ (List.getElem?_eq_getElem inJ)).1 same (derives.allowed i inI j inJ)
  refine ⟨?_, ?_, ?_⟩
  · intro executor executes program assignment choice maps i inI j inJ row row' cites cites' same
    have cited : ∀ k, ∃ r, k < program.goals.length → Cites c graphs (choice k) r ∧ r.Sound := by
      intro k
      by_cases inside : k < program.goals.length
      · obtain ⟨active, -⟩ := maps.facts k _ (List.getElem?_eq_getElem inside)
        obtain ⟨r, here⟩ := executes.mem_activeFacts.mp active
        exact ⟨r, fun _ => here⟩
      · exact ⟨row, fun within => absurd within inside⟩
    choose pick picks using cited
    have derives := derives_of_homomorphism executes maps picks
    rw [cites.unique (picks i inI).1, cites'.unique (picks j inJ).1] at same ⊢
    exact alone derives i inI j inJ same
  · intro program values inside
    obtain ⟨assignment, pick, derives, rfl⟩ := (mem_outputsOf able).mp inside
    obtain ⟨selected, selection, used⟩ := @exists_selection graphs
      ((List.range program.goals.length).map fun i => (pick i).graph)
      (fun graph member => by
        obtain ⟨i, within, rfl⟩ := List.mem_map.mp member
        exact (derives.rows i _
          (List.getElem?_eq_getElem (List.mem_range.mp within))).1.mem)
      (fun graph member other member' same => by
        obtain ⟨i, within, rfl⟩ := List.mem_map.mp member
        obtain ⟨j, within', rfl⟩ := List.mem_map.mp member'
        exact alone derives i (List.mem_range.mp within) j (List.mem_range.mp within') same)
    refine ⟨selected, selection,
      (mem_outputsOf (able.selection selection)).mpr ⟨assignment, pick, ⟨?_, ?_⟩, rfl⟩⟩
    · intro i goal found
      obtain ⟨⟨⟨graph, -, inRows⟩, sound⟩, states⟩ := derives.rows i goal found
      have here := graph_of_mem_rows inRows
      refine ⟨⟨⟨(pick i).graph, used (List.mem_map.mpr ⟨i, ?_, rfl⟩), ?_⟩, sound⟩, states⟩
      · exact List.mem_range.mpr (List.getElem?_eq_some_iff.mp found).1
      · rw [here]
        exact inRows
    · exact fun i _ j _ => selection.not_excludes _ _
  · intro program selected selection values inside
    obtain ⟨assignment, pick, derives, rfl⟩ :=
      (mem_outputsOf (able.selection selection)).mp inside
    obtain ⟨stating, within, allowed, states⟩ := stated selected selection
    have restated : ∀ i, ∃ row', i < program.goals.length → Testified c stating row' ∧
        row'.component.predicate = (pick i).component.predicate ∧
        row'.component.arguments = (pick i).component.arguments := by
      intro i
      by_cases inI : i < program.goals.length
      · obtain ⟨row', here⟩ := states (pick i)
          (derives.rows i _ (List.getElem?_eq_getElem inI)).1
        exact ⟨row', fun _ => here⟩
      · exact ⟨pick i, fun less => absurd less inI⟩
    choose pick' same using restated
    refine (mem_outputsOf able).mpr ⟨assignment, pick', ⟨fun i goal found => ?_, ?_⟩, rfl⟩
    · obtain ⟨-, predicate, arguments⟩ := derives.rows i goal found
      obtain ⟨testified, predicate', arguments'⟩ :=
        same i (List.getElem?_eq_some_iff.mp found).1
      exact ⟨testified.mono within, predicate'.trans predicate, arguments'.trans arguments⟩
    · intro i inI j inJ
      exact allowed _ (same i inI).1.mem _ (same j inJ).1.mem

/-- A transport keeps alternative analyses apart exactly when labels tell the graphs of a group
apart and what a selection states is stated by graphs that do not exclude each other. -/
theorem separates_iff {t : D45Transport} (ok : transport c graphs = .ok t) :
    Separates c graphs ↔ Distinct c graphs ∧ Stated c graphs := by
  have able := (transport_eq_ok.mp ok).1
  constructor
  · intro separates
    exact ⟨distinct_of_separates able separates, stated_of_separates able separates⟩
  · rintro ⟨distinct, stated⟩
    exact separates_of_distinct_stated able distinct stated

end

/-- `SemanticSource.seal`, of a source with identity, content and scope. -/
def SemanticSource.seal (c : Crypto) (sourceId content scope : String) : SemanticSource :=
  ⟨sourceId, content, hexSha256 c (encode content), scope⟩

def named (localId surface : String) (span : Span) : D45Leaf :=
  ⟨localId, "entity", surface, surface, span, "identity.v1"⟩

def verb : D45GrammarSymbol := ⟨"s1", "lex", "like", "likes", (4, 9), "lex.v1"⟩

def bundle (leaf : D45Leaf) : String :=
  structuredTermReference stdCrypto "entity_bundle" [("name", leaf.semanticRef stdCrypto)] none

def liking : D45Event :=
  ⟨"e1", "s1", [("ARG1", "n1"), ("ARG2", "n2")], "positive", [], [], []⟩

def likingPayload (liked : D45Leaf) : Json :=
  liking.payload stdCrypto fun localId =>
    if localId = "s1" then verb.semanticRef stdCrypto
    else if localId = "n1" then bundle (named "l1" "Ana" (0, 3)) else bundle liked

theorem liking_ids : ["e1", "l1", "l2", "n1", "n2", "s1"].Nodup := by decide

theorem liking_names : ∀ event ∈ [liking], ∀ name ∈ event.names,
    name ∈ ["e1", "l1", "l2", "n1", "n2", "s1"] := by decide

theorem note_placed : ("note" : String) ≠ "" ∧ ("Ana likes jazz salsa" : String) ≠ "" ∧
    ("demo" : String) ≠ "" := by decide

theorem reading_identified : isIdentifier "a1" = true ∧ isIdentifier "reading" = true := by decide

def likes (liked : String) (start stop : Nat) : D45Graph where
  source := .seal stdCrypto "note" "Ana likes jazz salsa" "demo"
  analysisId := "a1"
  alternativeSet := "reading"
  leaves := [named "l1" "Ana" (0, 3), named "l2" liked (start, stop)]
  symbols := [verb]
  nodes := [⟨"n1", "entity_bundle", [("name", "l1")], none, none⟩,
    ⟨"n2", "entity_bundle", [("name", "l2")], none, none⟩]
  events := [liking]
  semanticRefs := ⟨[("e1", reference stdCrypto "event"
      (likingPayload (named "l2" liked (start, stop)))),
    ("l1", (named "l1" "Ana" (0, 3)).semanticRef stdCrypto),
    ("l2", (named "l2" liked (start, stop)).semanticRef stdCrypto),
    ("n1", bundle (named "l1" "Ana" (0, 3))), ("n2", bundle (named "l2" liked (start, stop))),
    ("s1", verb.semanticRef stdCrypto)], liking_ids⟩
  eventPayloads := Dict.empty.set "e1"
    (String.ofList (likingPayload (named "l2" liked (start, stop))).dumps)
  placed := note_placed
  identified := reading_identified
  eventful := List.cons_ne_nil _ _
  closed := liking_names
  referenced := by
    simp [isReference_reference, D45Leaf.semanticRef, D45GrammarSymbol.semanticRef, bundle,
      structuredTermReference]

def twins : List D45Graph := [likes "jazz" 10 14, likes "salsa" 15 20]

private theorem transportable_likes {graphs : List D45Graph} (nonempty : graphs ≠ [])
    (bounded : graphs.length ≤ 256)
    (alike : ∀ graph ∈ graphs, ∃ liked start stop, graph = likes liked start stop) :
    Transportable stdCrypto graphs := by
  have source : ∀ graph ∈ graphs,
      graph.source = .seal stdCrypto "note" "Ana likes jazz salsa" "demo" := by
    intro graph member
    obtain ⟨liked, start, stop, rfl⟩ := alike graph member
    rfl
  refine ⟨nonempty, bounded, ?_, ?_, ?_⟩
  · intro graph member other member'
    rw [source graph member, source other member']
  · intro graph member other member' _
    rw [source graph member, source other member']
  · intro graph member
    rw [source graph member]
    rfl

private theorem testified_likes {graphs : List D45Graph} (liked : String) (start stop : Nat)
    (member : likes liked start stop ∈ graphs)
    (borne : (⟨likes liked start stop, (likes liked start stop).events.head
      (likes liked start stop).eventful, (likes liked start stop).predicateComponent
        ((likes liked start stop).events.head (likes liked start stop).eventful)⟩ : D45Row).Sound) :
    ∃ row, Testified stdCrypto graphs row ∧ row.graph = likes liked start stop := by
  refine ⟨_, ⟨⟨_, member, ?_⟩, borne⟩, rfl⟩
  exact List.mem_flatMap.mpr ⟨_, List.head_mem _, List.mem_map_of_mem List.mem_cons_self⟩

/-- Analyses under one id are accepted together, and are not kept apart. -/
theorem not_separates_twins :
    (∃ t, transport stdCrypto twins = .ok t) ∧ ¬Separates stdCrypto twins := by
  have able : Transportable stdCrypto twins := transportable_likes (List.cons_ne_nil _ _)
    (by decide) fun graph member => by
      rcases List.mem_cons.mp member with rfl | later
      · exact ⟨_, _, _, rfl⟩
      · exact ⟨_, _, _, List.mem_singleton.mp later⟩
  refine ⟨⟨_, transport_eq_ok.mpr ⟨able, rfl⟩⟩, fun separates => ?_⟩
  obtain ⟨row, testified, jazz⟩ := testified_likes "jazz" 10 14
    (show likes "jazz" 10 14 ∈ twins from List.mem_cons_self) (by decide)
  obtain ⟨row', testified', salsa⟩ := testified_likes "salsa" 15 20
    (show likes "salsa" 15 20 ∈ twins from List.mem_cons_of_mem _ List.mem_cons_self) (by decide)
  have same := distinct_of_separates able separates row row' testified testified'
    (by rw [jazz, salsa]; rfl) (by rw [jazz, salsa]; rfl)
  rw [jazz, salsa] at same
  have leaves := congrArg (fun graph => graph.leaves.map D45Leaf.canonical) same
  exact absurd leaves (by decide)

/-- One analysis alone is kept apart. -/
theorem separates_likes : Separates stdCrypto [likes "jazz" 10 14] := by
  have able : Transportable stdCrypto [likes "jazz" 10 14] :=
    transportable_likes (List.cons_ne_nil _ _) (by decide)
      fun graph member => ⟨_, _, _, List.mem_singleton.mp member⟩
  refine (separates_iff (transport_eq_ok.mpr ⟨able, rfl⟩)).mpr ⟨?_, fun selected selection => ?_⟩
  · intro row row' testified testified' _ _
    exact (List.mem_singleton.mp testified.mem).trans (List.mem_singleton.mp testified'.mem).symm
  · refine ⟨selected, selection.subset, ?_, fun row testified => ⟨row, testified, rfl, rfl⟩⟩
    intro graph member other member' excludes
    refine excludes.1 ?_
    rw [List.mem_singleton.mp (selection.subset member),
      List.mem_singleton.mp (selection.subset member')]

def whoLikes : ConjunctiveProgram :=
  ⟨[⟨"like", ["?Who"], by decide⟩], ["?Who"], by decide, by decide, by decide⟩

end ProofRay.Hypergraph
