/- What a transport derives: a derivation picks a row for each goal, no two of graphs that exclude
   each other. -/

import ProofRay.Attention.SigmaPba
import ProofRay.Hypergraph.Transport

namespace ProofRay.Hypergraph

open Attention
open Engine (Crypto)
open Lib (sortedSet)
open Lib.Guard
open Sidecar (encode hexSha256 isSha256 isSha256_hexSha256 slice)

/-- The graphs of a transport: of one scope, each source sealed, and no two of one identity. -/
structure Transportable (c : Crypto) (graphs : List D45Graph) : Prop where
  nonempty : graphs ≠ []
  bounded : graphs.length ≤ 256
  oneScope : ∀ graph ∈ graphs, ∀ other ∈ graphs, graph.source.scope = other.source.scope
  oneSource : ∀ graph ∈ graphs, ∀ other ∈ graphs,
    graph.source.sourceId = other.source.sourceId → graph.source = other.source
  sealed_ : ∀ graph ∈ graphs, hexSha256 c (encode graph.source.content) = graph.source.sha256

def SemanticSource.sigmaSource (source : SemanticSource) : SealedSource :=
  ⟨source.sourceId, source.content, source.sha256⟩

section

variable {c : Crypto} {graphs : List D45Graph} {t : D45Transport}

private theorem length_dedup_eq_one {l : List String} :
    l.dedup.length = 1 ↔ l ≠ [] ∧ ∀ a ∈ l, ∀ b ∈ l, a = b := by
  constructor
  · intro one
    obtain ⟨x, only⟩ := List.length_eq_one_iff.mp one
    have each : ∀ a ∈ l, a = x := fun a member => by
      have inside : a ∈ l.dedup := List.mem_dedup.mpr member
      rw [only] at inside
      exact List.mem_singleton.mp inside
    refine ⟨?_, fun a inA b inB => (each a inA).trans (each b inB).symm⟩
    rintro rfl
    cases only
  · rintro ⟨some_scope, alike⟩
    obtain ⟨x, member⟩ := List.exists_mem_of_ne_nil l some_scope
    have perm : l.dedup.Perm [x] := by
      refine (List.perm_ext_iff_of_nodup l.nodup_dedup (List.nodup_singleton x)).mpr fun a => ?_
      rw [List.mem_dedup, List.mem_singleton]
      exact ⟨fun inA => alike a inA x member, fun same => same ▸ member⟩
    exact perm.length_eq

variable {source : SemanticSource} {pick : Nat → D45Row}

theorem asSigmaSource_eq_ok {sigma : SealedSource} :
    source.asSigmaSource c = .ok sigma ↔ (source.sourceId ≠ "" ∧ source.content ≠ "") ∧
      hexSha256 c (encode source.content) = source.sha256 ∧ source.sigmaSource = sigma := by
  unfold SemanticSource.asSigmaSource SemanticSource.sigmaSource
  simp only [bind_eq_ok, require_eq_ok, pure_eq_ok, exists_and_left, exists_const]

private theorem mapM_asSigmaSource {l : List SemanticSource} {sources : List SealedSource} :
    l.mapM (SemanticSource.asSigmaSource c) = .ok sources ↔
      (∀ source ∈ l, (source.sourceId ≠ "" ∧ source.content ≠ "") ∧
        hexSha256 c (encode source.content) = source.sha256) ∧
      l.map SemanticSource.sigmaSource = sources := by
  induction l generalizing sources with
  | nil => simp [pure, Except.pure]
  | cons source l ih =>
    simp only [List.mapM_cons, bind_eq_ok, pure_eq_ok, asSigmaSource_eq_ok, ih,
      List.forall_mem_cons, List.map_cons]
    constructor
    · rintro ⟨_, ⟨placed, whole, rfl⟩, _, ⟨each, rfl⟩, rfl⟩
      exact ⟨⟨⟨placed, whole⟩, each⟩, rfl⟩
    · rintro ⟨⟨⟨placed, whole⟩, each⟩, rfl⟩
      exact ⟨_, ⟨placed, whole, rfl⟩, _, ⟨each, rfl⟩, rfl⟩

def semanticSources (graphs : List D45Graph) : List SemanticSource :=
  (graphs.map D45Graph.source).dedup.insertionSort fun a b => a.sourceId ≤ b.sourceId

theorem mem_semanticSources :
    source ∈ semanticSources graphs ↔ ∃ graph ∈ graphs, graph.source = source := by
  rw [semanticSources, List.mem_insertionSort, List.mem_dedup, List.mem_map]

def transported (c : Crypto) (graphs : List D45Graph) : D45Transport where
  scope := ((graphs.map fun graph => graph.source.scope).dedup).headD ""
  sources := (semanticSources graphs).map SemanticSource.sigmaSource
  facts := ((transportRows c graphs).zipIdx 1).map fun entry => entry.1.fact c entry.2
  nogoods := (sortedSet toLex (nogoodPairs graphs)).map fun pair => [pair.1, pair.2]
  graphs := graphs.insertionSort fun a b => a.environmentLabel ≤ b.environmentLabel
  registryAttestations := ((transportRows c graphs).zipIdx 1).map fun entry =>
    (entry.2, entry.1.attestation c)

theorem transport_eq_ok :
    transport c graphs = .ok t ↔ Transportable c graphs ∧ t = transported c graphs := by
  unfold transport
  simp only [bind_eq_ok, require_eq_ok, pure_eq_ok, exists_and_left, exists_const,
    length_dedup_eq_one, mapM_asSigmaSource]
  constructor
  · rintro ⟨⟨some_graph, bounded⟩, ⟨-, oneScope⟩, oneSource, _, ⟨each, rfl⟩, rfl⟩
    refine ⟨⟨some_graph, bounded, fun graph member other member' => ?_, oneSource,
      fun graph member => ?_⟩, rfl⟩
    · exact oneScope _ (List.mem_map_of_mem member) _ (List.mem_map_of_mem member')
    · exact (each _ (mem_semanticSources.mpr ⟨graph, member, rfl⟩)).2
  · rintro ⟨able, rfl⟩
    refine ⟨⟨able.nonempty, able.bounded⟩, ⟨?_, ?_⟩, able.oneSource, _, ⟨?_, rfl⟩, rfl⟩
    · exact fun none => able.nonempty (List.map_eq_nil_iff.mp none)
    · intro a inA b inB
      obtain ⟨graph, member, rfl⟩ := List.mem_map.mp inA
      obtain ⟨other, member', rfl⟩ := List.mem_map.mp inB
      exact able.oneScope graph member other member'
    · intro source inside
      obtain ⟨graph, member, rfl⟩ := mem_semanticSources.mp inside
      exact ⟨⟨graph.placed.1, graph.placed.2.1⟩, able.sealed_ graph member⟩

def Testified (c : Crypto) (graphs : List D45Graph) (row : D45Row) : Prop :=
  (∃ graph ∈ graphs, row ∈ graph.rows c) ∧ row.Sound

variable {fact : AuthorizedFact} {row : D45Row} {a b : String} {labels : List String}
  {graph : D45Graph}

theorem graph_of_mem_rows (member : row ∈ graph.rows c) : row.graph = graph := by
  obtain ⟨event, -, inEvent⟩ := List.mem_flatMap.mp member
  obtain ⟨component, -, rfl⟩ := List.mem_map.mp inEvent
  rfl

theorem Testified.mem (testified : Testified c graphs row) : row.graph ∈ graphs := by
  obtain ⟨⟨graph, member, inRows⟩, -⟩ := testified
  rw [graph_of_mem_rows inRows]
  exact member

theorem mem_transportRows :
    row ∈ transportRows c graphs ↔ ∃ graph ∈ graphs, row ∈ graph.rows c := by
  rw [transportRows, List.mem_insertionSort, List.mem_flatMap]

theorem rows_ne_nil (graph : D45Graph) : graph.rows c ≠ [] := by
  obtain ⟨event, member⟩ := List.exists_mem_of_ne_nil _ graph.eventful
  have first : (⟨graph, event, graph.predicateComponent event⟩ : D45Row) ∈ graph.rows c :=
    List.mem_flatMap.mpr ⟨event, member, List.mem_map.mpr ⟨_, List.mem_cons_self, rfl⟩⟩
  exact List.ne_nil_of_mem first

def Cites (c : Crypto) (graphs : List D45Graph) (fact : AuthorizedFact) (row : D45Row) : Prop :=
  ∃ k, (transportRows c graphs)[k]? = some row ∧ fact = row.fact c (k + 1)

theorem mem_facts_transported :
    fact ∈ (transported c graphs).facts ↔ ∃ row, Cites c graphs fact row := by
  unfold transported Cites
  simp only [List.mem_map, Prod.exists]
  constructor
  · rintro ⟨row, k, member, rfl⟩
    obtain ⟨after, found⟩ := List.mk_mem_zipIdx_iff_le_and_getElem?_sub.mp member
    exact ⟨row, k - 1, found, by rw [Nat.sub_add_cancel after]⟩
  · rintro ⟨row, k, found, rfl⟩
    refine ⟨row, k + 1, List.mk_mem_zipIdx_iff_le_and_getElem?_sub.mpr ⟨?_, ?_⟩, rfl⟩
    · exact Nat.le_add_left 1 k
    · rw [Nat.add_sub_cancel]
      exact found

theorem Cites.mem (cites : Cites c graphs fact row) : ∃ graph ∈ graphs, row ∈ graph.rows c := by
  obtain ⟨k, found, -⟩ := cites
  exact mem_transportRows.mp (List.mem_of_getElem? found)

theorem Cites.content (cites : Cites c graphs fact row) :
    fact.predicate = row.component.predicate ∧ fact.arguments = row.component.arguments ∧
      fact.assumptions = [row.graph.environmentLabel] := by
  obtain ⟨k, -, rfl⟩ := cites
  exact ⟨rfl, rfl, rfl⟩

theorem Cites.unique {row row' : D45Row} (cites : Cites c graphs fact row)
    (cites' : Cites c graphs fact row') : row = row' := by
  obtain ⟨k, found, rfl⟩ := cites
  obtain ⟨k', found', same⟩ := cites'
  have ids : ((k + 1 : Nat) : Int) = ((k' + 1 : Nat) : Int) :=
    congrArg AuthorizedFact.factId same
  have here : k = k' := by omega
  subst here
  exact Option.some.inj (found.symm.trans found')

private theorem nodup_sourceIds (able : Transportable c graphs) :
    ((transported c graphs).sources.map fun s => s.sourceId).Nodup := by
  have ids : ((transported c graphs).sources.map fun s => s.sourceId) =
      (semanticSources graphs).map SemanticSource.sourceId := by
    simp [transported, SemanticSource.sigmaSource, Function.comp_def]
  have once : (semanticSources graphs).Nodup :=
    (List.perm_insertionSort _ _).nodup_iff.mpr (List.nodup_dedup _)
  rw [ids]
  refine once.map_on fun a inA b inB same => ?_
  obtain ⟨graph, member, rfl⟩ := mem_semanticSources.mp inA
  obtain ⟨other, member', rfl⟩ := mem_semanticSources.mp inB
  exact able.oneSource graph member other member' same

private theorem nodup_factIds : ((transported c graphs).facts.map fun f => f.factId).Nodup := by
  have ids : ((transported c graphs).facts.map fun f => f.factId) =
      (((transportRows c graphs).zipIdx 1).map Prod.snd).map Nat.cast := by
    simp only [transported, List.map_map]
    rfl
  rw [ids, List.zipIdx_map_snd]
  exact (List.nodup_range').map Nat.cast_injective

theorem scope_transported (able : Transportable c graphs) (member : graph ∈ graphs) :
    (transported c graphs).scope = graph.source.scope := by
  have inside : graph.source.scope ∈ (graphs.map fun g => g.source.scope).dedup :=
    List.mem_dedup.mpr (List.mem_map_of_mem member)
  obtain ⟨first, rest, split⟩ := List.exists_cons_of_ne_nil (List.ne_nil_of_mem inside)
  have here : first ∈ (graphs.map fun g => g.source.scope).dedup := by
    rw [split]
    exact List.mem_cons_self
  obtain ⟨other, member', rfl⟩ := List.mem_map.mp (List.mem_dedup.mp here)
  have head : (transported c graphs).scope = other.source.scope := by
    simp only [transported, split, List.headD_cons]
  exact head.trans (able.oneScope other member' graph member)

theorem exists_executor (able : Transportable c graphs) :
    ∃ executor, (transported c graphs).executor = .ok executor ∧
      executor.sources = (transported c graphs).sources ∧
      executor.facts = (transported c graphs).facts ∧
      executor.scope = (transported c graphs).scope ∧ executor.allowedRules = [rule] ∧
      executor.nogoods = (transported c graphs).nogoods := by
  obtain ⟨graph, member⟩ := List.exists_mem_of_ne_nil _ able.nonempty
  obtain ⟨row, inRows⟩ := List.exists_mem_of_ne_nil _ (rows_ne_nil (c := c) graph)
  have sources : (transported c graphs).sources ≠ [] :=
    List.ne_nil_of_mem (List.mem_map_of_mem (mem_semanticSources.mpr ⟨graph, member, rfl⟩))
  have facts : (transported c graphs).facts ≠ [] := by
    obtain ⟨k, found⟩ := List.getElem?_of_mem (mem_transportRows.mpr ⟨graph, member, inRows⟩)
    exact List.ne_nil_of_mem (mem_facts_transported.mpr ⟨row, k, found, rfl⟩)
  have scopes : (transported c graphs).scope ≠ "" := by
    rw [scope_transported able member]
    exact graph.placed.2.2
  have noEmpty : [] ∉ (transported c graphs).nogoods := by
    intro inside
    obtain ⟨pair, -, none⟩ := List.mem_map.mp inside
    cases none
  unfold D45Transport.executor SigmaPBAExecutor.make
  rw [dif_pos ⟨sources, facts, scopes, List.cons_ne_nil _ _⟩, dif_pos (nodup_sourceIds able),
    dif_pos nodup_factIds, dif_pos noEmpty]
  exact ⟨_, rfl, rfl, rfl, rfl, rfl, rfl⟩

variable {executor : SigmaPBAExecutor}

private theorem source_of_graph (able : Transportable c graphs)
    (sources : executor.sources = (transported c graphs).sources) (member : graph ∈ graphs) :
    executor.source graph.source.sourceId = some graph.source.sigmaSource := by
  have inside : graph.source.sigmaSource ∈ executor.sources := by
    rw [sources]
    exact List.mem_map_of_mem (mem_semanticSources.mpr ⟨graph, member, rfl⟩)
  unfold SigmaPBAExecutor.source
  cases found : executor.sources.find? fun s => s.sourceId = graph.source.sourceId with
  | none =>
    have missing := List.find?_eq_none.mp found _ inside
    exact absurd (decide_eq_true (show graph.source.sigmaSource.sourceId = _ from rfl)) missing
  | some s =>
    have same : s.sourceId = graph.source.sourceId := by simpa using List.find?_some found
    have listed := List.mem_of_find?_eq_some found
    rw [sources] at listed
    obtain ⟨source, inSources, rfl⟩ := List.mem_map.mp listed
    obtain ⟨other, member', rfl⟩ := mem_semanticSources.mp inSources
    rw [able.oneSource other member' graph member same]

private theorem verify_fact (able : Transportable c graphs) (k : Nat)
    (member : row.graph ∈ graphs) :
    (row.fact c (k + 1)).verify c row.graph.source.sigmaSource [rule] = true ↔ row.Sound := by
  obtain ⟨predicate, some_argument, references⟩ := row.component.checked
  obtain ⟨identity, content, scope⟩ := row.graph.placed
  have plain : ∀ a ∈ row.component.arguments, ¬a = "" :=
    fun a inside => (references a inside).plain.1
  have orbit : "d45:" ++ row.attestation c ≠ "" := by simp
  have whole := able.sealed_ row.graph member
  have attested : isSha256 (row.fact c (k + 1)).semanticAttestation = true :=
    isSha256_hexSha256 c _
  have digest : (row.fact c (k + 1)).semanticAttestation =
      (row.fact c (k + 1)).semanticDigest c := rfl
  have sealed_ : row.graph.source.sigmaSource.verify c = true := by
    simp [SealedSource.verify, SemanticSource.sigmaSource, identity, content, whole]
  have ordered : sortedSet id [row.graph.environmentLabel] = [row.graph.environmentLabel] := rfl
  have cited : (row.fact c (k + 1)).cited row.graph.source.sigmaSource =
      slice row.graph.source.content row.span.1 row.span.2 := rfl
  have lower : (0 : Int) ≤ (k : Int) + 1 := by omega
  unfold AuthorizedFact.verify D45Row.Sound
  rw [attested, ← digest, sealed_, cited]
  simp [D45Row.fact, D45Row.unattested, SemanticSource.sigmaSource, predicate, some_argument,
    scope, orbit, ordered, and_assoc]
  exact ⟨fun all => all.2.2, fun borne => ⟨lower, plain, borne⟩⟩

theorem mem_activeFacts_transported (able : Transportable c graphs)
    (sources : executor.sources = (transported c graphs).sources)
    (facts : executor.facts = (transported c graphs).facts)
    (scope : executor.scope = (transported c graphs).scope)
    (rules : executor.allowedRules = [rule]) :
    fact ∈ executor.activeFacts c ↔ ∃ row, Cites c graphs fact row ∧ row.Sound := by
  have authorizes : ∀ {fact row}, Cites c graphs fact row →
      (executor.Authorizes c fact ↔ row.Sound) := by
    intro fact row cites
    obtain ⟨graph, member, inRows⟩ := cites.mem
    obtain rfl := graph_of_mem_rows inRows
    obtain ⟨k, found, rfl⟩ := cites
    have known : executor.source (row.fact c (k + 1)).sourceId = _ :=
      source_of_graph able sources member
    unfold SigmaPBAExecutor.Authorizes
    rw [known, rules, scope, scope_transported able member]
    simp only [Option.mem_def, Option.some.injEq, exists_eq_left', verify_fact able k member]
    exact and_iff_right rfl
  rw [SigmaPBAExecutor.mem_activeFacts, facts, mem_facts_transported]
  constructor
  · rintro ⟨⟨row, cites⟩, authorized, -⟩
    exact ⟨row, cites, (authorizes cites).mp authorized⟩
  · rintro ⟨row, cites, sound⟩
    refine ⟨⟨row, cites⟩, (authorizes cites).mpr sound, fun other member _ _ => ?_⟩
    obtain ⟨row', k', found', rfl⟩ := mem_facts_transported.mp member
    obtain ⟨k, found, rfl⟩ := cites
    exact le_refl (1 : Int)

def Excludes (graphs : List D45Graph) (label other : String) : Prop :=
  label ≠ other ∧ ∃ graph ∈ graphs, ∃ graph' ∈ graphs, graph.group = graph'.group ∧
    graph.environmentLabel = label ∧ graph'.environmentLabel = other

private theorem mem_pairsOf : (a, b) ∈ pairsOf labels → a ∈ labels ∧ b ∈ labels := by
  induction labels with
  | nil => exact fun member => (by cases member)
  | cons label rest ih =>
    intro member
    rcases List.mem_append.mp member with first | later
    · obtain ⟨other, inRest, same⟩ := List.mem_map.mp first
      cases same
      exact ⟨List.mem_cons_self, List.mem_cons_of_mem _ inRest⟩
    · exact (ih later).imp (List.mem_cons_of_mem _) (List.mem_cons_of_mem _)

private theorem ne_of_mem_pairsOf (once : labels.Nodup) (member : (a, b) ∈ pairsOf labels) :
    a ≠ b := by
  induction labels with
  | nil => cases member
  | cons label rest ih =>
    obtain ⟨fresh, once⟩ := List.nodup_cons.mp once
    rcases List.mem_append.mp member with first | later
    · obtain ⟨other, inRest, same⟩ := List.mem_map.mp first
      cases same
      rintro rfl
      exact fresh inRest
    · exact ih once later

private theorem pairsOf_of_ne (inA : a ∈ labels) (inB : b ∈ labels) (differ : a ≠ b) :
    (a, b) ∈ pairsOf labels ∨ (b, a) ∈ pairsOf labels := by
  induction labels with
  | nil => cases inA
  | cons label rest ih =>
    unfold pairsOf
    simp only [List.mem_append, List.mem_map, Prod.mk.injEq]
    rcases List.mem_cons.mp inA with rfl | restA
    · rcases List.mem_cons.mp inB with same | restB
      · exact absurd same.symm differ
      · exact .inl (.inl ⟨b, restB, rfl, rfl⟩)
    · rcases List.mem_cons.mp inB with rfl | restB
      · exact .inr (.inl ⟨a, restA, rfl, rfl⟩)
      · exact (ih restA restB).imp .inr .inr

private theorem excludes_of_nogood {nogood : List String}
    (member : nogood ∈ (transported c graphs).nogoods) :
    ∃ a b, nogood = [a, b] ∧ Excludes graphs a b := by
  obtain ⟨⟨a, b⟩, inPairs, rfl⟩ := List.mem_map.mp member
  rw [Lib.mem_sortedSet] at inPairs
  obtain ⟨group, -, inGroup⟩ := List.mem_flatMap.mp inPairs
  have differ := ne_of_mem_pairsOf Lib.nodup_sortedSet inGroup
  obtain ⟨inA, inB⟩ := mem_pairsOf inGroup
  rw [Lib.mem_sortedSet] at inA inB
  obtain ⟨graph, listed, rfl⟩ := List.mem_map.mp inA
  obtain ⟨graph', listed', rfl⟩ := List.mem_map.mp inB
  obtain ⟨member, here⟩ := List.mem_filter.mp listed
  obtain ⟨member', here'⟩ := List.mem_filter.mp listed'
  refine ⟨_, _, rfl, differ, graph, member, graph', member', ?_, rfl, rfl⟩
  exact (of_decide_eq_true here).trans (of_decide_eq_true here').symm

private theorem nogood_of_excludes (excludes : Excludes graphs a b) :
    [a, b] ∈ (transported c graphs).nogoods ∨ [b, a] ∈ (transported c graphs).nogoods := by
  obtain ⟨differ, graph, member, graph', member', same, rfl, rfl⟩ := excludes
  have listed : ∀ g ∈ graphs, g.group = graph.group →
      g.environmentLabel ∈ sortedSet id (labelsOf graphs graph.group) := by
    intro g inside here
    exact Lib.mem_sortedSet.mpr (List.mem_map_of_mem
      (List.mem_filter.mpr ⟨inside, decide_eq_true here⟩))
  have known : graph.group ∈ (graphs.map D45Graph.group).dedup :=
    List.mem_dedup.mpr (List.mem_map_of_mem member)
  have put : ∀ {x y}, (x, y) ∈ pairsOf (sortedSet id (labelsOf graphs graph.group)) →
      [x, y] ∈ (transported c graphs).nogoods := by
    intro x y inPairs
    exact List.mem_map.mpr ⟨(x, y), Lib.mem_sortedSet.mpr
      (List.mem_flatMap.mpr ⟨_, known, inPairs⟩), rfl⟩
  exact (pairsOf_of_ne (listed graph member rfl) (listed graph' member' same.symm) differ).imp
    put put

/-- A row for each goal of a program, which it answers under an assignment of the variables, none
of graphs that exclude each other. -/
structure Derives (c : Crypto) (graphs : List D45Graph) (program : ConjunctiveProgram)
    (assignment : String → String) (pick : Nat → D45Row) : Prop where
  rows : ∀ i goal, program.goals[i]? = some goal → Testified c graphs (pick i) ∧
    (pick i).component.predicate = goal.predicate ∧
    (pick i).component.arguments = goal.arguments.map (substitute assignment)
  allowed : ∀ i < program.goals.length, ∀ j < program.goals.length,
    ¬Excludes graphs (pick i).graph.environmentLabel (pick j).graph.environmentLabel

def Executes (c : Crypto) (graphs : List D45Graph) (executor : SigmaPBAExecutor) : Prop :=
  ∃ t, transport c graphs = .ok t ∧ t.executor = .ok executor

theorem Executes.able (executes : Executes c graphs executor) : Transportable c graphs := by
  obtain ⟨t, ok, -⟩ := executes
  exact (transport_eq_ok.mp ok).1

theorem Executes.has (executes : Executes c graphs executor) :
    executor.sources = (transported c graphs).sources ∧
      executor.facts = (transported c graphs).facts ∧
      executor.scope = (transported c graphs).scope ∧ executor.allowedRules = [rule] ∧
      executor.nogoods = (transported c graphs).nogoods := by
  obtain ⟨t, ok, made⟩ := executes
  obtain ⟨able, rfl⟩ := transport_eq_ok.mp ok
  obtain ⟨executor', made', has⟩ := exists_executor able
  rw [made] at made'
  cases made'
  exact has

theorem Executes.mem_activeFacts (executes : Executes c graphs executor) :
    fact ∈ executor.activeFacts c ↔ ∃ row, Cites c graphs fact row ∧ row.Sound := by
  obtain ⟨sources, facts, scope, rules, -⟩ := executes.has
  exact mem_activeFacts_transported executes.able sources facts scope rules

theorem exists_executes (able : Transportable c graphs) :
    ∃ executor, Executes c graphs executor := by
  obtain ⟨executor, made, -⟩ := exists_executor able
  exact ⟨executor, _, transport_eq_ok.mpr ⟨able, rfl⟩, made⟩

variable {program : ConjunctiveProgram} {assignment : String → String}

theorem derives_of_homomorphism (executes : Executes c graphs executor)
    {choice : Nat → AuthorizedFact} (maps : Homomorphism c executor program assignment choice)
    (cites : ∀ i < program.goals.length, Cites c graphs (choice i) (pick i) ∧ (pick i).Sound) :
    Derives c graphs program assignment pick := by
  refine ⟨fun i goal found => ?_, fun i inI j inJ excludes => ?_⟩
  · obtain ⟨-, predicate, arguments⟩ := maps.facts i goal found
    obtain ⟨here, sound⟩ := cites i (List.getElem?_eq_some_iff.mp found).1
    obtain ⟨samePredicate, sameArguments, -⟩ := here.content
    exact ⟨⟨here.mem, sound⟩, samePredicate.symm.trans predicate,
      sameArguments.symm.trans arguments⟩
  · have assumes : ∀ k < program.goals.length,
        (pick k).graph.environmentLabel ∈ (choice k).assumptions := by
      intro k inK
      rw [(cites k inK).1.content.2.2]
      exact List.mem_singleton_self _
    have refuted : ∀ x y, (x = (pick i).graph.environmentLabel ∧
        y = (pick j).graph.environmentLabel ∨ x = (pick j).graph.environmentLabel ∧
        y = (pick i).graph.environmentLabel) → [x, y] ∉ executor.nogoods := by
      intro x y both member
      obtain ⟨a, inside, absent⟩ := maps.allowed _ member
      simp only [List.mem_cons, List.not_mem_nil, or_false] at inside
      rcases inside with rfl | rfl <;> rcases both with ⟨rfl, rfl⟩ | ⟨rfl, rfl⟩
      · exact absent i inI (assumes i inI)
      · exact absent j inJ (assumes j inJ)
      · exact absent j inJ (assumes j inJ)
      · exact absent i inI (assumes i inI)
    obtain ⟨-, -, -, -, nogoods⟩ := executes.has
    rcases nogood_of_excludes (c := c) excludes with member | member
    · exact refuted _ _ (.inl ⟨rfl, rfl⟩) (nogoods ▸ member)
    · exact refuted _ _ (.inr ⟨rfl, rfl⟩) (nogoods ▸ member)

theorem homomorphism_of_derives (executes : Executes c graphs executor)
    (derives : Derives c graphs program assignment pick) :
    ∃ choice, Homomorphism c executor program assignment choice ∧
      ∀ i < program.goals.length, Cites c graphs (choice i) (pick i) := by
  have cited : ∀ i, ∃ fact, i < program.goals.length → Cites c graphs fact (pick i) := by
    intro i
    by_cases inside : i < program.goals.length
    · obtain ⟨⟨member, -⟩, -⟩ := derives.rows i _ (List.getElem?_eq_getElem inside)
      obtain ⟨k, found⟩ := List.getElem?_of_mem (mem_transportRows.mpr member)
      exact ⟨_, fun _ => ⟨k, found, rfl⟩⟩
    · exact ⟨(pick i).fact c 0, fun within => absurd within inside⟩
  choose choice cites using cited
  refine ⟨choice, ⟨fun i goal found => ?_, fun nogood member => ?_⟩, cites⟩
  · have here := cites i (List.getElem?_eq_some_iff.mp found).1
    obtain ⟨testified, predicate, arguments⟩ := derives.rows i goal found
    obtain ⟨samePredicate, sameArguments, -⟩ := here.content
    exact ⟨executes.mem_activeFacts.mpr ⟨_, here, testified.2⟩, samePredicate.trans predicate,
      sameArguments.trans arguments⟩
  · obtain ⟨-, -, -, -, nogoods⟩ := executes.has
    rw [nogoods] at member
    obtain ⟨a, b, rfl, excludes⟩ := excludes_of_nogood member
    -- were both labels of the nogood in use, two rows would exclude each other
    by_contra none
    push Not at none
    have used : ∀ x ∈ [a, b], ∃ i < program.goals.length,
        (pick i).graph.environmentLabel = x := by
      intro x inside
      obtain ⟨i, inI, assumed⟩ := none x inside
      rw [(cites i inI).content.2.2, List.mem_singleton] at assumed
      exact ⟨i, inI, assumed.symm⟩
    obtain ⟨i, inI, rfl⟩ := used a List.mem_cons_self
    obtain ⟨j, inJ, rfl⟩ := used b (List.mem_cons_of_mem _ List.mem_cons_self)
    exact derives.allowed i inI j inJ excludes

def outputsOf (c : Crypto) (graphs : List D45Graph) (program : ConjunctiveProgram) :
    Set (List String) :=
  {values | ∃ executor, Executes c graphs executor ∧
    ∃ ids, (values, ids) ∈ answers c executor program}

theorem mem_outputsOf (able : Transportable c graphs) {values : List String} :
    values ∈ outputsOf c graphs program ↔ ∃ assignment pick,
      Derives c graphs program assignment pick ∧
        values = program.outputVariables.map assignment := by
  constructor
  · rintro ⟨executor, executes, ids, assignment, choice, maps, same⟩
    have cited : ∀ i, ∃ row, i < program.goals.length →
        Cites c graphs (choice i) row ∧ row.Sound := by
      intro i
      by_cases inside : i < program.goals.length
      · obtain ⟨active, -⟩ := maps.facts i _ (List.getElem?_eq_getElem inside)
        obtain ⟨row, here⟩ := executes.mem_activeFacts.mp active
        exact ⟨row, fun _ => here⟩
      · obtain ⟨graph, -⟩ := List.exists_mem_of_ne_nil _ able.nonempty
        obtain ⟨row, -⟩ := List.exists_mem_of_ne_nil _ (rows_ne_nil (c := c) graph)
        exact ⟨row, fun within => absurd within inside⟩
    choose pick cites using cited
    exact ⟨assignment, pick, derives_of_homomorphism executes maps cites,
      congrArg Prod.fst same⟩
  · rintro ⟨assignment, pick, derives, rfl⟩
    obtain ⟨executor, executes⟩ := exists_executes able
    obtain ⟨choice, maps, -⟩ := homomorphism_of_derives executes derives
    exact ⟨executor, executes, _, assignment, choice, maps, rfl⟩

end

end ProofRay.Hypergraph
