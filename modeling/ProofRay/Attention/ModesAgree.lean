/- When the three modes of a lattice query agree: over all facts at once a version that another
   world shows supersedes what this one shows. -/

import ProofRay.Attention.Verdicts

namespace ProofRay.Attention

open Engine (Crypto PyError stdCrypto)
open Hdem
open Lib.Guard

namespace HPLTQuery

variable (c : Crypto) (q : HPLTQuery)

def outcome (mode : LatticeMode) : Except PyError (ProofState × List SigmaPBAOutput) :=
  (q.execute c mode).map fun r => (r.state, r.outputs)

def Fed : Prop := ∀ mode run, q.run c mode = .ok run → run.exhausted = false

/-- The modes agree, and resolve with a tuple exactly when there are worlds and the program has that
tuple alone over the facts that each of them shows. -/
structure Agrees : Prop where
  modes : ∀ mode mode', q.outcome c mode = q.outcome c mode'
  resolves : ∀ mode r, q.execute c mode = .ok r → ∀ values,
    (r.state = .resolved ∧ r.outputs.map SigmaPBAOutput.values = [values]) ↔
      (∃ a, q.World a) ∧ ∀ a, q.World a → ∀ v, (∃ ids, (v, ids) ∈ q.closes c a) ↔ v = values

/-- No world loses an answer to versions that other worlds show: each has one over all the facts,
and what it has over its own is proved the same way by such an answer of some world. -/
def Unsuperseded : Prop :=
  (∀ a, q.World a → (q.closesJointly c a).Nonempty) ∧
    ∀ a, q.World a → ∀ p ∈ q.closes c a,
      ∃ b, q.World b ∧ ∃ p' ∈ q.closesJointly c b, q.proved p' = q.proved p

def FirstShows : Prop :=
  ∀ a, q.World a → (∀ b, q.World b →
    (hdemWorld q.problem a).key ≤ (hdemWorld q.problem b).key) → q.shown a ≠ []

def AgreesWhen : Prop :=
  q.Checked → (∃ a, q.World a) →
    (q.Executable → (∀ a, q.World a → (q.closes c a).Nonempty) → q.Unsuperseded c) ∧
      (¬q.Executable → q.FirstShows)

section

variable {c : Crypto} {q : HPLTQuery}

theorem verdict_eq_iff (checked : q.Checked) :
    q.verdict (q.closes c) = q.verdict (q.closesJointly c) ↔
      ((∃ a, q.World a) → (∀ a, q.World a → (q.closes c a).Nonempty) → q.Unsuperseded c) := by
  constructor
  · rintro same ⟨a, world⟩ all
    have jointly : ∀ b, q.World b → ∀ p ∈ q.closes c b,
        q.proved p ∈ q.verdict (q.closesJointly c) := by
      intro b world' p member
      rw [← same]
      exact ⟨all, b, world', p, member, rfl⟩
    obtain ⟨p, member⟩ := all a world
    refine ⟨(jointly a world p member).1, fun b world' p member => ?_⟩
    obtain ⟨-, b', world'', p', member', alike⟩ := jointly b world' p member
    exact ⟨b', world'', p', member', alike⟩
  · intro keeps
    by_cases some_world : ∃ a, q.World a
    · by_cases all : ∀ a, q.World a → (q.closes c a).Nonempty
      · obtain ⟨joint, proofs⟩ := keeps some_world all
        ext p
        constructor
        · rintro ⟨-, a, world, p, member, rfl⟩
          obtain ⟨b, world', p', member', same⟩ := proofs a world p member
          exact ⟨joint, b, world', p', member', same⟩
        · rintro ⟨-, a, world, p, member, rfl⟩
          exact ⟨all, a, world, p, closesJointly_subset checked a member, rfl⟩
      · push Not at all
        obtain ⟨a, world, none⟩ := all
        have none' : q.closesJointly c a = ∅ :=
          Set.subset_eq_empty (closesJointly_subset checked a) none
        rw [verdict_eq_empty (.inr ⟨a, world, none⟩), verdict_eq_empty (.inr ⟨a, world, none'⟩)]
    · have no_world : ∀ a, ¬q.World a := fun a world => some_world ⟨a, world⟩
      rw [verdict_eq_empty (.inl no_world), verdict_eq_empty (.inl no_world)]

theorem resolved_iff {state : ProofState} {outputs : List SigmaPBAOutput}
    (lists : Lists state outputs (q.verdict (q.closes c))) (values : List String) :
    (state = .resolved ∧ outputs.map SigmaPBAOutput.values = [values]) ↔
      (∃ a, q.World a) ∧ ∀ a, q.World a → ∀ v, (∃ ids, (v, ids) ∈ q.closes c a) ↔ v = values := by
  rw [lists.resolved_iff]
  constructor
  · intro only
    obtain ⟨ids, all, a, world, -⟩ := (only values).mpr rfl
    have each : ∀ b, q.World b → ∀ p ∈ q.closes c b, p.1 = values := fun b world' p member =>
      (only p.1).mp ⟨_, all, b, world', p, member, rfl⟩
    refine ⟨⟨a, world⟩, fun b world' v => ⟨?_, ?_⟩⟩
    · rintro ⟨ids, member⟩
      exact each b world' _ member
    · rintro rfl
      obtain ⟨p, member⟩ := all b world'
      have same := each b world' p member
      exact ⟨p.2, same ▸ member⟩
  · rintro ⟨⟨a, world⟩, only⟩ v
    have all : ∀ b, q.World b → (q.closes c b).Nonempty := by
      intro b world'
      obtain ⟨ids, member⟩ := (only b world' values).mpr rfl
      exact ⟨_, member⟩
    constructor
    · rintro ⟨ids, -, b, world', p, member, same⟩
      have here := (only b world' p.1).mp ⟨p.2, member⟩
      rw [← here]
      exact (congrArg Prod.fst same).symm
    · rintro rfl
      obtain ⟨ids, member⟩ := (only a world v).mpr rfl
      exact ⟨_, all, a, world, (v, ids), member, rfl⟩

theorem run_unchecked (unchecked : ¬q.Checked) : ∃ e, ∀ mode, q.run c mode = .error e := by
  by_cases supplied : q.guardedFacts ≠ [] ∧ q.sources ≠ [] ∧ q.scope ≠ "" ∧ q.allowedRules ≠ []
  · by_cases positive : 1 ≤ q.maxLatticeStates ∧ 1 ≤ q.maxLatticeWorlds ∧
        1 ≤ q.maxCandidateChecks ∧ 1 ≤ q.maxEvidenceBytes ∧ 1 ≤ q.maxEnvironments
    · by_cases factIds : (q.guardedFacts.map fun candidate => candidate.fact.factId).Nodup
      · have unknown : ¬∀ candidate ∈ q.guardedFacts, candidate.guard.Known q.problem :=
          fun known => unchecked ⟨supplied, positive, factIds, known⟩
        refine ⟨.valueError "H-PLT guard references an unknown lattice reading", fun mode => ?_⟩
        unfold run
        rw [require_of supplied, ok_bind, require_of positive, ok_bind, require_of factIds,
          ok_bind, require, if_neg unknown]
        rfl
      · refine ⟨.valueError "H-PLT candidate FactIds must be unique", fun mode => ?_⟩
        unfold run
        rw [require_of supplied, ok_bind, require_of positive, ok_bind, require, if_neg factIds]
        rfl
    · refine ⟨.valueError "H-PLT budgets must be positive", fun mode => ?_⟩
      unfold run
      rw [require_of supplied, ok_bind, require, if_neg positive]
      rfl
  · refine ⟨.valueError
      "H-PLT requires a finite problem, guarded facts, sources and authority", fun mode => ?_⟩
    unfold run
    rw [require, if_neg supplied]
    rfl

theorem run_checked (checked : q.Checked) (mode : LatticeMode) :
    (mode = .symbolic ∧ q.run c mode = symbolic c q) ∨ mode ≠ .symbolic ∧
      ∃ lattice, q.run c mode = overLattice c q lattice ∧ (lattice.complete = true →
        (lattice.worlds.Pairwise fun a b => a.key < b.key) ∧
          ∀ w, w ∈ lattice.worlds ↔ q.problem.Possible w) := by
  obtain ⟨packed, enumerated, solved, solved', -⟩ := packed_eq_enumerative c q.problem
    q.maxLatticeStates q.maxLatticeWorlds q.maxLatticeStates checked.positive.1
    checked.positive.2.1 checked.positive.1
  unfold run
  rw [require_of checked.supplied, ok_bind, require_of checked.positive, ok_bind,
    require_of checked.factIds, ok_bind, require_of checked.known, ok_bind]
  cases mode with
  | symbolic => exact .inl ⟨rfl, rfl⟩
  | packed =>
    have runs : (do
        let lattice ← solveHdemPacked c q.problem q.maxLatticeStates q.maxLatticeWorlds
        overLattice c q lattice) = overLattice c q packed := by
      rw [solved, ok_bind]
    exact .inr ⟨by decide, packed, runs, fun complete => (packed_worlds solved complete).2⟩
  | enumerative =>
    have runs : (do
        let lattice ← solveHdemEnumerative c q.problem q.maxLatticeStates
        overLattice c q lattice) = overLattice c q enumerated := by
      rw [solved', ok_bind]
    exact .inr ⟨by decide, enumerated, runs,
      fun complete => (enumerative_worlds solved' complete).2⟩

variable {e : PyError}

theorem symbolic_refused (checked : q.Checked) {e : PyError}
    (refuses : ∀ facts : List AuthorizedFact, facts ≠ [] →
      (facts.map fun fact => fact.factId).Nodup → q.executor facts = .error e)
    (fed : ∀ run, symbolic c q = .ok run → run.exhausted = false) :
    ((∃ a, q.World a) ∧ symbolic c q = .error e) ∨
      (∀ a, ¬q.World a) ∧ ∃ run, symbolic c q = .ok run ∧ run.result.state = .abstain ∧
        run.result.outputs = [] := by
  obtain ⟨finds, fails⟩ := hpltFindWorld_spec q.problem [] [] q.maxLatticeStates
    (List.forall_mem_nil _) (List.forall_mem_nil _)
  unfold symbolic at fed ⊢
  simp only at fed ⊢
  split
  · rename_i incomplete
    rw [if_pos incomplete] at fed
    cases fed _ rfl
  · rename_i complete
    split
    · rename_i none
      refine .inr ⟨fun a world => ?_, _, rfl, rfl, rfl⟩
      exact fails none (not_not.mp complete) a world.1 (List.forall_mem_nil _)
        (free_nil_iff.mpr world).2
    · rename_i some_world
      obtain ⟨w, witness⟩ := Option.ne_none_iff_exists'.mp some_world
      obtain ⟨a, assigns, -, free⟩ := finds w witness
      refine .inl ⟨⟨a, free_nil_iff.mp ⟨assigns, free⟩⟩, ?_⟩
      rw [refuses _ (by simpa using checked.supplied.1) (factIds_all checked)]
      rfl

theorem overLattice_refused (checked : q.Checked) {e : PyError}
    (refuses : ∀ facts : List AuthorizedFact, facts ≠ [] →
      (facts.map fun fact => fact.factId).Nodup → q.executor facts = .error e)
    {lattice : HDEMResult} (possible : lattice.complete = true →
      (lattice.worlds.Pairwise fun a b => a.key < b.key) ∧
        ∀ w, w ∈ lattice.worlds ↔ q.problem.Possible w)
    (fed : ∀ run, overLattice c q lattice = .ok run → run.exhausted = false) :
    ((∃ a, q.World a) ∧ q.FirstShows ∧ overLattice c q lattice = .error e) ∨
      ((∃ a, q.World a) → ¬q.FirstShows) ∧ ∃ run, overLattice c q lattice = .ok run ∧
        run.result.state = .abstain ∧ run.result.outputs = [] := by
  unfold overLattice at fed ⊢
  split
  · rename_i incomplete
    rw [if_pos incomplete] at fed
    cases fed _ rfl
  · rename_i complete
    obtain ⟨ordered, possible⟩ := possible (not_not.mp complete)
    have listed : ∀ a, q.World a → hdemWorld q.problem a ∈ lattice.worlds := fun a world =>
      (possible _).mpr ⟨a, world.1, world.2, rfl⟩
    split
    · rename_i none
      refine .inr ⟨?_, _, rfl, rfl, rfl⟩
      rintro ⟨a, world⟩
      have inside := listed a world
      rw [none] at inside
      cases inside
    · cases worlds : lattice.worlds with
      | nil => exact absurd worlds ‹_›
      | cons w rest =>
        rw [worlds] at ordered listed
        obtain ⟨a, assigns, satisfies, first⟩ := (possible w).mp (worlds ▸ List.mem_cons_self)
        have least : ∀ b, q.World b →
            (hdemWorld q.problem a).key ≤ (hdemWorld q.problem b).key := by
          intro b world
          rw [first]
          rcases List.mem_cons.mp (listed b world) with same | later
          · rw [same]
          · exact ((List.pairwise_cons.mp ordered).1 _ later).le
        have shows : q.active w = q.shown a := by
          rw [← first, active_hdemWorld checked]
        unfold overWorlds
        split
        · rename_i none_active
          refine .inr ⟨fun _ first_shows => ?_, _, rfl, rfl, rfl⟩
          exact first_shows a ⟨assigns, satisfies⟩ least (shows ▸ none_active)
        · rename_i some_active
          refine .inl ⟨⟨a, assigns, satisfies⟩, fun b world least' => ?_, ?_⟩
          · have same : hdemWorld q.problem b = hdemWorld q.problem a :=
              HDEMWorld.key_injective (le_antisymm (least' a ⟨assigns, satisfies⟩) (least b world))
            rw [← active_hdemWorld checked, same, active_hdemWorld checked, ← shows]
            exact some_active
          · rw [refuses _ some_active (shows ▸ factIds_shown checked a)]
            rfl

variable {mode : LatticeMode}

private theorem outcome_of_ok {run : HPLTRun} (ran : q.run c mode = .ok run) :
    q.execute c mode = .ok run.result ∧
      q.outcome c mode = .ok (run.result.state, run.result.outputs) := by
  have executed : q.execute c mode = .ok run.result := by
    rw [execute, ran]
    rfl
  exact ⟨executed, by rw [outcome, executed]; rfl⟩

private theorem outcome_of_error (ran : q.run c mode = .error e) :
    q.execute c mode = .error e ∧ q.outcome c mode = .error e := by
  have executed : q.execute c mode = .error e := by
    rw [execute, ran]
    rfl
  exact ⟨executed, by rw [outcome, executed]; rfl⟩

theorem lists_run (fed : q.Fed c) (checked : q.Checked) (executable : q.Executable)
    (mode : LatticeMode) : ∃ run, q.run c mode = .ok run ∧
      Lists run.result.state run.result.outputs
        (q.verdict (if mode = .symbolic then q.closesJointly c else q.closes c)) := by
  rcases run_checked (c := c) checked mode with
    ⟨isSymbolic, runs⟩ | ⟨notSymbolic, lattice, runs, possible⟩
  · obtain ⟨run, ran, lists⟩ := symbolic_spec (c := c) checked executable
    rw [← runs] at ran
    rw [if_pos isSymbolic]
    exact ⟨run, ran, lists (fed mode run ran)⟩
  · obtain ⟨run, ran, lists⟩ := overLattice_spec (c := c) checked executable
      fun complete => (possible complete).2
    rw [← runs] at ran
    rw [if_neg notSymbolic]
    exact ⟨run, ran, lists (fed mode run ran)⟩

/-- A query that no executor takes raises one error, but for abstaining without a world, or where
the first world of a lattice shows no fact. -/
theorem run_refused (fed : q.Fed c) (checked : q.Checked) (refused : ¬q.Executable) :
    ∃ e, ∀ mode,
      (((∃ a, q.World a) ∧ (mode = .symbolic ∨ q.FirstShows)) ∧ q.run c mode = .error e) ∨
        ((∃ a, q.World a) → mode ≠ .symbolic ∧ ¬q.FirstShows) ∧ ∃ run, q.run c mode = .ok run ∧
          run.result.state = .abstain ∧ run.result.outputs = [] := by
  obtain ⟨e, refuses⟩ := executor_error checked refused
  refine ⟨e, fun mode => ?_⟩
  rcases run_checked (c := c) checked mode with
    ⟨isSymbolic, runs⟩ | ⟨notSymbolic, lattice, runs, possible⟩
  · have fed' : ∀ run, symbolic c q = .ok run → run.exhausted = false := fun run ran =>
      fed mode run (runs.trans ran)
    rw [runs]
    rcases symbolic_refused checked refuses fed' with ⟨world, stopped⟩ | ⟨no_world, ended⟩
    · exact .inl ⟨⟨world, .inl isSymbolic⟩, stopped⟩
    · exact .inr ⟨fun ⟨a, world⟩ => absurd world (no_world a), ended⟩
  · have fed' : ∀ run, overLattice c q lattice = .ok run → run.exhausted = false := fun run ran =>
      fed mode run (runs.trans ran)
    rw [runs]
    rcases overLattice_refused checked refuses possible fed' with
      ⟨world, shows, stopped⟩ | ⟨hidden, ended⟩
    · exact .inl ⟨⟨world, .inr shows⟩, stopped⟩
    · exact .inr ⟨fun world => ⟨notSymbolic, hidden world⟩, ended⟩

theorem agrees_of_lists (lists : ∀ mode, ∃ run, q.run c mode = .ok run ∧
    Lists run.result.state run.result.outputs (q.verdict (q.closes c))) : q.Agrees c := by
  constructor
  case modes =>
    intro mode mode'
    obtain ⟨run, ran, listed⟩ := lists mode
    obtain ⟨run', ran', listed'⟩ := lists mode'
    obtain ⟨state, outputs⟩ := listed.unique listed'
    rw [(outcome_of_ok ran).2, (outcome_of_ok ran').2, state, outputs]
  case resolves =>
    intro mode r executed values
    obtain ⟨run, ran, listed⟩ := lists mode
    rw [(outcome_of_ok ran).1] at executed
    cases executed
    exact resolved_iff listed values

theorem agrees_of_error (stopped : ∀ mode, q.run c mode = .error e) : q.Agrees c := by
  constructor
  case modes =>
    intro mode mode'
    rw [(outcome_of_error (stopped mode)).2, (outcome_of_error (stopped mode')).2]
  case resolves =>
    intro mode r executed
    rw [(outcome_of_error (stopped mode)).1] at executed
    cases executed

theorem agrees_of_abstain (no_world : ∀ a, ¬q.World a) (ended : ∀ mode, ∃ run,
    q.run c mode = .ok run ∧ run.result.state = .abstain ∧ run.result.outputs = []) :
    q.Agrees c := by
  refine agrees_of_lists fun mode => ?_
  obtain ⟨run, ran, state, outputs⟩ := ended mode
  refine ⟨run, ran, ?_⟩
  rw [state, outputs, verdict_eq_empty (.inl no_world)]
  exact lists_empty

theorem agrees_iff_of_executable (fed : q.Fed c) (checked : q.Checked)
    (executable : q.Executable) : q.Agrees c ↔ ((∃ a, q.World a) →
      (∀ a, q.World a → (q.closes c a).Nonempty) → q.Unsuperseded c) := by
  rw [← verdict_eq_iff checked]
  constructor
  · intro agrees
    obtain ⟨run, ran, lists⟩ := lists_run fed checked executable .packed
    obtain ⟨run', ran', lists'⟩ := lists_run fed checked executable .symbolic
    have same := agrees.modes .packed .symbolic
    rw [(outcome_of_ok ran).2, (outcome_of_ok ran').2, Except.ok.injEq, Prod.mk.injEq] at same
    rw [if_neg (by decide)] at lists
    rw [if_pos rfl, ← same.2] at lists'
    ext p
    exact (lists.mem_paths p).symm.trans (lists'.mem_paths p)
  · intro same
    refine agrees_of_lists fun mode => ?_
    obtain ⟨run, ran, lists⟩ := lists_run fed checked executable mode
    refine ⟨run, ran, ?_⟩
    split at lists
    · rw [same]
      exact lists
    · exact lists

theorem agrees_iff_of_refused (fed : q.Fed c) (checked : q.Checked) (refused : ¬q.Executable) :
    q.Agrees c ↔ ((∃ a, q.World a) → q.FirstShows) := by
  obtain ⟨e, each⟩ := run_refused fed checked refused
  constructor
  · intro agrees world
    by_contra hidden
    have same := agrees.modes .packed .symbolic
    rcases each .packed with ⟨⟨-, shows⟩, -⟩ | ⟨-, run, ran, -⟩
    · exact hidden (shows.resolve_left (by decide))
    · rcases each .symbolic with ⟨-, stopped⟩ | ⟨absurd_mode, -⟩
      · rw [(outcome_of_ok ran).2, (outcome_of_error stopped).2] at same
        cases same
      · exact (absurd_mode world).1 rfl
  · intro shows
    by_cases world : ∃ a, q.World a
    · refine agrees_of_error (e := e) fun mode => ?_
      rcases each mode with ⟨-, stopped⟩ | ⟨hidden, -⟩
      · exact stopped
      · exact absurd (shows world) (hidden world).2
    · refine agrees_of_abstain (fun a isWorld => world ⟨a, isWorld⟩) fun mode => ?_
      rcases each mode with ⟨⟨world', -⟩, -⟩ | ⟨-, ended⟩
      · exact absurd world' world
      · exact ended

end

/-- Where no budget runs out, the modes agree exactly under the condition: the query is refused
at once, there is no world, a world shows facts without an answer, or no world loses an answer
to the versions that other worlds show; a query that no executor takes has a first world that
shows a fact. -/
theorem agrees_iff (c : Crypto) (q : HPLTQuery) (fed : q.Fed c) : q.Agrees c ↔ q.AgreesWhen c := by
  by_cases checked : q.Checked
  · by_cases executable : q.Executable
    · rw [agrees_iff_of_executable fed checked executable]
      constructor
      · exact fun keeps _ world => ⟨fun _ => keeps world, fun refused => absurd executable refused⟩
      · exact fun condition world => (condition checked world).1 executable
    · rw [agrees_iff_of_refused fed checked executable]
      constructor
      · exact fun shows _ world => ⟨fun fine => absurd fine executable, fun _ => shows world⟩
      · exact fun condition world => (condition checked world).2 executable
  · obtain ⟨e, stopped⟩ := run_unchecked (c := c) checked
    exact iff_of_true (agrees_of_error stopped) fun fine => absurd fine checked

end HPLTQuery

section

def oneBit : HDEMProblem where
  vars := [bit "x" x_named]
  constraints := []
  answerVariables := ["x"]
  named := ⟨by simp, List.pairwise_singleton _ _⟩
  identified := List.Pairwise.nil
  answers := by decide
  known := by decide
  inside := by decide

variable (c : Crypto)

def sayings : HPLTQuery where
  problem := oneBit
  guardedFacts := [⟨said c 1 1 "yes", [("x", "0")], by decide⟩,
    ⟨said c 2 2 "no", [("x", "1")], by decide⟩]
  sources := [saying c]
  scope := "town"
  allowedRules := ["sentence"]
  program := whatAdaSays
  nogoods := []
  maxLatticeStates := 10
  maxLatticeWorlds := 10
  maxCandidateChecks := 10
  maxEvidenceBytes := 100
  maxEnvironments := 10

theorem checked_sayings : (sayings c).Checked where
  supplied := by simp [sayings]
  positive := by simp [sayings]
  factIds := by
    show [(1 : Int), 2].Nodup
    decide
  known := by
    have first : Guard.Known [("x", "0")] oneBit := by decide
    have second : Guard.Known [("x", "1")] oneBit := by decide
    simp [sayings, first, second]

theorem executable_sayings : (sayings c).Executable :=
  ⟨List.nodup_singleton _, List.not_mem_nil⟩

variable {c : Crypto}

variable {facts : List AuthorizedFact}

theorem executor_sayings (some_fact : facts ≠ []) (factIds : (facts.map fun f => f.factId).Nodup) :
    (sayings c).executor facts = .ok (town c facts some_fact factIds) := by
  have supplied : (sayings c).sources ≠ [] ∧ facts ≠ [] ∧ (sayings c).scope ≠ "" ∧
      (sayings c).allowedRules ≠ [] := by
    simp [sayings, some_fact]
  have unique : ((sayings c).sources.map fun s => s.sourceId).Nodup := List.nodup_singleton _
  have no_nogood : [] ∉ (sayings c).nogoods := List.not_mem_nil
  unfold HPLTQuery.executor SigmaPBAExecutor.make
  rw [dif_pos supplied, dif_pos unique, dif_pos factIds, dif_pos no_nogood]
  rfl

theorem answersOver_sayings (some_fact : facts ≠ []) (factIds : (facts.map fun f => f.factId).Nodup)
    {factId version : Int} {value : String}
    (active : (town c facts some_fact factIds).activeFacts c = [said c factId version value]) :
    (sayings c).answersOver c facts = {([value], [factId])} := by
  have made : (sayings c).executor facts = .ok (town c facts some_fact factIds) :=
    executor_sayings some_fact factIds
  obtain ⟨r, attended, lists⟩ :=
    HPLTQuery.lists_answersOver (c := c) (checked_sayings c) made
  rw [show executeProofAttention c (town c facts some_fact factIds) (sayings c).program
    (sayings c).budgets = _ from executeProofAttention_said active] at attended
  cases attended
  have listed := lists (by simp [SigmaPBAResult.Exhausted])
  ext p
  rw [← listed.mem_paths p]
  simp

def bitWorld (value : String) : HDEMWorld := hdemWorld oneBit fun _ => value

theorem lattices_sayings : ∃ packed enumerated,
    solveHdemPacked c oneBit 10 10 = .ok packed ∧
      solveHdemEnumerative c oneBit 10 = .ok enumerated ∧
      (packed.complete = true ∧ packed.worlds = [bitWorld "0", bitWorld "1"]) ∧
      enumerated.complete = true ∧ enumerated.worlds = [bitWorld "0", bitWorld "1"] :=
  ⟨_, _, rfl, rfl, ⟨rfl, rfl⟩, rfl, rfl⟩

theorem active_yes : (town c [said c 1 1 "yes"] (by simp) (by simp)).activeFacts c =
    [said c 1 1 "yes"] := by
  refine (activeFacts_town rfl fun fact member => ?_).trans rfl
  rw [List.mem_singleton.mp member]
  exact said_authorized (by decide) (by decide) (by decide)

theorem active_no : (town c [said c 2 2 "no"] (by simp) (by simp)).activeFacts c =
    [said c 2 2 "no"] := by
  refine (activeFacts_town rfl fun fact member => ?_).trans rfl
  rw [List.mem_singleton.mp member]
  exact said_authorized (by decide) (by decide) (by decide)

theorem active_both : (town c [said c 1 1 "yes", said c 2 2 "no"] (by simp)
    (by simp [said])).activeFacts c = [said c 2 2 "no"] := by
  refine (activeFacts_town rfl fun fact member => ?_).trans rfl
  rcases List.mem_cons.mp member with rfl | later
  · exact said_authorized (by decide) (by decide) (by decide)
  · rw [List.mem_singleton.mp later]
    exact said_authorized (by decide) (by decide) (by decide)

theorem fed_overLattice {lattice : HDEMResult} (complete : lattice.complete = true)
    (worlds : lattice.worlds = [bitWorld "0", bitWorld "1"]) :
    ∃ r, HPLTQuery.overLattice c (sayings c) lattice = .ok ⟨r, false⟩ := by
  have yes : (sayings c).active (bitWorld "0") = [said c 1 1 "yes"] := rfl
  have no : (sayings c).active (bitWorld "1") = [said c 2 2 "no"] := rfl
  have run_yes : executeProofAttention c (town c [said c 1 1 "yes"] (by simp) (by simp))
      (sayings c).program (sayings c).budgets = _ := executeProofAttention_said active_yes
  have run_no : executeProofAttention c (town c [said c 2 2 "no"] (by simp) (by simp))
      (sayings c).program (sayings c).budgets = _ := executeProofAttention_said active_no
  have overNo : ∀ s, ∃ r, HPLTQuery.overWorlds c (sayings c) lattice [bitWorld "1"] s =
      .ok ⟨r, false⟩ := by
    intro s
    unfold HPLTQuery.overWorlds
    rw [no, if_neg (List.cons_ne_nil _ _), executor_sayings (by simp) (by simp), ok_bind, run_no]
    exact ⟨_, rfl⟩
  unfold HPLTQuery.overLattice HPLTQuery.overWorlds
  rw [worlds, complete, if_neg (by decide), if_neg (List.cons_ne_nil _ _)]
  simp only
  rw [yes, if_neg (List.cons_ne_nil _ _), executor_sayings (by simp) (by simp), ok_bind, run_yes]
  exact overNo _

theorem fed_symbolic : ∃ r, HPLTQuery.symbolic c (sayings c) = .ok ⟨r, false⟩ := by
  have run_both : executeProofAttention c
      (town c [said c 1 1 "yes", said c 2 2 "no"] (by simp) (by simp [said]))
      (sayings c).program (sayings c).budgets = _ := executeProofAttention_said active_both
  have made : (sayings c).executor ((sayings c).guardedFacts.map HPLTGuardedFact.fact) =
      .ok (town c [said c 1 1 "yes", said c 2 2 "no"] (by simp) (by simp [said])) :=
    executor_sayings _ _
  unfold HPLTQuery.symbolic
  simp only [made, ok_bind, run_both]
  exact ⟨_, rfl⟩

theorem fed_sayings : (sayings c).Fed c := by
  obtain ⟨packed, enumerated, solved, solved', ⟨complete, worlds⟩, complete', worlds'⟩ :=
    lattices_sayings (c := c)
  have checked := checked_sayings c
  intro mode run ran
  unfold HPLTQuery.run at ran
  rw [require_of checked.supplied, ok_bind, require_of checked.positive, ok_bind,
    require_of checked.factIds, ok_bind, require_of checked.known, ok_bind] at ran
  cases mode with
  | symbolic =>
    obtain ⟨r, same⟩ := fed_symbolic (c := c)
    rw [same] at ran
    cases ran
    rfl
  | packed =>
    obtain ⟨r, same⟩ := fed_overLattice (c := c) complete worlds
    have solved : solveHdemPacked c (sayings c).problem (sayings c).maxLatticeStates
        (sayings c).maxLatticeWorlds = .ok packed := solved
    rw [solved, ok_bind, same] at ran
    cases ran
    rfl
  | enumerative =>
    obtain ⟨r, same⟩ := fed_overLattice (c := c) complete' worlds'
    have solved' : solveHdemEnumerative c (sayings c).problem (sayings c).maxLatticeStates =
        .ok enumerated := solved'
    rw [solved', ok_bind, same] at ran
    cases ran
    rfl

theorem closes_sayings {a : String → String} (world : (sayings c).World a) :
    ((sayings c).closes c a).Nonempty := by
  have value : a "x" ∈ ["0", "1"] := world.1 "x" (List.mem_singleton_self _)
  simp only [List.mem_cons, List.not_mem_nil, or_false] at value
  unfold HPLTQuery.closes
  rcases value with zero | one
  · have shown : (sayings c).shown a = [said c 1 1 "yes"] := by
      simp [HPLTQuery.shown, sayings, Guard.Holds, zero]
    rw [shown, answersOver_sayings (by simp) (by simp) active_yes]
    exact Set.singleton_nonempty _
  · have shown : (sayings c).shown a = [said c 2 2 "no"] := by
      simp [HPLTQuery.shown, sayings, Guard.Holds, one]
    rw [shown, answersOver_sayings (by simp) (by simp) active_no]
    exact Set.singleton_nonempty _

theorem closesJointly_sayings : (sayings c).closesJointly c (fun _ => "0") = ∅ := by
  have both : (sayings c).answersOver c ((sayings c).guardedFacts.map HPLTGuardedFact.fact) =
      {(["no"], [2])} :=
      answersOver_sayings (by simp [sayings]) (by simp [sayings, said]) active_both
  refine Set.eq_empty_iff_forall_notMem.mpr ?_
  rintro p ⟨member, holds⟩
  rw [both, Set.mem_singleton_iff] at member
  subst member
  have guard : ((sayings c).guardOf 2).Holds fun _ => "0" := holds 2 (List.mem_singleton_self _)
  have second : (sayings c).guardOf 2 = [("x", "1")] := rfl
  rw [second] at guard
  have differs : ¬Guard.Holds [("x", "1")] fun _ => "0" := by decide
  exact differs guard

end

theorem agrees_iff_sayings : (sayings stdCrypto).Fed stdCrypto ∧
    ((sayings stdCrypto).Agrees stdCrypto ↔ (sayings stdCrypto).AgreesWhen stdCrypto) :=
  ⟨fed_sayings, HPLTQuery.agrees_iff stdCrypto (sayings stdCrypto) fed_sayings⟩

theorem not_agrees_sayings : ¬∀ q : HPLTQuery, q.Fed stdCrypto → q.Agrees stdCrypto := by
  intro all
  have agrees := all (sayings stdCrypto) fed_sayings
  rw [HPLTQuery.agrees_iff_of_executable fed_sayings (checked_sayings _)
    (executable_sayings _)] at agrees
  have world : (sayings stdCrypto).World fun _ => "0" := by
    refine ⟨fun name known => ?_, List.forall_mem_nil _⟩
    have same : name = "x" := List.mem_singleton.mp known
    rw [same]
    exact List.mem_cons_self
  have joint := (agrees ⟨_, world⟩ fun a => closes_sayings).1 _ world
  rw [closesJointly_sayings] at joint
  exact Set.not_nonempty_empty joint

end ProofRay.Attention
