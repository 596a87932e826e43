/- Authorized facts over sealed sources, conjunctive programs, and the executor that admits the
   latest authorized facts of each orbit. -/

import ProofRay.Hdem.Problem
import ProofRay.Sidecar.Authority

namespace ProofRay.Attention

open Engine (Crypto PyError ascii)
open Hdem (asciiJson)
open Lib (Json sortedSet)
open Lib.Guard
open Sidecar (blank encode hexSha256 isSha256 slice)

def isLower (c : Char) : Bool := 'a' ≤ c && c ≤ 'z'

def isUpper (c : Char) : Bool := 'A' ≤ c && c ≤ 'Z'

def isDigit (c : Char) : Bool := '0' ≤ c && c ≤ '9'

/-- `_PREDICATE.fullmatch`. -/
def isPredicate (s : String) : Bool :=
  match s.toList with
  | first :: rest => isLower first && rest.all fun c => isLower c || isDigit c || c = '_'
  | [] => false

/-- `is_variable`. -/
def isVariable (s : String) : Bool :=
  match s.toList with
  | '?' :: first :: rest =>
    isUpper first && rest.all fun c => isUpper c || isLower c || isDigit c || c = '_'
  | _ => false

/-- `SealedSource`. -/
structure SealedSource where
  sourceId : String
  content : String
  sha256 : String
  deriving DecidableEq

/-- `SealedSource.verify`. -/
def SealedSource.verify (c : Crypto) (source : SealedSource) : Bool :=
  source.sourceId ≠ "" && source.content ≠ "" && hexSha256 c (encode source.content) = source.sha256

/-- `AuthorizedFact`. -/
structure AuthorizedFact where
  factId : Int
  predicate : String
  arguments : List String
  scope : String
  version : Int
  orbit : String
  sourceId : String
  sourceSha256 : String
  sourceSpan : Int × Int
  compilerRule : String
  semanticAttestation : String
  assumptions : List String
  deriving DecidableEq

namespace AuthorizedFact

variable (c : Crypto) (fact : AuthorizedFact)

/-- `_semantic_digest`. -/
def semanticDigest : String :=
  let texts (l : List String) : Json := .arr (l.map .str)
  let payload : Json := .obj
    [("arguments", texts fact.arguments), ("assumptions", texts fact.assumptions),
      ("compiler_rule", .str fact.compilerRule), ("fact_id", .int fact.factId),
      ("orbit", .str fact.orbit), ("predicate", .str fact.predicate), ("scope", .str fact.scope),
      ("source_id", .str fact.sourceId), ("source_sha256", .str fact.sourceSha256),
      ("source_span", .arr [.int fact.sourceSpan.1, .int fact.sourceSpan.2]),
      ("version", .int fact.version)]
  hexSha256 c (ascii "horizon-sigma-pba-fact-v1" ++ [0] ++ encode (asciiJson payload))

/-- `source.content[start:end]`. -/
def cited (source : SealedSource) : String :=
  slice source.content fact.sourceSpan.1.toNat fact.sourceSpan.2.toNat

/-- `AuthorizedFact.verify`. -/
def verify (source : SealedSource) (allowedRules : List String) : Bool :=
  0 ≤ fact.factId && isPredicate fact.predicate &&
    fact.arguments ≠ [] && fact.arguments.all (fun item => item ≠ "") &&
    fact.scope ≠ "" && 1 ≤ fact.version && fact.orbit ≠ "" &&
    fact.compilerRule ∈ allowedRules && isSha256 fact.semanticAttestation &&
    fact.semanticAttestation = fact.semanticDigest c && source.verify c &&
    fact.sourceId = source.sourceId && fact.sourceSha256 = source.sha256 &&
    (0 ≤ fact.sourceSpan.1 && fact.sourceSpan.1 < fact.sourceSpan.2 &&
      fact.sourceSpan.2 ≤ source.content.toList.length) &&
    !blank (fact.cited source) &&
    fact.assumptions = sortedSet id fact.assumptions

end AuthorizedFact

/-- `RelationalGoal`. -/
structure RelationalGoal where
  predicate : String
  arguments : List String
  checked : isPredicate predicate = true ∧ arguments ≠ [] ∧ "" ∉ arguments

/-- `ConjunctiveProgram`. -/
structure ConjunctiveProgram where
  goals : List RelationalGoal
  outputVariables : List String
  nonempty : goals ≠ [] ∧ outputVariables ≠ []
  outputs : ∀ x ∈ outputVariables, isVariable x = true ∧ ∃ goal ∈ goals, x ∈ goal.arguments
  distinct : outputVariables.Nodup

/-- `SigmaPBAExecutor`. -/
structure SigmaPBAExecutor where
  sources : List SealedSource
  facts : List AuthorizedFact
  scope : String
  allowedRules : List String
  nogoods : List (List String)
  supplied : sources ≠ [] ∧ facts ≠ [] ∧ scope ≠ "" ∧ allowedRules ≠ []
  sourceIds : (sources.map fun s => s.sourceId).Nodup
  factIds : (facts.map fun f => f.factId).Nodup
  noEmptyNogood : [] ∉ nogoods

/-- `SigmaPBAExecutor.__init__`. -/
def SigmaPBAExecutor.make (sources : List SealedSource) (facts : List AuthorizedFact)
    (scope : String) (allowedRules : List String) (nogoods : List (List String)) :
    Except PyError SigmaPBAExecutor :=
  if supplied : sources ≠ [] ∧ facts ≠ [] ∧ scope ≠ "" ∧ allowedRules ≠ [] then
    if sourceIds : (sources.map fun s => s.sourceId).Nodup then
      if factIds : (facts.map fun f => f.factId).Nodup then
        if noEmptyNogood : [] ∉ nogoods then
          .ok ⟨sources, facts, scope, allowedRules, nogoods, supplied, sourceIds, factIds,
            noEmptyNogood⟩
        else .error (.valueError "empty nogood would invalidate every environment")
      else .error (.valueError "FactIds must be unique")
    else .error (.valueError "source identities must be unique")
  else .error (.valueError "sources, facts, scope, and allowed rules are required")

def latestVersion (facts : List AuthorizedFact) (orbit : String) : Int :=
  (facts.filter fun fact => fact.orbit = orbit).foldl (fun latest fact => max latest fact.version) 0

namespace SigmaPBAExecutor

variable (c : Crypto) (executor : SigmaPBAExecutor)

/-- `self.sources.get`. -/
def source (sourceId : String) : Option SealedSource :=
  executor.sources.find? fun s => s.sourceId = sourceId

def Authorizes (fact : AuthorizedFact) : Prop :=
  fact.scope = executor.scope ∧
    ∃ source ∈ executor.source fact.sourceId, fact.verify c source executor.allowedRules = true

instance (fact : AuthorizedFact) : Decidable (executor.Authorizes c fact) := by
  unfold Authorizes
  infer_instance

/-- `authorized`, in the order of the FactIds. -/
def authorized : List AuthorizedFact :=
  (executor.facts.insertionSort fun a b => a.factId ≤ b.factId).filter (executor.Authorizes c)

/-- `_authorize_active_facts`. -/
def activeFacts : List AuthorizedFact :=
  (executor.authorized c).filter fun fact =>
    fact.version = latestVersion (executor.authorized c) fact.orbit

/-- `self.index.get((predicate, arity), ())`. -/
def index (predicate : String) (arity : Nat) : List AuthorizedFact :=
  (executor.activeFacts c).filter fun fact =>
    fact.predicate = predicate ∧ fact.arguments.length = arity

/-- `_is_nogood`. -/
def isNogood (assumptions : List String) : Bool :=
  executor.nogoods.any fun nogood => nogood.all fun a => a ∈ assumptions

def cost (fact : AuthorizedFact) : Nat :=
  ((executor.source fact.sourceId).map fun source => (encode (fact.cited source)).length).getD 0

end SigmaPBAExecutor

section

variable (facts : List AuthorizedFact) (orbit : String)

theorem latestVersion_spec :
    (∀ fact ∈ facts, fact.orbit = orbit → fact.version ≤ latestVersion facts orbit) ∧
      (latestVersion facts orbit = 0 ∨
        ∃ fact ∈ facts, fact.orbit = orbit ∧ fact.version = latestVersion facts orbit) := by
  have fold : ∀ (l : List AuthorizedFact) (start : Int),
      start ≤ l.foldl (fun latest fact => max latest fact.version) start ∧
      (∀ fact ∈ l, fact.version ≤ l.foldl (fun latest fact => max latest fact.version) start) ∧
      (l.foldl (fun latest fact => max latest fact.version) start = start ∨
        ∃ fact ∈ l, fact.version = l.foldl (fun latest fact => max latest fact.version) start) := by
    intro l
    induction l with
    | nil => exact fun start => ⟨le_refl start, List.forall_mem_nil _, .inl rfl⟩
    | cons fact l ih =>
      intro start
      obtain ⟨above, each, reached⟩ := ih (max start fact.version)
      rw [List.foldl_cons]
      refine ⟨(le_max_left _ _).trans above,
        List.forall_mem_cons.mpr ⟨(le_max_right _ _).trans above, each⟩, ?_⟩
      rcases reached with first | ⟨other, member, same⟩
      · rw [first]
        rcases max_choice start fact.version with here | here
        · exact .inl here
        · exact .inr ⟨fact, List.mem_cons_self, here.symm⟩
      · exact .inr ⟨other, List.mem_cons_of_mem _ member, same⟩
  obtain ⟨-, each, reached⟩ := fold (facts.filter fun fact => fact.orbit = orbit) 0
  constructor
  · intro fact member same
    exact each fact (List.mem_filter.mpr ⟨member, decide_eq_true same⟩)
  · refine reached.imp_right fun ⟨fact, member, same⟩ => ?_
    obtain ⟨inFacts, here⟩ := List.mem_filter.mp member
    exact ⟨fact, inFacts, of_decide_eq_true here, same⟩

end

namespace SigmaPBAExecutor

variable {c : Crypto} {executor : SigmaPBAExecutor} {fact : AuthorizedFact}

theorem mem_authorized :
    fact ∈ executor.authorized c ↔ fact ∈ executor.facts ∧ executor.Authorizes c fact := by
  rw [authorized, List.mem_filter, List.mem_insertionSort, decide_eq_true_eq]

theorem one_le_version (authorizes : executor.Authorizes c fact) : 1 ≤ fact.version := by
  obtain ⟨-, source, -, verified⟩ := authorizes
  simp only [AuthorizedFact.verify, Bool.and_eq_true, decide_eq_true_eq] at verified
  tauto

theorem mem_activeFacts : fact ∈ executor.activeFacts c ↔ fact ∈ executor.facts ∧
    executor.Authorizes c fact ∧ ∀ other ∈ executor.facts, executor.Authorizes c other →
      other.orbit = fact.orbit → other.version ≤ fact.version := by
  obtain ⟨above, reached⟩ := latestVersion_spec (executor.authorized c) fact.orbit
  rw [activeFacts, List.mem_filter, mem_authorized, decide_eq_true_eq, and_assoc]
  refine and_congr_right fun _ => and_congr_right fun authorizes => ?_
  constructor
  · intro latest other member authorizes' same
    rw [latest]
    exact above other (mem_authorized.mpr ⟨member, authorizes'⟩) same
  · intro none_later
    have here := above fact (mem_authorized.mpr ⟨‹_›, authorizes⟩) rfl
    rcases reached with zero | ⟨other, member, same, version⟩
    · have positive := one_le_version authorizes
      omega
    · obtain ⟨inFacts, authorizes'⟩ := mem_authorized.mp member
      have later := none_later other inFacts authorizes' same
      omega

end SigmaPBAExecutor

end ProofRay.Attention
