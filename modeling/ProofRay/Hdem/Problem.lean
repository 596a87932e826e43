/- Finite possible-world problems: variables with their values, relations over them, the worlds that
   satisfy every relation, and the results both solvers give. -/

import Mathlib.Data.List.Lex
import Mathlib.Data.Prod.Lex
import ProofRay.Lib.ConstraintNet
import ProofRay.Lib.SortedSet
import ProofRay.Sidecar.Facts

namespace ProofRay.Hdem

open Engine (Crypto)
open Lib (Json grouped sortedSet)
open Lib.ConstraintNet
open Sidecar (Canonical encode hexSha256)

/-- The four digits of `\uXXXX`. -/
def unicodeDigits (n : Nat) : List Char :=
  ['\\', 'u', Json.hexDigit (n / 4096), Json.hexDigit (n / 256 % 16), Json.hexDigit (n / 16 % 16),
    Json.hexDigit (n % 16)]

/-- A character that is not ASCII text, with `ensure_ascii=True`. -/
def escapeUnicode (c : Char) : List Char :=
  if c.toNat < 127 then [c]
  else if c.toNat < 65536 then unicodeDigits c.toNat
  else
    let n := c.toNat - 65536
    unicodeDigits (55296 + n / 1024) ++ unicodeDigits (56320 + n % 1024)

/-- `json.dumps(v, sort_keys=True, separators=(",", ":"))`. -/
def asciiJson (v : Json) : String := String.ofList (v.dumps.flatMap escapeUnicode)

/-- `HDEMValue`. -/
structure HDEMValue where
  value : String
  factIds : List Int
  checked : value ≠ "" ∧ Canonical factIds ∧ ∀ id ∈ factIds, 0 ≤ id

/-- `HDEMVariable`. -/
structure HDEMVariable where
  name : String
  domain : List HDEMValue
  checked : name ≠ "" ∧ domain ≠ [] ∧ Canonical (domain.map fun v => v.value)

def HDEMVariable.values (v : HDEMVariable) : List String := v.domain.map fun item => item.value

/-- `HDEMConstraint`. -/
structure HDEMConstraint where
  constraintId : String
  vars : List String
  allowed : List (List String)
  witnessFactIds : List Int
  named : constraintId ≠ "" ∧ vars ≠ [] ∧ vars.Nodup
  relation : allowed ≠ [] ∧ Canonical allowed ∧ ∀ row ∈ allowed, row.length = vars.length
  witnesses : Canonical witnessFactIds ∧ ∀ id ∈ witnessFactIds, 0 ≤ id

def domainOf (vars : List HDEMVariable) (name : String) : List String :=
  ((vars.find? fun v => v.name = name).map HDEMVariable.values).getD []

/-- `HDEMProblem`. -/
structure HDEMProblem where
  vars : List HDEMVariable
  constraints : List HDEMConstraint
  answerVariables : List String
  named : vars ≠ [] ∧ Canonical (vars.map fun v => v.name)
  identified : Canonical (constraints.map fun k => k.constraintId)
  answers : answerVariables ≠ [] ∧ answerVariables.Nodup ∧
    ∀ name ∈ answerVariables, name ∈ vars.map fun v => v.name
  known : ∀ k ∈ constraints, ∀ name ∈ k.vars, name ∈ vars.map fun v => v.name
  inside : ∀ k ∈ constraints, ∀ row ∈ k.allowed, ∀ p ∈ k.vars.zip row, p.2 ∈ domainOf vars p.1

namespace HDEMProblem

variable (c : Crypto) (problem : HDEMProblem)

def names : List String := problem.vars.map fun v => v.name

/-- `{value.value for value in item.domain}` of the variable of a name. -/
def domain (name : String) : List String := domainOf problem.vars name

/-- The payload of `canonical_sha256`. -/
def payload : Json :=
  let texts (l : List String) : Json := .arr (l.map .str)
  let ids (l : List Int) : Json := .arr (l.map .int)
  .obj
    [("variables", .arr (problem.vars.map fun v =>
        .arr [.str v.name,
          .arr (v.domain.map fun item => .arr [.str item.value, ids item.factIds])])),
      ("constraints", .arr (problem.constraints.map fun k =>
        .arr [.str k.constraintId, texts k.vars, .arr (k.allowed.map texts),
          ids k.witnessFactIds])),
      ("answer_variables", texts problem.answerVariables)]

/-- `canonical_sha256`. -/
def canonicalSha256 : String := hexSha256 c (encode (asciiJson problem.payload))

end HDEMProblem

/-- `dict(zip(names, values))`, read at a name. -/
def zipped (names values : List String) (name : String) : String :=
  ((names.zip values).lookup name).getD ""

section

variable {names values : List String}

private theorem zipped_cons_self (name value : String) :
    zipped (name :: names) (value :: values) name = value := by
  simp [zipped]

private theorem zipped_cons_ne {name other : String} (value : String) (differs : other ≠ name) :
    zipped (name :: names) (value :: values) other = zipped names values other := by
  have unlike : (other == name) = false := beq_eq_false_iff_ne.mpr differs
  simp [zipped, List.lookup_cons, unlike]

theorem zipped_map {a : String → String} (nodup : names.Nodup) :
    ∀ name ∈ names, zipped names (names.map a) name = a name := by
  induction names with
  | nil => exact List.forall_mem_nil _
  | cons first rest ih =>
    obtain ⟨apart, nodup⟩ := List.nodup_cons.mp nodup
    intro name member
    rcases List.mem_cons.mp member with rfl | later
    · exact zipped_cons_self name (a name)
    · have differs : name ≠ first := fun same => apart (same ▸ later)
      rw [List.map_cons, zipped_cons_ne _ differs]
      exact ih nodup name later

theorem map_zipped (nodup : names.Nodup) (length : values.length = names.length) :
    names.map (zipped names values) = values := by
  induction names generalizing values with
  | nil => exact (List.length_eq_zero_iff.mp length).symm
  | cons first rest ih =>
    obtain ⟨apart, nodup⟩ := List.nodup_cons.mp nodup
    cases values with
    | nil => cases length
    | cons value values =>
      have same : ∀ name ∈ rest,
          zipped (first :: rest) (value :: values) name = zipped rest values name :=
        fun name member => zipped_cons_ne value fun alike => apart (alike ▸ member)
      rw [List.map_cons, zipped_cons_self, List.map_congr_left same, ih nodup (Nat.succ.inj length)]

variable {p : String × String}

theorem mem_zip_map {a : String → String} :
    p ∈ names.zip (names.map a) ↔ p.1 ∈ names ∧ p.2 = a p.1 := by
  obtain ⟨name, value⟩ := p
  have pairs : names.zip (names.map a) = names.map fun name => (name, a name) := by
    induction names with
    | nil => rfl
    | cons first rest ih => simp [ih]
  rw [pairs, List.mem_map]
  constructor
  · rintro ⟨_, member, same⟩
    cases same
    exact ⟨member, rfl⟩
  · rintro ⟨member, same⟩
    exact ⟨name, member, congrArg (Prod.mk name) same.symm⟩

theorem mem_zip_iff (nodup : names.Nodup) (length : values.length = names.length) :
    p ∈ names.zip values ↔ p.1 ∈ names ∧ p.2 = zipped names values p.1 := by
  have again := map_zipped nodup length
  constructor
  · intro member
    rw [← again] at member
    exact mem_zip_map.mp member
  · intro here
    rw [← again]
    exact mem_zip_map.mpr here

end

/-- `HDEMWorld`. -/
structure HDEMWorld where
  assignment : List (String × String)
  answer : List String
  provenance : List Int
  deriving DecidableEq, Repr

def HDEMWorld.key (w : HDEMWorld) : List (String ×ₗ String) ×ₗ (List String ×ₗ List Int) :=
  toLex (w.assignment.map toLex, toLex (w.answer, w.provenance))

theorem HDEMWorld.key_injective : Function.Injective HDEMWorld.key := by
  rintro ⟨a, b, d⟩ ⟨a', b', d'⟩ same
  have outer := toLex.injective same
  simp only [Prod.mk.injEq, EmbeddingLike.apply_eq_iff_eq] at outer
  obtain ⟨first, rfl, rfl⟩ := outer
  rw [List.map_injective_iff.mpr toLex.injective first]

/-- `HDEMAnswerProof`. -/
structure HDEMAnswerProof where
  answer : List String
  monomials : List (List Int)
  deriving DecidableEq, Repr

inductive HDEMState where
  | resolved
  | contested
  | abstain
  deriving DecidableEq, Repr

/-- `HDEMResult`. -/
structure HDEMResult where
  state : HDEMState
  answer : Option (List String)
  proofs : List HDEMAnswerProof
  worlds : List HDEMWorld
  complete : Bool
  exploredStates : Nat
  prunedValues : Nat
  problemSha256 : String
  reason : String
  deriving DecidableEq, Repr

def factIdsOf (problem : HDEMProblem) (name value : String) : List Int :=
  ((problem.vars.find? fun v => v.name = name).bind fun v =>
    (v.domain.find? fun item => item.value = value).map fun item => item.factIds).getD []

/-- `_hdem_world`.  The names are in order, so the items of the assignment are sorted. -/
def hdemWorld (problem : HDEMProblem) (assignment : String → String) : HDEMWorld where
  assignment := problem.names.map fun name => (name, assignment name)
  answer := problem.answerVariables.map assignment
  provenance := sortedSet id
    ((problem.names.flatMap fun name => factIdsOf problem name (assignment name)) ++
      problem.constraints.flatMap fun k => k.witnessFactIds)

/-- `_hdem_result`. -/
def hdemResult (c : Crypto) (problem : HDEMProblem) (worlds : List HDEMWorld) (complete : Bool)
    (exploredStates prunedValues : Nat) (reason : String) : HDEMResult :=
  let proofs := (grouped (worlds.map fun w => (w.answer, w.provenance))).map fun group =>
    HDEMAnswerProof.mk group.1 group.2
  let (state, answer) :=
    if ¬ complete then (.abstain, none)
    else
      match proofs with
      | [] => (.abstain, none)
      | [proof] => (.resolved, some proof.answer)
      | _ => (.contested, none)
  ⟨state, answer, proofs, worlds, complete, exploredStates, prunedValues,
    problem.canonicalSha256 c, reason⟩

namespace HDEMProblem

variable (problem : HDEMProblem)

def rowOf (k : HDEMConstraint) (assignment : String → String) : List String :=
  k.vars.map assignment

def Assigns (assignment : String → String) : Prop :=
  ∀ name ∈ problem.names, assignment name ∈ problem.domain name

def Satisfies (assignment : String → String) : Prop :=
  ∀ k ∈ problem.constraints, rowOf k assignment ∈ k.allowed

instance (assignment : String → String) : Decidable (problem.Satisfies assignment) :=
  inferInstanceAs (Decidable (∀ _ ∈ problem.constraints, _))

def Possible (w : HDEMWorld) : Prop :=
  ∃ assignment, problem.Assigns assignment ∧ problem.Satisfies assignment ∧
    hdemWorld problem assignment = w

end HDEMProblem

section

variable {problem : HDEMProblem} {a b : String → String}

theorem HDEMProblem.names_nodup (problem : HDEMProblem) : problem.names.Nodup :=
  problem.named.2.imp ne_of_lt

theorem hdemWorld_congr (same : ∀ name ∈ problem.names, a name = b name) :
    hdemWorld problem a = hdemWorld problem b := by
  have answers : problem.answerVariables.map a = problem.answerVariables.map b :=
    List.map_congr_left fun name member => same name (problem.answers.2.2 name member)
  have items : (problem.names.map fun name => (name, a name)) =
      problem.names.map fun name => (name, b name) :=
    List.map_congr_left fun name member => by rw [same name member]
  have facts : (problem.names.flatMap fun name => factIdsOf problem name (a name)) =
      problem.names.flatMap fun name => factIdsOf problem name (b name) :=
    List.flatMap_congr fun name member => by rw [same name member]
  simp only [hdemWorld, answers, items, facts]

theorem assignment_of_hdemWorld (same : hdemWorld problem a = hdemWorld problem b) :
    ∀ name ∈ problem.names, a name = b name := by
  have items : (problem.names.map fun name => (name, a name)) =
      problem.names.map fun name => (name, b name) := congrArg HDEMWorld.assignment same
  intro name member
  have each := List.map_inj_left.mp items name member
  exact (Prod.mk.inj each).2

theorem HDEMProblem.domain_of_mem {v : HDEMVariable} (member : v ∈ problem.vars) :
    problem.domain v.name = v.values := by
  have found : (problem.vars.find? fun v' => v'.name = v.name) = some v := by
    cases found : problem.vars.find? fun v' => v'.name = v.name with
    | none => exact absurd (decide_eq_true rfl) (List.find?_eq_none.mp found v member)
    | some v' =>
      have named : v'.name = v.name := of_decide_eq_true (List.find?_some found :)
      rw [List.inj_on_of_nodup_map problem.names_nodup (List.mem_of_find?_eq_some found) member
        named]
  rw [HDEMProblem.domain, domainOf, found]
  rfl

theorem HDEMProblem.domain_nodup (problem : HDEMProblem) (name : String) :
    (problem.domain name).Nodup := by
  unfold HDEMProblem.domain domainOf
  cases problem.vars.find? fun v => v.name = name with
  | none => exact List.nodup_nil
  | some v => exact v.checked.2.2.imp ne_of_lt

theorem HDEMProblem.domain_ne_nil {name : String} (member : name ∈ problem.names) :
    problem.domain name ≠ [] := by
  obtain ⟨v, known, rfl⟩ := List.mem_map.mp member
  rw [problem.domain_of_mem known]
  simpa [HDEMVariable.values] using v.checked.2.1

end

def HDEMConstraint.condition (k : HDEMConstraint) : Constraint String String where
  scope := {name | name ∈ k.vars}
  holds a := HDEMProblem.rowOf k a ∈ k.allowed
  locality a b same holds := by
    have rows : HDEMProblem.rowOf k a = HDEMProblem.rowOf k b := List.map_congr_left same
    rw [← rows]
    exact holds

namespace HDEMProblem

def network (problem : HDEMProblem) : Set (Constraint String String) :=
  {condition | ∃ k ∈ problem.constraints, k.condition = condition}

def space (problem : HDEMProblem) (domains : String → List String) (name : String) : Set String :=
  {value | name ∈ problem.names → value ∈ domains name}

section

variable {problem : HDEMProblem} {a : String → String} {domains : String → List String}

theorem solves_network : Solves problem.network a ↔ problem.Satisfies a := by
  constructor
  · intro solves k member
    exact solves k.condition ⟨k, member, rfl⟩
  · rintro satisfies _ ⟨k, member, rfl⟩
    exact satisfies k member

theorem nonempty_space (nonempty : ∀ name ∈ problem.names, domains name ≠ []) (name : String) :
    (problem.space domains name).Nonempty := by
  by_cases known : name ∈ problem.names
  · obtain ⟨value, member⟩ := List.exists_mem_of_ne_nil _ (nonempty name known)
    exact ⟨value, fun _ => member⟩
  · exact ⟨"", fun known' => absurd known' known⟩

theorem mem_names_of_scope {k : HDEMConstraint} (member : k ∈ problem.constraints) {name : String}
    (inScope : name ∈ k.vars) : name ∈ problem.names :=
  problem.known k member name inScope

end

end HDEMProblem

end ProofRay.Hdem
