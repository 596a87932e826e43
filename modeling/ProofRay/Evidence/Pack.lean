/- Evidence packs: items in causal order, their selection under a budget of characters, and its
   rendering as untrusted data (`evidence.py`). -/

import ProofRay.Lib.Occurrence
import ProofRay.Sidecar.Authority

namespace ProofRay.Evidence

open Engine (Crypto PyError)
open Lib (Dict Json replaceAll)
open Lib.Guard
open Sidecar (blank canonicalJson hexSha256 isBlank isSha256)

variable {σ : Type}

inductive VerifierState where
  | verified
  | rejected
  | unverified
  | mixed
  deriving DecidableEq, Repr

def VerifierState.text : VerifierState → String
  | .verified => "verified"
  | .rejected => "rejected"
  | .unverified => "unverified"
  | .mixed => "mixed"

/-- `EvidenceItem`; `σ` is what relevance scores are. -/
structure EvidenceItem (σ : Type) where
  factId : Nat
  source : String
  version : Option Int
  value : Option Int
  content : Option String
  span : Option (Int × Int)
  verifierState : VerifierState
  sequence : Option Nat
  retrievalRank : Option Nat
  eventTime : Option Nat
  contentSpan : Option (Nat × Nat)
  parentSha256 : Option String
  eventLabel : Option String
  relevanceScore : Option σ
  named : source ≠ ""
  judged : verifierState ≠ .mixed
  ranked : ∀ rank ∈ retrievalRank, 1 ≤ rank
  spanned : ∀ s ∈ contentSpan, s.1 ≤ s.2
  hashed : ∀ sha256 ∈ parentSha256, isSha256 sha256 = true
  labelled : ∀ label ∈ eventLabel, blank label = false ∧ '\n' ∉ label.toList

/-- `__lt__` of tuples, or equal. -/
def keyLe : List Int → List Int → Bool
  | [], _ => true
  | _ :: _, [] => false
  | a :: l, b :: l' => a < b || (a = b && keyLe l l')

namespace EvidenceItem

variable (item : EvidenceItem σ)

def identity : Nat × Option (Nat × Nat) := (item.factId, item.contentSpan)

/-- `_item_order`. -/
def order : List Int :=
  let spanKey : List Int := match item.contentSpan with
    | some s => [s.1, s.2]
    | none => [-1, -1]
  match item.sequence with
  | some sequence => 0 :: sequence :: item.factId :: spanKey
  | none => 1 :: item.factId :: item.factId :: spanKey

def citation : String :=
  match item.contentSpan with
  | some s => s!"{item.source}#fact-{item.factId}:{s.1}-{s.2}"
  | none => s!"{item.source}#fact-{item.factId}"

/-- `item.content if item.content is not None else str(item.value)`. -/
def text : String :=
  match item.content, item.value with
  | some content, _ => content
  | none, some value => toString value
  | none, none => "None"

def payload : Json :=
  let texts (s : Option String) : Json := s.elim .null .str
  let ints (n : Option Int) : Json := n.elim .null .int
  let nats (n : Option Nat) : Json := n.elim .null fun n => .int n
  .obj [("fact_id", .int item.factId), ("source", .str item.source),
    ("version", ints item.version), ("value", ints item.value), ("content", texts item.content),
    ("span", item.span.elim .null fun s => .arr [.int s.1, .int s.2]),
    ("verifier_state", .str item.verifierState.text), ("sequence", nats item.sequence),
    ("retrieval_rank", nats item.retrievalRank), ("event_time", nats item.eventTime),
    ("content_span", item.contentSpan.elim .null fun s => .arr [.int s.1, .int s.2]),
    ("parent_sha256", texts item.parentSha256), ("event_label", texts item.eventLabel)]

end EvidenceItem

/-- `sorted(items, key=_item_order)`. -/
def sortItems (items : List (EvidenceItem σ)) : List (EvidenceItem σ) :=
  items.insertionSort fun a b => keyLe a.order b.order = true

theorem keyLe_total (a b : List Int) : keyLe a b = true ∨ keyLe b a = true := by
  induction a generalizing b with
  | nil => exact .inl rfl
  | cons x a ih =>
    cases b with
    | nil => exact .inr rfl
    | cons y b =>
      have := ih b
      simp only [keyLe, Bool.or_eq_true, Bool.and_eq_true, decide_eq_true_eq]
      grind

theorem keyLe_trans {a b d : List Int} (ab : keyLe a b = true) (bd : keyLe b d = true) :
    keyLe a d = true := by
  induction a generalizing b d with
  | nil => rfl
  | cons x a ih =>
    cases b with
    | nil => cases ab
    | cons y b =>
      cases d with
      | nil => cases bd
      | cons z d =>
        have := @ih b d
        simp only [keyLe, Bool.or_eq_true, Bool.and_eq_true, decide_eq_true_eq] at ab bd ⊢
        grind

theorem perm_sortItems (items : List (EvidenceItem σ)) : (sortItems items).Perm items :=
  List.perm_insertionSort _ _

theorem sortItems_sortItems (items : List (EvidenceItem σ)) :
    sortItems (sortItems items) = sortItems items := by
  have total : Std.Total fun a b : EvidenceItem σ => keyLe a.order b.order = true :=
    ⟨fun _ _ => keyLe_total _ _⟩
  have trans : IsTrans _ fun a b : EvidenceItem σ => keyLe a.order b.order = true :=
    ⟨fun _ _ _ => keyLe_trans⟩
  exact (List.pairwise_insertionSort _ items).insertionSort_eq

theorem mem_citation {item : EvidenceItem σ} {ch : Char} (other : ch.isDigit = false)
    (fresh : ch ∉ "#fact-:".toList) : ch ∈ item.citation.toList ↔ ch ∈ item.source.toList := by
  have digits (n : Nat) : ch ∉ Nat.toDigits 10 n := fun member => by
    have digit := Nat.isDigit_of_mem_toDigits (by decide) (by decide) member
    rw [digit] at other
    cases other
  have fact : ch ∉ "#fact-".toList := fun member => fresh (by simp at member ⊢; tauto)
  have colon : ch ∉ ":".toList := fun member => fresh (by simp at member ⊢; tauto)
  have dash : ch ∉ "-".toList := fun member => fresh (by simp at member ⊢; tauto)
  unfold EvidenceItem.citation
  split <;> simp only [String.toList_append, List.mem_append, toString, Nat.toList_repr, digits,
    fact, colon, dash, or_false]

/-- `EvidencePack`; its columns of ids, sources and versions are those of its items. -/
structure EvidencePack (σ : Type) where
  queryId : String
  items : List (EvidenceItem σ)
  generationId : Option Nat
  recoveryReason : String
  verifierState : VerifierState
  citations : List String
  integrityDigest : String
  queryPlan : Option String
  citationLabels : List String
  named : queryId ≠ ""
  aligned : citations.length = items.length ∧ citationLabels.length = items.length
  ordered : (items.map EvidenceItem.identity).Nodup ∧
    (sortItems items).map EvidenceItem.identity = items.map EvidenceItem.identity
  planned : ∀ plan ∈ queryPlan, blank plan = false ∧ '\n' ∉ plan.toList

namespace EvidencePack

/-- `EvidencePack.__post_init__`. -/
def make (queryId : String) (items : List (EvidenceItem σ)) (generationId : Option Nat)
    (recoveryReason : String) (verifierState : VerifierState) (citations : List String)
    (integrityDigest : String) (queryPlan : Option String) (citationLabels : List String) :
    Except PyError (EvidencePack σ) :=
  if named : queryId ≠ "" then
    if aligned : citations.length = items.length ∧ citationLabels.length = items.length then
      if ordered : (items.map EvidenceItem.identity).Nodup ∧
          (sortItems items).map EvidenceItem.identity = items.map EvidenceItem.identity then
        if planned : ∀ plan ∈ queryPlan, blank plan = false ∧ '\n' ∉ plan.toList then
          .ok ⟨queryId, items, generationId, recoveryReason, verifierState, citations,
            integrityDigest, queryPlan, citationLabels, named, aligned, ordered, planned⟩
        else .error (.valueError "invalid query_plan")
      else .error (.valueError "evidence must be unique and canonically ordered")
    else .error (.valueError "EvidencePack columns must be aligned")
  else .error (.valueError "query_id is required")

/-- `EvidencePack.build`. -/
def build (c : Crypto) (queryId : String) (items : List (EvidenceItem σ))
    (generationId : Option Nat) (recoveryReason : String) (queryPlan : Option String)
    (citationLabels : Dict Nat String) : Except PyError (EvidencePack σ) := do
  let ordered := sortItems items
  let citations := ordered.map EvidenceItem.citation
  let labels := ordered.map fun item => (citationLabels.get item.factId).getD item.citation
  require (∀ label ∈ labels, label ≠ "" ∧ '\n' ∉ label.toList ∧ ']' ∉ label.toList)
    (.valueError "invalid citation label")
  let payload : Json := .obj [("items", .arr (ordered.map EvidenceItem.payload)),
    ("query_plan", queryPlan.elim .null .str), ("citation_labels", .arr (labels.map .str))]
  let digest := if ordered.isEmpty then "" else hexSha256 c (canonicalJson payload)
  let states := (ordered.map EvidenceItem.verifierState).dedup
  let verifier := match states with
    | [] => .rejected
    | [state] => state
    | _ => .mixed
  make queryId ordered generationId recoveryReason verifier citations digest queryPlan labels

def Citable (item : EvidenceItem σ) : Prop :=
  '\n' ∉ item.source.toList ∧ ']' ∉ item.source.toList

theorem labels_iff {items : List (EvidenceItem σ)} :
    (∀ label ∈ (sortItems items).map fun item =>
      ((Dict.empty : Dict Nat String).get item.factId).getD item.citation,
      label ≠ "" ∧ '\n' ∉ label.toList ∧ ']' ∉ label.toList) ↔ ∀ item ∈ items, Citable item := by
  simp only [List.forall_mem_map, Dict.get_empty, Option.getD_none, (perm_sortItems items).mem_iff]
  refine forall₂_congr fun item _ => ?_
  have some_source : item.citation ≠ "" := by
    have := item.named
    unfold EvidenceItem.citation
    split <;> simp
  rw [Citable, mem_citation (by decide) (by decide), mem_citation (by decide) (by decide)]
  exact and_iff_right some_source

variable {c : Crypto} {queryId : String} {items : List (EvidenceItem σ)}
  {generationId : Option Nat} {recoveryReason : String}

theorem build_of_citable (named : queryId ≠ "") (distinct : (items.map EvidenceItem.identity).Nodup)
    (citable : ∀ item ∈ items, Citable item) :
    ∃ pack, build c queryId items generationId recoveryReason none Dict.empty = .ok pack ∧
      pack.items = sortItems items := by
  have ordered : ((sortItems items).map EvidenceItem.identity).Nodup ∧
      (sortItems (sortItems items)).map EvidenceItem.identity =
        (sortItems items).map EvidenceItem.identity :=
    ⟨((perm_sortItems items).map _).nodup_iff.mpr distinct, by rw [sortItems_sortItems]⟩
  unfold build
  simp only
  rw [require_of (labels_iff.mpr citable), ok_bind, make, dif_pos named, dif_pos (by simp),
    dif_pos ordered, dif_pos (by simp)]
  exact ⟨_, rfl, rfl⟩

theorem build_of_not_citable (unclean : ¬ ∀ item ∈ items, Citable item) :
    build c queryId items generationId recoveryReason none Dict.empty =
      .error (.valueError "invalid citation label") := by
  unfold build
  simp only
  rw [require_eq_error.mpr ⟨fun clean => unclean (labels_iff.mp clean), rfl⟩]
  rfl

variable (pack : EvidencePack σ)

def pairs : List (EvidenceItem σ × String) := pack.items.zip pack.citationLabels

end EvidencePack

/-- How the items are offered budget: in which order, and which contents are near duplicates
(`global_sort_alpha`, `source_priority`, the bonuses and `dedup_threshold`). -/
structure Merge (σ : Type) where
  order : List (EvidenceItem σ × String) → List (EvidenceItem σ × String)
  perm : ∀ pairs, (order pairs).Perm pairs
  similar : String → String → Bool

def Merge.rankMajor : Merge σ where
  order pairs := pairs.insertionSort fun a b =>
    let key (item : EvidenceItem σ) : List Int := match item.retrievalRank with
      | some rank => 0 :: rank :: item.order
      | none => 1 :: (2 ^ 63 - 1) :: item.order
    keyLe (key a.1) (key b.1) = true
  perm _ := List.perm_insertionSort _ _
  similar _ _ := false

def evidenceEnd : String := "</HORIZON_EVIDENCE>"

def planEnd : String := "</HORIZON_QUERY_PLAN>"

/-- `content.replace("</HORIZON_EVIDENCE>", "&lt;/HORIZON_EVIDENCE&gt;")`. -/
def neutralized (content : String) : String :=
  String.ofList (replaceAll evidenceEnd.toList "&lt;/HORIZON_EVIDENCE&gt;".toList content.toList)

/-- `f" date={item.event_label}" if item.event_label else ""`. -/
def metadata (item : EvidenceItem σ) : String :=
  match item.eventLabel with
  | some label => if label = "" then "" else " date=" ++ label
  | none => ""

def block (pair : EvidenceItem σ × String) : String :=
  "[" ++ pair.2 ++ metadata pair.1 ++ "]\n" ++ neutralized pair.1.text

/-- The loop over the ranked pairs, with what is used and the pairs chosen so far. -/
def offer (merge : Merge σ) (maxChars : Int) :
    Nat → List (EvidenceItem σ × String) → List (EvidenceItem σ × String) →
      List (EvidenceItem σ × String)
  | _, chosen, [] => chosen
  | used, chosen, pair :: rest =>
    let separator : Nat := if chosen.isEmpty then 0 else 2
    if (used + separator + (block pair).length : Nat) > maxChars then
      offer merge maxChars used chosen rest
    else if chosen.any fun other =>
        merge.similar (neutralized pair.1.text) (neutralized other.1.text) then
      offer merge maxChars used chosen rest
    else offer merge maxChars (used + separator + (block pair).length) (chosen ++ [pair]) rest

namespace EvidencePack

variable (pack : EvidencePack σ) (merge : Merge σ) (maxChars : Int)

/-- `budgeted_items`. -/
def budgetedItems : Except PyError (List (EvidenceItem σ)) := do
  require (0 < maxChars) (.valueError "max_chars must be positive")
  let chosen := offer merge maxChars 0 [] (merge.order pack.pairs)
  pure (pack.items.filter fun item => item.identity ∈ chosen.map fun pair => pair.1.identity)

/-- `citations[(item.fact_id, item.content_span)]`. -/
def citationOf (item : EvidenceItem σ) : String :=
  let citations := Dict.empty.update (pack.pairs.map fun pair => (pair.1.identity, pair.2))
  (citations.get item.identity).getD ""

def planText : String :=
  match pack.queryPlan with
  | some plan =>
    if plan = "" then "" else "<HORIZON_QUERY_PLAN>" ++ plan ++ planEnd ++ "\n"
  | none => ""

def body (selected : List (EvidenceItem σ)) : String :=
  "\n\n".intercalate (selected.map fun item => block (item, pack.citationOf item))

/-- `render_untrusted`. -/
def renderUntrusted : Except PyError String := do
  let selected ← pack.budgetedItems merge maxChars
  if pack.body selected = "" then
    pure (String.ofList (pack.planText.toList.reverse.dropWhile isBlank).reverse)
  else
    pure (pack.planText ++ "<HORIZON_EVIDENCE trust=\"untrusted-data\">\n" ++ pack.body selected ++
      "\n" ++ evidenceEnd)

end EvidencePack

end ProofRay.Evidence
