/- Typed causal facts and the sources that seal them: constructors, microcitations and digests. -/

import ProofRay.Engine.Basis
import ProofRay.Lib.Json

namespace ProofRay.Sidecar

open Engine (Bytes Crypto PyError ascii)
open Lib (Json)
open Lib.Guard

/-- `text.encode("utf-8")`. -/
def encode (s : String) : Bytes := s.toUTF8.data.toList

/-- `raw.decode("utf-8")`. -/
def decode (b : Bytes) : Option String := String.fromUTF8? ⟨b.toArray⟩

@[simp] theorem decode_encode (s : String) : decode (encode s) = some s := by
  have valid : String.fromUTF8? s.toUTF8 = some s := by
    simp [String.fromUTF8?, String.fromUTF8, s.isValidUTF8]
  simpa [decode, encode] using valid

/-- `digest.hex()`. -/
def hexText (b : Bytes) : String :=
  String.ofList (b.flatMap fun x => [Json.hexDigit (x.toNat / 16), Json.hexDigit (x.toNat % 16)])

/-- `_SHA256.fullmatch`. -/
def isSha256 (s : String) : Bool :=
  s.toList.length = 64 && s.toList.all fun c => ('0' ≤ c && c ≤ '9') || ('a' ≤ c && c ≤ 'f')

private theorem hexDigit_isHex : ∀ n < 16, (('0' ≤ Json.hexDigit n && Json.hexDigit n ≤ '9') ||
    ('a' ≤ Json.hexDigit n && Json.hexDigit n ≤ 'f')) = true := by
  decide

theorem isSha256_hexText {b : Bytes} (len : b.length = 32) : isSha256 (hexText b) = true := by
  have twice : ∀ l : Bytes, (l.flatMap fun x =>
      [Json.hexDigit (x.toNat / 16), Json.hexDigit (x.toNat % 16)]).length = 2 * l.length := by
    intro l
    simp [List.length_flatMap, Nat.mul_comm]
  have digits : ∀ c ∈ (b.flatMap fun x =>
      [Json.hexDigit (x.toNat / 16), Json.hexDigit (x.toNat % 16)]),
      (('0' ≤ c && c ≤ '9') || ('a' ≤ c && c ≤ 'f')) = true := by
    intro c member
    obtain ⟨x, -, digit⟩ := List.mem_flatMap.mp member
    have high : x.toNat / 16 < 16 := by
      have := x.toNat_lt
      omega
    rcases List.mem_cons.mp digit with rfl | rest
    · exact hexDigit_isHex _ high
    · rw [List.mem_singleton.mp rest]
      exact hexDigit_isHex _ (Nat.mod_lt _ (by decide))
  simp only [isSha256, hexText, String.toList_ofList, Bool.and_eq_true, decide_eq_true_eq,
    List.all_eq_true]
  exact ⟨by rw [twice, len], digits⟩

/-- `hashlib.sha256(data).hexdigest()`. -/
def hexSha256 (c : Crypto) (data : Bytes) : String := hexText (c.sha256 data)

theorem isSha256_hexSha256 (c : Crypto) (data : Bytes) : isSha256 (hexSha256 c data) = true :=
  isSha256_hexText (c.sha256_length data)

/-- `_canonical_json`. -/
def canonicalJson (v : Json) : Bytes := encode (String.ofList v.dumps)

/-- `_digest`. -/
def digest (c : Crypto) (domain : String) (v : Json) : String :=
  hexSha256 c (ascii domain ++ [0] ++ canonicalJson v)

theorem isSha256_digest (c : Crypto) (domain : String) (v : Json) :
    isSha256 (digest c domain v) = true :=
  isSha256_hexSha256 c _

/-- `values == tuple(sorted(set(values)))`. -/
def Canonical {α : Type} [LT α] (values : List α) : Prop := values.Pairwise (· < ·)

instance {α : Type} [LT α] [DecidableLT α] (values : List α) : Decidable (Canonical values) :=
  inferInstanceAs (Decidable (List.Pairwise _ _))

/-- The fields of a `TypedCausalFact`. -/
structure FactFields where
  factId : Nat
  scope : String
  subject : String
  predicate : String
  value : String
  observedAt : Nat
  eventTime : Nat
  version : Nat
  unit : String
  polarity : Int
  asserted : Bool
  eventId : String
  causes : List Nat
  sourceId : String
  sourceSha256 : String
  sourceSpan : Nat × Nat
  deriving DecidableEq, Repr

/-- `TypedCausalFact.__post_init__`. -/
def FactFields.Checked (f : FactFields) : Prop :=
  (f.scope ≠ "" ∧ f.subject ≠ "" ∧ f.predicate ≠ "") ∧
  1 ≤ f.version ∧
  (f.polarity = -1 ∨ f.polarity = 1) ∧
  (Canonical f.causes ∧ f.factId ∉ f.causes) ∧
  (f.sourceId ≠ "" ∧ isSha256 f.sourceSha256 = true) ∧
  f.sourceSpan.1 < f.sourceSpan.2

instance (f : FactFields) : Decidable f.Checked := by
  unfold FactFields.Checked
  infer_instance

/-- A fact that passed the checks of its constructor. -/
structure TypedCausalFact extends FactFields where
  checked : toFactFields.Checked
  deriving DecidableEq

/-- `TypedCausalFact(..)`. -/
def TypedCausalFact.make (f : FactFields) : Except PyError TypedCausalFact :=
  if checked : f.Checked then .ok ⟨f, checked⟩
  else .error (.valueError "typed causal fact is invalid")

theorem TypedCausalFact.make_eq_ok {f : FactFields} {fact : TypedCausalFact} :
    TypedCausalFact.make f = .ok fact ↔ fact.toFactFields = f := by
  unfold TypedCausalFact.make
  split
  · constructor
    · intro h
      cases h
      rfl
    · rintro rfl
      rfl
  · rename_i unchecked
    constructor
    · intro h
      cases h
    · rintro rfl
      exact absurd fact.checked unchecked

/-- `TypedCausalFact.orbit`. -/
def FactFields.orbit (f : FactFields) : String :=
  if f.eventId = "" then "fact:" ++ toString f.factId else f.eventId

abbrev Key := String × String

def FactFields.key (f : FactFields) : Key := (f.subject, f.predicate)

/-- `CausalSourceEnvelope`. -/
structure CausalSourceEnvelope where
  sourceId : String
  content : String
  sha256 : String
  deriving DecidableEq, Repr

namespace CausalSourceEnvelope

variable (c : Crypto)

/-- `CausalSourceEnvelope.seal`. -/
def sealed (sourceId content : String) : Except PyError CausalSourceEnvelope := do
  require (sourceId ≠ "" ∧ content ≠ "")
    (PyError.valueError "causal source needs identity and content")
  return ⟨sourceId, content, hexSha256 c (encode content)⟩

/-- `CausalSourceEnvelope.verify`. -/
def verify (source : CausalSourceEnvelope) : Bool :=
  source.sourceId ≠ "" && source.content ≠ "" && hexSha256 c (encode source.content) = source.sha256

variable {source : CausalSourceEnvelope} {sourceId content : String}

theorem sealed_eq_ok :
    sealed c sourceId content = .ok source ↔ (sourceId ≠ "" ∧ content ≠ "") ∧
      source = ⟨sourceId, content, hexSha256 c (encode content)⟩ := by
  simp only [sealed, bind_eq_ok, require_eq_ok, pure_eq_ok]
  constructor
  · rintro ⟨-, nonempty, rfl⟩
    exact ⟨nonempty, rfl⟩
  · rintro ⟨nonempty, rfl⟩
    exact ⟨(), nonempty, rfl⟩

theorem verify_of_sealed (h : sealed c sourceId content = .ok source) : source.verify c = true := by
  obtain ⟨nonempty, rfl⟩ := (sealed_eq_ok c).mp h
  simp [verify, nonempty]

end CausalSourceEnvelope

/-- `content[start:end]`. -/
def slice (content : String) (start stop : Nat) : String :=
  String.ofList ((content.toList.drop start).take (stop - start))

/-- `DeterministicCausalCompiler.verify`. -/
def verifyMicrocitation (c : Crypto) (fact : FactFields) (source : CausalSourceEnvelope) : Bool :=
  source.verify c && fact.sourceId = source.sourceId && fact.sourceSha256 = source.sha256 &&
    fact.sourceSpan.2 ≤ source.content.toList.length &&
    slice source.content fact.sourceSpan.1 fact.sourceSpan.2 = fact.value

theorem value_ne_empty {c : Crypto} {fact : TypedCausalFact} {source : CausalSourceEnvelope}
    (cited : verifyMicrocitation c fact.toFactFields source = true) : fact.value ≠ "" := by
  have span := fact.checked.2.2.2.2.2
  simp only [verifyMicrocitation, Bool.and_eq_true, decide_eq_true_eq] at cited
  obtain ⟨⟨-, inside⟩, quoted⟩ := cited
  intro empty
  have text := congrArg (fun s => s.toList.length) (quoted.trans empty)
  simp only [slice, String.toList_ofList, List.length_take, List.length_drop,
    String.toList_empty, List.length_nil] at text
  omega

/-- `_fact_payload`. -/
def factPayload (f : FactFields) : Json := .obj [
  ("asserted", .bool f.asserted),
  ("causes", .arr (f.causes.map fun id : Nat => .int id)),
  ("event_id", .str f.eventId),
  ("event_time", .int f.eventTime),
  ("fact_id", .int f.factId),
  ("observed_at", .int f.observedAt),
  ("polarity", .int f.polarity),
  ("predicate", .str f.predicate),
  ("scope", .str f.scope),
  ("source_id", .str f.sourceId),
  ("source_sha256", .str f.sourceSha256),
  ("source_span", .arr [.int f.sourceSpan.1, .int f.sourceSpan.2]),
  ("subject", .str f.subject),
  ("unit", .str f.unit),
  ("value", .str f.value),
  ("version", .int f.version)]

end ProofRay.Sidecar
