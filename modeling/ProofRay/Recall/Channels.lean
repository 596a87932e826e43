/- What is observed of a raw text, and the signed field of scores over a collection of documents
   (`raw_causal_channels.py`, `contextual_cavity.py`). -/

import Mathlib.Data.Prod.Lex
import Mathlib.Data.List.Sort
import Mathlib.Order.Lex

namespace ProofRay.Recall

inductive Polarity where
  | positive
  | negative
  deriving DecidableEq, Repr

def Polarity.text : Polarity → String
  | .positive => "positive"
  | .negative => "negative"

inductive Modality where
  | asserted
  | modal
  deriving DecidableEq, Repr

def Modality.text : Modality → String
  | .asserted => "asserted"
  | .modal => "modal"

inductive Interrogative where
  | none
  | quantity
  | time
  | person
  | place
  | boolean
  deriving DecidableEq, Repr

def Interrogative.text : Interrogative → String
  | .none => "none"
  | .quantity => "quantity"
  | .time => "time"
  | .person => "person"
  | .place => "place"
  | .boolean => "boolean"

/-- `RawCausalChannels`. -/
structure RawCausalChannels where
  lexical : List String
  sublexical : List String
  entities : List String
  numbers : List String
  temporal : List String
  relations : List String
  polarity : Polarity
  modality : Modality
  interrogative : Interrogative
  deriving DecidableEq, Repr

/-- `RawCausalDocument`, without its speaker, which only the cavity reads. -/
structure RawCausalDocument where
  factId : Int
  text : String
  sessionIndex : Nat
  turn : Nat
  deriving DecidableEq, Repr

/-- `SignedChannelScore`. -/
structure SignedChannelScore (σ : Type) where
  factId : Int
  amplitude : σ
  lexical : σ
  sublexical : σ
  entity : σ
  relation : σ
  observable : σ
  contradiction : σ

/-- `CavityScore`, with what a search reads of it. -/
structure CavityScore (σ : Type) where
  factId : Int
  amplitude : σ
  direct : σ
  witnessFactIds : List Int

/-- Six weights of the signed field. -/
structure FieldWeights (σ : Type) where
  lexical : σ
  sublexical : σ
  entity : σ
  relation : σ
  observable : σ
  contradiction : σ

variable {σ : Type} [Add σ] [Sub σ] [Mul σ]

def SignedChannelScore.weighed (w : FieldWeights σ) (row : SignedChannelScore σ) :
    SignedChannelScore σ :=
  { row with
    amplitude := w.lexical * row.lexical + w.sublexical * row.sublexical + w.entity * row.entity +
      w.relation * row.relation + w.observable * row.observable -
      w.contradiction * row.contradiction }

variable [LinearOrder σ]

def ranked (components : List (SignedChannelScore σ)) (w : FieldWeights σ) :
    List (SignedChannelScore σ) :=
  (components.map fun row => row.weighed w).insertionSort fun a b =>
    toLex (OrderDual.toDual a.amplitude, a.factId) ≤ toLex (OrderDual.toDual b.amplitude, b.factId)

end ProofRay.Recall
