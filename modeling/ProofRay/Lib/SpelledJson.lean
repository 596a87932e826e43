/- A value of whole numbers and plain texts, as it is spelled, and the styles that spell it as it
   is. -/

import ProofRay.Lib.SpelledNormal

namespace ProofRay.Lib

namespace Json

/-- What holds of a list when it holds of its items, and of an object when it holds of the values
of its fields, holds of every value. -/
theorem by_parts {P : Json → Prop} (null : P .null) (bool : ∀ b, P (.bool b)) (int : ∀ i, P (.int i))
    (str : ∀ s, P (.str s)) (arr : ∀ items, (∀ v ∈ items, P v) → P (.arr items))
    (obj : ∀ fields : List (String × Json), (∀ p ∈ fields, P p.2) → P (.obj fields))
    (v : Json) : P v :=
  @Json.rec P (fun items => ∀ v ∈ items, P v) (fun fields => ∀ p ∈ fields, P p.2)
    (fun p => P p.2)
    null bool int str arr obj nofun
    (fun _ _ first later => List.forall_mem_cons.mpr ⟨first, later⟩) nofun
    (fun _ _ first later => List.forall_mem_cons.mpr ⟨first, later⟩) (fun _ _ inside => inside) v

mutual

def Ints (p : Int → Prop) : Json → Prop
  | .null => True
  | .bool _ => True
  | .int i => p i
  | .str _ => True
  | .arr items => IntsItems p items
  | .obj fields => IntsFields p fields

def IntsItems (p : Int → Prop) : List Json → Prop
  | [] => True
  | v :: rest => Ints p v ∧ IntsItems p rest

def IntsFields (p : Int → Prop) : List (String × Json) → Prop
  | [] => True
  | (_, v) :: rest => Ints p v ∧ IntsFields p rest

end

@[simp] theorem intsItems_iff (p : Int → Prop) (items : List Json) :
    IntsItems p items ↔ ∀ v ∈ items, Ints p v := by
  induction items with
  | nil => simp [IntsItems]
  | cons v rest ih => simp [IntsItems, ih]

@[simp] theorem intsFields_iff (p : Int → Prop) (fields : List (String × Json)) :
    IntsFields p fields ↔ ∀ f ∈ fields, Ints p f.2 := by
  induction fields with
  | nil => simp [IntsFields]
  | cons f rest ih =>
    obtain ⟨k, v⟩ := f
    rw [IntsFields, ih, List.forall_mem_cons]

mutual

def Keyed (p : String → Prop) : Json → Prop
  | .null => True
  | .bool _ => True
  | .int _ => True
  | .str _ => True
  | .arr items => KeyedItems p items
  | .obj fields => KeyedFields p fields

def KeyedItems (p : String → Prop) : List Json → Prop
  | [] => True
  | v :: rest => Keyed p v ∧ KeyedItems p rest

def KeyedFields (p : String → Prop) : List (String × Json) → Prop
  | [] => True
  | (k, v) :: rest => p k ∧ Keyed p v ∧ KeyedFields p rest

end

@[simp] theorem keyedItems_iff (p : String → Prop) (items : List Json) :
    KeyedItems p items ↔ ∀ v ∈ items, Keyed p v := by
  induction items with
  | nil => simp [KeyedItems]
  | cons v rest ih => simp [KeyedItems, ih]

@[simp] theorem keyedFields_iff (p : String → Prop) (fields : List (String × Json)) :
    KeyedFields p fields ↔ ∀ f ∈ fields, p f.1 ∧ Keyed p f.2 := by
  induction fields with
  | nil => simp [KeyedFields]
  | cons f rest ih =>
    obtain ⟨k, v⟩ := f
    rw [KeyedFields, ih, List.forall_mem_cons, and_assoc]

theorem ints_of_forall {p : Int → Prop} (all : ∀ i, p i) (v : Json) : v.Ints p := by
  induction v using by_parts with
  | null => trivial
  | bool b => trivial
  | int i => exact all i
  | str t => trivial
  | arr items ih => exact (intsItems_iff p items).mpr ih
  | obj fields ih => exact (intsFields_iff p fields).mpr ih

variable {p q : Int → Prop}

theorem Ints.mono (weaker : ∀ i, p i → q i) {v : Json} : v.Ints p → v.Ints q := by
  induction v using by_parts with
  | null => exact id
  | bool b => exact id
  | int i => exact weaker i
  | str t => exact id
  | arr items ih =>
    intro ints
    exact (intsItems_iff q items).mpr fun v member =>
      ih v member ((intsItems_iff p items).mp ints v member)
  | obj fields ih =>
    intro ints
    exact (intsFields_iff q fields).mpr fun f member =>
      ih f member ((intsFields_iff p fields).mp ints f member)

theorem ints_congr (same : ∀ i, p i ↔ q i) (v : Json) : v.Ints p ↔ v.Ints q :=
  ⟨Ints.mono fun i => (same i).mp, Ints.mono fun i => (same i).mpr⟩

theorem Keyed.mono {p q : String → Prop} (weaker : ∀ k, p k → q k) {v : Json} :
    v.Keyed p → v.Keyed q := by
  induction v using by_parts with
  | null => exact id
  | bool b => exact id
  | int i => exact id
  | str t => exact id
  | arr items ih =>
    intro keyed
    exact (keyedItems_iff q items).mpr fun v member =>
      ih v member ((keyedItems_iff p items).mp keyed v member)
  | obj fields ih =>
    intro keyed
    refine (keyedFields_iff q fields).mpr fun f member => ?_
    have both := (keyedFields_iff p fields).mp keyed f member
    exact ⟨weaker _ both.1, ih f member both.2⟩

theorem keyed_of_forall {p : String → Prop} (all : ∀ k, p k) (v : Json) : v.Keyed p := by
  induction v using by_parts with
  | null => trivial
  | bool b => trivial
  | int i => trivial
  | str t => trivial
  | arr items ih => exact (keyedItems_iff p items).mpr ih
  | obj fields ih => exact (keyedFields_iff p fields).mpr fun f member => ⟨all f.1, ih f member⟩

theorem orderedFields_iff (fields : List (String × Json)) :
    OrderedFields fields ↔ ∀ f ∈ fields, Ordered f.2 := by
  induction fields with
  | nil => simp [OrderedFields]
  | cons f rest ih =>
    obtain ⟨k, v⟩ := f
    rw [OrderedFields, ih, List.forall_mem_cons]

end Json

namespace Spelled

variable {s : Style}

mutual

def ofJson : Json → Spelled
  | .null => .null
  | .bool b => .bool b
  | .int i => .number (Json.number i)
  | .str t => .str (.ofString t)
  | .arr items => .arr (ofItems items)
  | .obj fields => .obj (ofFields fields)

def ofItems : List Json → List Spelled
  | [] => []
  | v :: rest => ofJson v :: ofItems rest

def ofFields : List (String × Json) → List (Text × Spelled)
  | [] => []
  | (k, v) :: rest => (.ofString k, ofJson v) :: ofFields rest

end

theorem ofItems_eq (items : List Json) : ofItems items = items.map ofJson := by
  induction items with
  | nil => rfl
  | cons v rest ih => rw [ofItems, ih, List.map_cons]

theorem ofFields_eq (fields : List (String × Json)) :
    ofFields fields = fields.map fun f => (.ofString f.1, ofJson f.2) := by
  induction fields with
  | nil => rfl
  | cons f rest ih =>
    obtain ⟨k, v⟩ := f
    rw [ofFields, ih, List.map_cons]

theorem plain_ofString (t : String) : Plain (.ofString t) := by
  intro p member
  obtain ⟨c, -, rfl⟩ := List.mem_map.mp member
  exact ⟨c, rfl⟩

theorem ofString_injective {t u : String} (same : Text.ofString t = Text.ofString u) : t = u := by
  have chars : t.toList = u.toList :=
    List.map_injective_iff.mpr (fun _ _ h => Point.char.inj h) same
  exact String.toList_injective chars

private theorem codes_lt {l l' : List Char} (below : l < l') :
    l.map Char.toNat < l'.map Char.toNat := by
  induction l generalizing l' with
  | nil =>
    cases l' with
    | nil => cases below
    | cons d l' => exact List.nil_lt_cons _ _
  | cons c l ih =>
    cases l' with
    | nil => cases below
    | cons d l' =>
      rw [List.map_cons, List.map_cons, List.cons_lt_cons_iff]
      rcases List.cons_lt_cons_iff.mp below with first | ⟨rfl, later⟩
      · exact .inl first
      · exact .inr ⟨rfl, ih later⟩

def Style.ByCharacter (s : Style) (k : String) : Prop :=
  s.key (.ofString k) = k.toList.map Char.toNat

variable {v : Json}

theorem settled_ofJson_iff : v.Ordered → v.Keyed s.ByCharacter →
    (Settled s (ofJson v) ↔ v.Ints fun i => s.number (Json.number i) = some (Json.number i)) := by
  induction v using Json.by_parts with
  | null => exact fun _ _ => Iff.rfl
  | bool b => exact fun _ _ => Iff.rfl
  | int i => exact fun _ _ => Iff.rfl
  | str t => exact fun _ _ => iff_of_true (plain_ofString t) trivial
  | arr items ih =>
    intro ordered keyed
    rw [ofJson, Settled, settledItems_iff, ofItems_eq, List.forall_mem_map, Json.Ints,
      Json.intsItems_iff]
    exact forall₂_congr fun v member => ih v member
      ((Json.orderedItems_iff items).mp ordered v member)
      ((Json.keyedItems_iff _ items).mp keyed v member)
  | obj fields ih =>
    rintro ⟨keys, ordered⟩ keyed
    have keyed := (Json.keyedFields_iff _ fields).mp keyed
    have each : (∀ f ∈ fields, Settled s (ofJson f.2)) ↔
        ∀ f ∈ fields, f.2.Ints fun i => s.number (Json.number i) = some (Json.number i) :=
      forall₂_congr fun f member => ih f member
        ((Json.orderedFields_iff fields).mp ordered f member) (keyed f member).2
    have once : ((ofFields fields).map Prod.fst).Nodup := by
      have names : (fields.map Prod.fst).Nodup := keys.imp fun below => ne_of_lt below
      rw [ofFields_eq, List.map_map]
      rw [show Prod.fst ∘ (fun f : String × Json => (Text.ofString f.1, ofJson f.2)) =
        Text.ofString ∘ Prod.fst from rfl, ← List.map_map]
      exact names.map fun _ _ => ofString_injective
    have sorted : (ofFields fields).Pairwise fun a b => s.key a.1 ≤ s.key b.1 := by
      rw [ofFields_eq, List.pairwise_map]
      refine (List.pairwise_map.mp keys).imp_of_mem fun {f g} left right below => ?_
      rw [(keyed f left).1, (keyed g right).1]
      exact le_of_lt (codes_lt (String.lt_iff_toList_lt.mp below))
    rw [ofJson, Settled, settledFields_iff, Json.Ints, Json.intsFields_iff, ← each]
    constructor
    · rintro ⟨-, -, inside⟩ f member
      have there : (Text.ofString f.1, ofJson f.2) ∈ ofFields fields := by
        rw [ofFields_eq]
        exact List.mem_map.mpr ⟨f, member, rfl⟩
      exact (inside _ there).2
    · refine fun inside => ⟨once, sorted, fun p member => ?_⟩
      rw [ofFields_eq] at member
      obtain ⟨f, there, rfl⟩ := List.mem_map.mp member
      exact ⟨plain_ofString f.1, inside f there⟩

private theorem commas_eq (t : List Char) (texts : List (List Char)) :
    commas (t :: texts) = t ++ texts.flatMap fun u => ',' :: u := by
  induction texts generalizing t with
  | nil => simp [commas]
  | cons u texts ih =>
    have first : commas (t :: u :: texts) = t ++ ',' :: commas (u :: texts) := by
      simp [commas, List.intercalate, List.intersperse]
    rw [first, ih, List.flatMap_cons, List.cons_append]

private theorem compactItems_eq (items : List Json) :
    Json.compactItems items = (items.flatMap fun v => ',' :: v.compact) ++ [']'] := by
  induction items with
  | nil => rfl
  | cons v rest ih => simp [Json.compactItems, ih]

private def fieldText (f : String × Json) : List Char := Json.quote f.1 ++ ':' :: f.2.compact

private theorem compactFields_eq (fields : List (String × Json)) :
    Json.compactFields fields = (fields.flatMap fun f => ',' :: fieldText f) ++ ['\x7d'] := by
  induction fields with
  | nil => rfl
  | cons f rest ih =>
    obtain ⟨k, v⟩ := f
    simp [Json.compactFields, fieldText, ih]

private theorem mapM_map_eq {α β γ : Type} {f : α → β} {g : β → Option γ} {h : α → γ} {l : List α}
    (each : ∀ a ∈ l, g (f a) = some (h a)) : (l.map f).mapM g = some (l.map h) := by
  induction l with
  | nil => rfl
  | cons a l ih =>
    have later := ih fun b member => each b (List.mem_cons_of_mem a member)
    simp [each a List.mem_cons_self, later]

theorem write_ofJson (lawful : s.Lawful) :
    Settled s (ofJson v) → s.write (ofJson v) = some v.compact := by
  induction v using Json.by_parts with
  | null => exact fun _ => rfl
  | bool b => cases b <;> exact fun _ => rfl
  | int i => exact id
  | str t => exact fun _ => lawful.quote_ofString t
  | arr items ih =>
    intro inside
    have inside := (settledItems_iff _).mp inside
    rw [ofItems_eq, List.forall_mem_map] at inside
    have texts : (items.map ofJson).mapM s.write = some (items.map Json.compact) :=
      mapM_map_eq fun v member => ih v member (inside v member)
    rw [ofJson, Style.write, Style.writeItems_eq, ofItems_eq, texts, Option.map_some]
    cases items with
    | nil => rfl
    | cons v rest =>
      rw [List.map_cons, commas_eq, Json.compact, compactItems_eq, List.flatMap_map]
      simp
  | obj fields ih =>
    rintro ⟨-, sorted, inside⟩
    have inside := (settledFields_iff _).mp inside
    rw [ofFields_eq, List.forall_mem_map] at inside
    have texts : (fields.map fun f => (Text.ofString f.1, ofJson f.2)).mapM s.writeField =
        some (fields.map fun f => (.ofString f.1, fieldText f)) :=
      mapM_map_eq fun f member => by
        rw [Style.writeField, lawful.quote_ofString, ih f member (inside f member).2]
        rfl
    have order : s.ordered (fields.map fun f => (Text.ofString f.1, fieldText f)) =
        fields.map fun f => (Text.ofString f.1, fieldText f) := by
      refine Style.ordered_of_pairwise ?_
      rw [ofFields_eq, List.pairwise_map] at sorted
      exact List.pairwise_map.mpr sorted
    rw [ofJson, Style.write, Style.writeFields_eq, ofFields_eq, texts, Option.map_some, order,
      List.map_map]
    cases fields with
    | nil => rfl
    | cons f rest =>
      obtain ⟨k, v⟩ := f
      rw [List.map_cons, commas_eq, Json.compact, compactFields_eq, List.flatMap_map]
      simp [fieldText]

open Classical in
private noncomputable def wholeNumbers : Style where
  number l := if ∃ i, l = Json.number i then some l else none
  point
    | .char c => some (Json.escape c)
    | .lone _ => none
  key t := t.map Point.code

private theorem lawful_wholeNumbers : wholeNumbers.Lawful where
  number l l' written := by
    dsimp only [wholeNumbers] at written
    split_ifs at written with whole
    cases written
    obtain ⟨i, rfl⟩ := whole
    exact isLiteral_number i
  point _ := rfl

private theorem settled_wholeNumbers (ordered : v.Ordered) : Settled wholeNumbers (ofJson v) := by
  have keyed : v.Keyed wholeNumbers.ByCharacter := Json.keyed_of_forall (fun _ => List.map_map) v
  exact (settled_ofJson_iff ordered keyed).mpr (Json.ints_of_forall (fun i => if_pos ⟨i, rfl⟩) v)

theorem fine_ofJson (ordered : v.Ordered) : (ofJson v).Fine :=
  (settled_wholeNumbers ordered).fine

theorem read_compact (ordered : v.Ordered) : read v.compact = some (ofJson v) := by
  have settled := settled_wholeNumbers ordered
  rw [read_write lawful_wholeNumbers settled.fine (write_ofJson lawful_wholeNumbers settled),
    settled.settled]

end Spelled

end ProofRay.Lib
