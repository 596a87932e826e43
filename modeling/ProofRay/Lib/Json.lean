/- JSON values, the compact text of a value with its keys in order, and a reader of such texts.
   Numbers are whole. -/

import Mathlib.Data.String.Basic
import ProofRay.Lib.Dict

namespace ProofRay.Lib

/-- A value of `null`, `true`, `false`, whole numbers, texts, lists and objects. -/
inductive Json where
  | null
  | bool (b : Bool)
  | int (i : Int)
  | str (s : String)
  | arr (items : List Json)
  | obj (fields : List (String × Json))
  deriving Repr

namespace Json

def insertKey (k : String) (v : Json) : List (String × Json) → List (String × Json)
  | [] => [(k, v)]
  | (k', v') :: rest =>
    if k ≤ k' then (k, v) :: (k', v') :: rest else (k', v') :: insertKey k v rest

mutual

/-- `sort_keys=True`. -/
def sortKeys : Json → Json
  | .arr items => .arr (sortItems items)
  | .obj fields => .obj (sortFields fields)
  | .null => .null
  | .bool b => .bool b
  | .int i => .int i
  | .str s => .str s

def sortItems : List Json → List Json
  | [] => []
  | v :: rest => sortKeys v :: sortItems rest

def sortFields : List (String × Json) → List (String × Json)
  | [] => []
  | (k, v) :: rest => insertKey k (sortKeys v) (sortFields rest)

end

def KeysOrdered (fields : List (String × Json)) : Prop := (fields.map Prod.fst).Pairwise (· < ·)

instance (fields : List (String × Json)) : Decidable (KeysOrdered fields) :=
  inferInstanceAs (Decidable (List.Pairwise _ _))

mutual

def Ordered : Json → Prop
  | .arr items => OrderedItems items
  | .obj fields => KeysOrdered fields ∧ OrderedFields fields
  | .null => True
  | .bool _ => True
  | .int _ => True
  | .str _ => True

def OrderedItems : List Json → Prop
  | [] => True
  | v :: rest => Ordered v ∧ OrderedItems rest

def OrderedFields : List (String × Json) → Prop
  | [] => True
  | (_, v) :: rest => Ordered v ∧ OrderedFields rest

end

@[simp] theorem orderedItems_iff (items : List Json) :
    OrderedItems items ↔ ∀ v ∈ items, Ordered v := by
  induction items with
  | nil => simp [OrderedItems]
  | cons v rest ih => simp [OrderedItems, ih]

variable {rest : List Char} {fuel : Nat} {v : Json} {c : Char}

private theorem insertKey_of_lt {k : String} {fields : List (String × Json)}
    (first : ∀ p ∈ fields, k < p.1) : insertKey k v fields = (k, v) :: fields := by
  cases fields with
  | nil => rfl
  | cons p rest => exact if_pos (le_of_lt (first p List.mem_cons_self))

mutual

theorem sortKeys_of_ordered : ∀ {v : Json}, v.Ordered → v.sortKeys = v
  | .arr items, h => congrArg Json.arr (@sortItems_of_ordered items h)
  | .obj fields, h => congrArg Json.obj (@sortFields_of_ordered fields h.1 h.2)
  | .null, _ => rfl
  | .bool _, _ => rfl
  | .int _, _ => rfl
  | .str _, _ => rfl

theorem sortItems_of_ordered : ∀ {items : List Json}, OrderedItems items →
    sortItems items = items
  | [], _ => rfl
  | v :: rest, h => by
    rw [sortItems, sortKeys_of_ordered h.1, sortItems_of_ordered h.2]

theorem sortFields_of_ordered : ∀ {fields : List (String × Json)}, KeysOrdered fields →
    OrderedFields fields → sortFields fields = fields
  | [], _, _ => rfl
  | (k, v) :: rest, keys, h => by
    obtain ⟨first, later⟩ := List.pairwise_cons.mp keys
    rw [sortFields, sortKeys_of_ordered h.1, sortFields_of_ordered later h.2]
    apply insertKey_of_lt
    intro p member
    exact first p.1 (List.mem_map_of_mem member)

end

/-- The hexadecimal digits of `\u00XX`. -/
def hexDigit (n : Nat) : Char := if n < 10 then Char.ofNat (48 + n) else Char.ofNat (87 + n)

/-- A character of a text between quotes, with `ensure_ascii=False`. -/
def escape (c : Char) : List Char :=
  if c = '"' then ['\\', '"']
  else if c = '\\' then ['\\', '\\']
  else if c = '\n' then ['\\', 'n']
  else if c = '\r' then ['\\', 'r']
  else if c = '\t' then ['\\', 't']
  else if c.toNat = 8 then ['\\', 'b']
  else if c.toNat = 12 then ['\\', 'f']
  else if c.toNat < 32 then
    ['\\', 'u', '0', '0', hexDigit (c.toNat / 16), hexDigit (c.toNat % 16)]
  else [c]

def quote (s : String) : List Char := '"' :: s.toList.flatMap escape ++ ['"']

def number : Int → List Char
  | .ofNat n => Nat.toDigits 10 n
  | .negSucc n => '-' :: Nat.toDigits 10 (n + 1)

mutual

/-- `separators=(",", ":")`, with the keys as they stand. -/
def compact : Json → List Char
  | .null => ['n', 'u', 'l', 'l']
  | .bool true => ['t', 'r', 'u', 'e']
  | .bool false => ['f', 'a', 'l', 's', 'e']
  | .int i => number i
  | .str s => quote s
  | .arr [] => ['[', ']']
  | .arr (v :: rest) => '[' :: compact v ++ compactItems rest
  | .obj [] => ['\x7b', '\x7d']
  | .obj ((k, v) :: rest) => '\x7b' :: quote k ++ ':' :: compact v ++ compactFields rest

def compactItems : List Json → List Char
  | [] => [']']
  | v :: rest => ',' :: compact v ++ compactItems rest

def compactFields : List (String × Json) → List Char
  | [] => ['\x7d']
  | (k, v) :: rest => ',' :: quote k ++ ':' :: compact v ++ compactFields rest

end

/-- `json.dumps(v, ensure_ascii=False, sort_keys=True, separators=(",", ":"))`. -/
def dumps (v : Json) : List Char := compact (sortKeys v)

def isSpace (c : Char) : Bool := c = ' ' || c = '\t' || c = '\n' || c = '\r'

def skipSpace (text : List Char) : List Char := text.dropWhile isSpace

def hexValue (c : Char) : Option Nat :=
  if '0' ≤ c ∧ c ≤ '9' then some (c.toNat - 48)
  else if 'a' ≤ c ∧ c ≤ 'f' then some (c.toNat - 87)
  else if 'A' ≤ c ∧ c ≤ 'F' then some (c.toNat - 55)
  else none

def hexQuad : List Char → Option (Nat × List Char)
  | a :: b :: c :: d :: rest => do
    let a ← hexValue a
    let b ← hexValue b
    let c ← hexValue c
    let d ← hexValue d
    return (((a * 16 + b) * 16 + c) * 16 + d, rest)
  | _ => none

def unicodeEscape (text : List Char) : Option (Char × List Char) := do
  let (high, rest) ← hexQuad text
  if 0xd800 ≤ high ∧ high < 0xdc00 then
    match rest with
    | '\\' :: 'u' :: rest =>
      let (low, rest) ← hexQuad rest
      if 0xdc00 ≤ low ∧ low < 0xe000 then
        return (Char.ofNat (0x10000 + (high - 0xd800) * 1024 + (low - 0xdc00)), rest)
      else none
    | _ => none
  else if 0xdc00 ≤ high ∧ high < 0xe000 then none
  else return (Char.ofNat high, rest)

def unescape : List Char → Option (Char × List Char)
  | '"' :: rest => some ('"', rest)
  | '\\' :: rest => some ('\\', rest)
  | '/' :: rest => some ('/', rest)
  | 'b' :: rest => some (Char.ofNat 8, rest)
  | 'f' :: rest => some (Char.ofNat 12, rest)
  | 'n' :: rest => some ('\n', rest)
  | 'r' :: rest => some ('\r', rest)
  | 't' :: rest => some ('\t', rest)
  | 'u' :: rest => unicodeEscape rest
  | _ => none

def readString : Nat → List Char → Option (List Char × List Char)
  | 0, _ => none
  | _, [] => none
  | fuel + 1, c :: rest =>
    if c = '"' then some ([], rest)
    else if c = '\\' then do
      let (c, rest) ← unescape rest
      let (cs, rest) ← readString fuel rest
      return (c :: cs, rest)
    else if c.toNat < 32 then none
    else do
      let (cs, rest) ← readString fuel rest
      return (c :: cs, rest)

def readNumber (text : List Char) : Option (Nat × List Char) :=
  let digits := text.takeWhile Char.isDigit
  let rest := text.dropWhile Char.isDigit
  if digits = [] ∨ (digits.length ≠ 1 ∧ digits.head? = some '0') then none
  else if rest.head? = some '.' ∨ rest.head? = some 'e' ∨ rest.head? = some 'E' then none
  else some (Nat.ofDigitChars 10 digits 0, rest)

def word (w : List Char) (text : List Char) : Option (List Char) :=
  if text.take w.length = w then some (text.drop w.length) else none

/-- `object_pairs`: the last value of a key stays, at the place of its first. -/
def collect (pairs : List (String × Json)) : List (String × Json) :=
  pairs.foldl (fun fields p => Dict.putEntry p.1 p.2 fields) []

mutual

def readValue : Nat → List Char → Option (Json × List Char)
  | 0, _ => none
  | fuel + 1, text =>
    match skipSpace text with
    | '"' :: rest => do
      let (cs, rest) ← readString rest.length rest
      return (.str (String.ofList cs), rest)
    | '[' :: rest =>
      match skipSpace rest with
      | ']' :: rest => some (.arr [], rest)
      | _ => do
        let (items, rest) ← readItems fuel rest
        return (.arr items, rest)
    | '\x7b' :: rest =>
      match skipSpace rest with
      | '\x7d' :: rest => some (.obj [], rest)
      | _ => do
        let (pairs, rest) ← readPairs fuel rest
        return (.obj (collect pairs), rest)
    | '-' :: rest => do
      let (n, rest) ← readNumber rest
      return (.int (-n), rest)
    | 'n' :: rest => do
      let rest ← word ['u', 'l', 'l'] rest
      return (.null, rest)
    | 't' :: rest => do
      let rest ← word ['r', 'u', 'e'] rest
      return (.bool true, rest)
    | 'f' :: rest => do
      let rest ← word ['a', 'l', 's', 'e'] rest
      return (.bool false, rest)
    | text => do
      let (n, rest) ← readNumber text
      return (.int n, rest)

def readItems : Nat → List Char → Option (List Json × List Char)
  | 0, _ => none
  | fuel + 1, text => do
    let (v, rest) ← readValue fuel text
    match skipSpace rest with
    | ']' :: rest => return ([v], rest)
    | ',' :: rest =>
      let (items, rest) ← readItems fuel rest
      return (v :: items, rest)
    | _ => none

def readPairs : Nat → List Char → Option (List (String × Json) × List Char)
  | 0, _ => none
  | fuel + 1, text =>
    match skipSpace text with
    | '"' :: rest => do
      let (k, rest) ← readString rest.length rest
      match skipSpace rest with
      | ':' :: rest =>
        let (v, rest) ← readValue fuel rest
        match skipSpace rest with
        | '\x7d' :: rest => return ([(String.ofList k, v)], rest)
        | ',' :: rest =>
          let (pairs, rest) ← readPairs fuel rest
          return ((String.ofList k, v) :: pairs, rest)
        | _ => none
      | _ => none
    | _ => none

end

/-- `json.loads`: one value with nothing but space behind it. -/
def loads (text : List Char) : Option Json :=
  match readValue (text.length + 1) text with
  | some (v, rest) => if skipSpace rest = [] then some v else none
  | none => none

private theorem hexValue_hexDigit : ∀ n < 16, hexValue (hexDigit n) = some n := by decide

private theorem unescape_control (control : c.toNat < 32) (rest : List Char) :
    unescape ('u' :: '0' :: '0' :: hexDigit (c.toNat / 16) :: hexDigit (c.toNat % 16) :: rest) =
      some (c, rest) := by
  have zero : hexValue '0' = some 0 := by decide
  have high := hexValue_hexDigit (c.toNat / 16) (by omega)
  have low := hexValue_hexDigit (c.toNat % 16) (by omega)
  have whole : c.toNat / 16 * 16 + c.toNat % 16 = c.toNat := by omega
  have first : ¬ 0xd800 ≤ c.toNat := by omega
  have second : ¬ 0xdc00 ≤ c.toNat := by omega
  simp [unescape, unicodeEscape, hexQuad, zero, high, low, whole, first, second]

private theorem readString_escape (c : Char) (fuel : Nat) (text : List Char) :
    readString (fuel + 1) (escape c ++ text) =
      (readString fuel text).map fun p => (c :: p.1, p.2) := by
  have after : ∀ {o : Option (List Char × List Char)},
      (o.bind fun p => some (c :: p.1, p.2)) = o.map fun p => (c :: p.1, p.2) := by
    intro o
    cases o <;> rfl
  unfold escape
  split_ifs with h₁ h₂ h₃ h₄ h₅ h₆ h₇ h₈
  · subst h₁
    exact after
  · subst h₂
    exact after
  · subst h₃
    exact after
  · subst h₄
    exact after
  · subst h₅
    exact after
  · have same : c = Char.ofNat 8 := by rw [← h₆, Char.ofNat_toNat]
    subst same
    exact after
  · have same : c = Char.ofNat 12 := by rw [← h₇, Char.ofNat_toNat]
    subst same
    exact after
  · simp only [List.cons_append, List.nil_append]
    rw [readString, if_neg (by decide), if_pos rfl, unescape_control h₈]
    exact after
  · rw [List.singleton_append, readString, if_neg h₁, if_neg h₂, if_neg h₈]
    exact after

private theorem length_escape (c : Char) : 1 ≤ (escape c).length := by
  unfold escape
  split_ifs <;> simp

theorem readString_flatMap (cs rest : List Char)
    (enough : (cs.flatMap escape ++ '"' :: rest).length ≤ fuel) :
    readString fuel (cs.flatMap escape ++ '"' :: rest) = some (cs, rest) := by
  induction cs generalizing fuel with
  | nil =>
    obtain ⟨fuel, rfl⟩ : ∃ f, fuel = f + 1 := ⟨fuel - 1, by simp at enough; omega⟩
    rfl
  | cons c cs ih =>
    have some_text := length_escape c
    simp only [List.flatMap_cons, List.append_assoc, List.length_append] at enough ⊢
    obtain ⟨fuel, rfl⟩ : ∃ f, fuel = f + 1 := ⟨fuel - 1, by omega⟩
    rw [readString_escape, ih (by simp only [List.length_append]; omega)]
    rfl

/-- What may stand behind a value: nothing, or a mark that ends an item. -/
def Closed (text : List Char) : Prop := ∀ c ∈ text.head?, c = ',' ∨ c = ']' ∨ c = '\x7d'

private theorem closed_cons {c : Char} (text : List Char)
    (mark : c = ',' ∨ c = ']' ∨ c = '\x7d') : Closed (c :: text) := by
  intro c' head
  cases head
  exact mark

theorem head_toDigits {n : Nat} (pos : 0 < n) : (Nat.toDigits 10 n).head? ≠ some '0' := by
  induction n using Nat.strong_induction_on with
  | _ n ih =>
    by_cases small : n < 10
    · rw [Nat.toDigits_of_lt_base small]
      have digit : ∀ d < 10, 0 < d → [d.digitChar].head? ≠ some '0' := by decide
      exact digit n small pos
    · have step := Nat.toDigits_of_base_le (b := 10) (n := n) (by decide) (by omega)
      have shorter := ih (n / 10) (by omega) (by omega)
      rw [step, List.head?_append]
      cases head : (Nat.toDigits 10 (n / 10)).head? with
      | none => exact absurd (List.head?_eq_none_iff.mp head) Nat.toDigits_ne_nil
      | some c =>
        rw [head] at shorter
        exact shorter

private theorem takeWhile_dropWhile_append {p : Char → Bool} {l rest : List Char}
    (all : ∀ c ∈ l, p c = true) (stop : ∀ c ∈ rest.head?, p c = false) :
    (l ++ rest).takeWhile p = l ∧ (l ++ rest).dropWhile p = rest := by
  induction l with
  | nil =>
    cases rest with
    | nil => exact ⟨rfl, rfl⟩
    | cons c rest =>
      have := stop c rfl
      simp [this]
  | cons c l ih =>
    obtain ⟨taken, dropped⟩ := ih fun c' member => all c' (List.mem_cons_of_mem c member)
    have := all c List.mem_cons_self
    simp [this, taken, dropped]

theorem readNumber_toDigits (n : Nat) (closed : Closed rest) :
    readNumber (Nat.toDigits 10 n ++ rest) = some (n, rest) := by
  have digits : ∀ c ∈ Nat.toDigits 10 n, c.isDigit = true := by
    intro c member
    exact Nat.isDigit_of_mem_toDigits (by decide) (by decide) member
  have stop : ∀ c ∈ rest.head?, c.isDigit = false := by
    intro c head
    rcases closed c head with rfl | rfl | rfl <;> rfl
  obtain ⟨taken, dropped⟩ := takeWhile_dropWhile_append digits stop
  have lead : ¬ (Nat.toDigits 10 n = [] ∨
      ((Nat.toDigits 10 n).length ≠ 1 ∧ (Nat.toDigits 10 n).head? = some '0')) := by
    rintro (empty | ⟨long, zero⟩)
    · exact Nat.toDigits_ne_nil empty
    · rcases Nat.eq_zero_or_pos n with rfl | pos
      · exact long rfl
      · exact head_toDigits pos zero
  have whole : ¬ (rest.head? = some '.' ∨ rest.head? = some 'e' ∨ rest.head? = some 'E') := by
    rintro (mark | mark | mark)
    all_goals
      rcases closed _ mark with other | other | other <;> exact absurd other (by decide)
  rw [readNumber, taken, dropped, if_neg lead, if_neg whole, Nat.ofDigitChars_ten_toDigits]

private theorem foldl_putEntry {fields pairs : List (String × Json)}
    (fresh : ((fields ++ pairs).map Prod.fst).Nodup) :
    pairs.foldl (fun fields p => Dict.putEntry p.1 p.2 fields) fields = fields ++ pairs := by
  induction pairs generalizing fields with
  | nil => simp
  | cons p pairs ih =>
    have new : p.1 ∉ fields.map Prod.fst := by
      rw [List.map_append, List.map_cons] at fresh
      exact fun member => List.disjoint_of_nodup_append fresh member List.mem_cons_self
    have put : ∀ l : List (String × Json), p.1 ∉ l.map Prod.fst →
        Dict.putEntry p.1 p.2 l = l ++ [p] := by
      intro l absent
      induction l with
      | nil => rfl
      | cons q l step =>
        rw [List.map_cons, List.mem_cons, not_or] at absent
        rw [Dict.putEntry, if_neg (Ne.symm absent.1), step absent.2, List.cons_append]
    rw [List.foldl_cons, put fields new, ih, List.append_assoc, List.singleton_append]
    rwa [List.append_assoc, List.singleton_append]

theorem collect_of_keysOrdered {pairs : List (String × Json)} (keys : KeysOrdered pairs) :
    collect pairs = pairs := by
  have nodup : (pairs.map Prod.fst).Nodup := keys.imp fun less => ne_of_lt less
  simpa [collect] using @foldl_putEntry [] pairs (by simpa using nodup)

private theorem number_eq_cons (i : Int) :
    ∃ c cs, number i = c :: cs ∧ (c = '-' ∨ c.isDigit = true) := by
  cases i with
  | negSucc n => exact ⟨'-', _, rfl, .inl rfl⟩
  | ofNat n =>
    cases text : Nat.toDigits 10 n with
    | nil => exact absurd text Nat.toDigits_ne_nil
    | cons c cs =>
      refine ⟨c, cs, text, .inr ?_⟩
      apply Nat.isDigit_of_mem_toDigits (b := 10) (n := n) (by decide) (by decide)
      rw [text]
      exact List.mem_cons_self

private theorem compact_eq_cons (v : Json) :
    ∃ c cs, v.compact = c :: cs ∧ isSpace c = false ∧ c ≠ ']' ∧ c ≠ '\x7d' := by
  cases v with
  | null => exact ⟨_, _, rfl, by decide, by decide, by decide⟩
  | bool b => cases b <;> exact ⟨_, _, rfl, by decide, by decide, by decide⟩
  | str s => exact ⟨'"', _, rfl, by decide, by decide, by decide⟩
  | int i =>
    obtain ⟨c, cs, text, head⟩ := number_eq_cons i
    refine ⟨c, cs, by rw [compact, text], ?_⟩
    rcases head with rfl | digit
    · decide
    · refine ⟨?_, fun same => ?_, fun same => ?_⟩
      · by_contra space
        simp only [isSpace, Bool.not_eq_false, Bool.or_eq_true, decide_eq_true_eq] at space
        rcases space with ((rfl | rfl) | rfl) | rfl <;> cases digit
      · subst same
        cases digit
      · subst same
        cases digit
  | arr items => cases items <;> exact ⟨'[', _, rfl, by decide, by decide, by decide⟩
  | obj fields =>
    rcases fields with _ | ⟨⟨k, v⟩, rest⟩ <;>
      exact ⟨'\x7b', _, rfl, by decide, by decide, by decide⟩

private theorem skipSpace_cons (text : List Char) (solid : isSpace c = false) :
    skipSpace (c :: text) = c :: text := by
  simp [skipSpace, solid]

private theorem skipSpace_compact (v : Json) (rest : List Char) :
    skipSpace (v.compact ++ rest) = v.compact ++ rest := by
  obtain ⟨c, cs, text, solid, -⟩ := compact_eq_cons v
  rw [text, List.cons_append, skipSpace_cons _ solid]

private theorem readValue_int (i : Int) (closed : Closed rest) :
    readValue (fuel + 1) (number i ++ rest) = some (.int i, rest) := by
  cases i with
  | negSucc n =>
    have read := readNumber_toDigits (n + 1) closed
    rw [number, List.cons_append, readValue, skipSpace_cons _ (by decide)]
    simp [read, Int.negSucc_eq]
  | ofNat n =>
    have read := readNumber_toDigits n closed
    obtain ⟨c, cs, text, head⟩ := number_eq_cons (.ofNat n)
    have spaced := skipSpace_compact (.int (.ofNat n)) rest
    simp only [compact, number] at spaced text ⊢
    rw [text, List.cons_append] at spaced read ⊢
    have digit : c.isDigit = true := by
      apply Nat.isDigit_of_mem_toDigits (b := 10) (n := n) (by decide) (by decide)
      rw [text]
      exact List.mem_cons_self
    rw [readValue, spaced]
    split
    all_goals first
      | rename_i same
        obtain ⟨rfl, -⟩ := List.cons.inj same
        cases digit
      | simp [read]

private theorem readString_quote (s : String) (rest : List Char) :
    readString (s.toList.flatMap escape ++ '"' :: rest).length
      (s.toList.flatMap escape ++ '"' :: rest) = some (s.toList, rest) :=
  readString_flatMap s.toList rest le_rfl

mutual

theorem readValue_compact : ∀ {v : Json} {rest : List Char} {fuel : Nat}, v.Ordered →
    Closed rest → v.compact.length ≤ fuel →
    readValue fuel (v.compact ++ rest) = some (v, rest)
  | v, rest, 0, _, _, enough => by
    obtain ⟨c, cs, text, -⟩ := compact_eq_cons v
    rw [text] at enough
    cases enough
  | .null, rest, fuel + 1, _, _, _ => rfl
  | .bool true, rest, fuel + 1, _, _, _ => rfl
  | .bool false, rest, fuel + 1, _, _, _ => rfl
  | .int i, rest, fuel + 1, _, closed, _ => readValue_int i closed
  | .str s, rest, fuel + 1, _, _, _ => by
    have text : (Json.str s).compact ++ rest = '"' :: (s.toList.flatMap escape ++ '"' :: rest) := by
      simp [compact, quote]
    rw [text, readValue, skipSpace_cons _ (by decide)]
    show (readString _ _).bind _ = _
    rw [readString_quote]
    simp
  | .arr [], rest, fuel + 1, _, _, _ => rfl
  | .arr (v :: items), rest, fuel + 1, ordered, closed, enough => by
    have read := @readItems_compact v items rest fuel ordered
      (by simp only [compact, List.length_cons, List.length_append] at enough ⊢; omega)
    obtain ⟨c, cs, text, solid, open_, -⟩ := compact_eq_cons v
    simp only [compact, List.cons_append, List.append_assoc] at read ⊢
    rw [text, List.cons_append] at read ⊢
    rw [readValue, skipSpace_cons _ (by decide)]
    simp [skipSpace_cons _ solid, read, open_]
  | .obj [], rest, fuel + 1, _, _, _ => rfl
  | .obj ((k, v) :: fields), rest, fuel + 1, ordered, closed, enough => by
    have read := @readPairs_compact k v fields rest fuel ordered.2
      (by simp only [compact, List.length_cons, List.length_append] at enough ⊢; omega)
    have collected := collect_of_keysOrdered ordered.1
    simp only [compact, quote, List.cons_append, List.append_assoc, List.nil_append] at read ⊢
    rw [readValue, skipSpace_cons _ (by decide)]
    simp only [skipSpace_cons _ (show isSpace '"' = false by decide)]
    show (readPairs fuel _).bind _ = _
    rw [read]
    exact congrArg (fun l => some (Json.obj l, rest)) collected

theorem readItems_compact : ∀ {v : Json} {items : List Json} {rest : List Char} {fuel : Nat},
    OrderedItems (v :: items) → (v.compact ++ compactItems items).length ≤ fuel →
    readItems fuel (v.compact ++ (compactItems items ++ rest)) = some (v :: items, rest)
  | v, items, rest, 0, _, enough => by
    obtain ⟨c, cs, text, -⟩ := compact_eq_cons v
    simp [text] at enough
  | v, [], rest, fuel + 1, ordered, enough => by
    have read := @readValue_compact v (']' :: rest) fuel ordered.1
      (closed_cons _ (by decide))
      (by simp only [compactItems, List.length_cons, List.length_append] at enough; omega)
    simp only [compactItems, List.cons_append, List.nil_append]
    rw [readItems]
    simp [read, skipSpace_cons _ (show isSpace ']' = false by decide)]
  | v, w :: items, rest, fuel + 1, ordered, enough => by
    have read := @readValue_compact v (',' :: (w.compact ++ (compactItems items ++ rest))) fuel
      ordered.1
      (closed_cons _ (by decide))
      (by simp only [compactItems, List.length_cons, List.length_append] at enough; omega)
    have later := @readItems_compact w items rest fuel ordered.2
      (by simp only [compactItems, List.length_cons, List.length_append] at enough ⊢; omega)
    simp only [compactItems, List.cons_append, List.append_assoc]
    rw [readItems]
    simp [read, later, skipSpace_cons _ (show isSpace ',' = false by decide)]

theorem readPairs_compact : ∀ {k : String} {v : Json} {fields : List (String × Json)}
    {rest : List Char} {fuel : Nat}, OrderedFields ((k, v) :: fields) →
    (quote k ++ ':' :: v.compact ++ compactFields fields).length ≤ fuel →
    readPairs fuel (quote k ++ (':' :: v.compact ++ (compactFields fields ++ rest))) =
      some ((k, v) :: fields, rest)
  | k, v, fields, rest, 0, _, enough => by simp [quote] at enough
  | k, v, [], rest, fuel + 1, ordered, enough => by
    have key := readString_quote k (':' :: (v.compact ++ '\x7d' :: rest))
    have read := @readValue_compact v ('\x7d' :: rest) fuel ordered.1
      (closed_cons _ (by decide))
      (by simp only [compactFields, List.length_cons, List.length_append] at enough; omega)
    simp only [quote, compactFields, List.cons_append, List.append_assoc, List.nil_append]
    rw [readPairs, skipSpace_cons _ (by decide)]
    show (readString _ _).bind _ = _
    rw [key]
    simp [read, skipSpace_cons _ (show isSpace ':' = false by decide),
      skipSpace_cons _ (show isSpace '\x7d' = false by decide)]
  | k, v, (k', v') :: fields, rest, fuel + 1, ordered, enough => by
    have later := @readPairs_compact k' v' fields rest fuel ordered.2
      (by simp only [compactFields, List.length_cons, List.length_append] at enough ⊢; omega)
    have text : quote k ++ (':' :: v.compact ++ (compactFields ((k', v') :: fields) ++ rest)) =
        '"' :: (k.toList.flatMap escape ++ '"' :: ':' :: (v.compact ++ ',' ::
          (quote k' ++ (':' :: v'.compact ++ (compactFields fields ++ rest))))) := by
      simp [quote, compactFields]
    rw [text]
    generalize quote k' ++ (':' :: v'.compact ++ (compactFields fields ++ rest)) = behind
      at later ⊢
    have key := readString_quote k (':' :: (v.compact ++ ',' :: behind))
    have read := @readValue_compact v (',' :: behind) fuel ordered.1
      (closed_cons _ (by decide))
      (by simp only [compactFields, List.length_cons, List.length_append] at enough; omega)
    rw [readPairs, skipSpace_cons _ (by decide)]
    show (readString _ _).bind _ = _
    rw [key]
    simp [read, later, skipSpace_cons _ (show isSpace ':' = false by decide),
      skipSpace_cons _ (show isSpace ',' = false by decide)]

end

/-- What `dumps` writes of a value whose keys are in order, `loads` reads back. -/
theorem loads_dumps (ordered : v.Ordered) : loads (dumps v) = some v := by
  have read := @readValue_compact v [] (v.compact.length + 1) ordered nofun (by omega)
  rw [List.append_nil] at read
  rw [dumps, sortKeys_of_ordered ordered, loads, read]
  rfl

end Json

end ProofRay.Lib
