/- What a style writes of a value is read back as the value, with its numbers as they were written
   and its keys in the order of the style. -/

import ProofRay.Lib.Spelled

namespace ProofRay.Lib

open Option (bind_eq_bind bind_eq_some_iff bind_some pure_def)

namespace Spelled

open Json (escape hexQuad isSpace skipSpace)

def Digits (ds : List Char) : Prop := ds ≠ [] ∧ ∀ c ∈ ds, c.isDigit = true

def IsUnsigned (l : List Char) : Prop :=
  ∃ whole fraction exponent, l = whole ++ fraction ++ exponent ∧ Digits whole ∧
    ¬(whole.length ≠ 1 ∧ whole.head? = some '0') ∧
    (fraction = [] ∨ ∃ ds, fraction = '.' :: ds ∧ Digits ds) ∧
    (exponent = [] ∨ ∃ sign ds, exponent = 'e' :: sign ++ ds ∧ (sign = ['+'] ∨ sign = ['-']) ∧
      Digits ds)

def IsLiteral (l : List Char) : Prop := IsUnsigned l ∨ ∃ u, IsUnsigned u ∧ l = '-' :: u

private def Ends (rest : List Char) : Prop := ∀ c ∈ rest.head?, c.isDigit = false

theorem digits_toDigits (n : Nat) : Digits (Nat.toDigits 10 n) :=
  ⟨Nat.toDigits_ne_nil, fun _ member => Nat.isDigit_of_mem_toDigits (by decide) (by decide) member⟩

theorem lead_toDigits (n : Nat) :
    ¬((Nat.toDigits 10 n).length ≠ 1 ∧ (Nat.toDigits 10 n).head? = some '0') := by
  rintro ⟨long, zero⟩
  rcases Nat.eq_zero_or_pos n with rfl | positive
  · exact long rfl
  · exact Json.head_toDigits positive zero

theorem isLiteral_number (i : Int) : IsLiteral (Json.number i) := by
  have unsigned : ∀ n, IsUnsigned (Nat.toDigits 10 n) := fun n =>
    ⟨_, [], [], by simp, digits_toDigits n, lead_toDigits n, .inl rfl, .inl rfl⟩
  cases i with
  | ofNat n => exact .inl (unsigned n)
  | negSucc n => exact .inr ⟨_, unsigned (n + 1), rfl⟩

private theorem readDigits_append {ds rest : List Char} (digits : Digits ds) (ends : Ends rest) :
    readDigits (ds ++ rest) = some (ds, rest) := by
  have split : ∀ {l : List Char}, (∀ c ∈ l, c.isDigit = true) →
      (l ++ rest).takeWhile Char.isDigit = l ∧ (l ++ rest).dropWhile Char.isDigit = rest := by
    intro l all
    induction l with
    | nil =>
      cases rest with
      | nil => exact ⟨rfl, rfl⟩
      | cons c rest => simp [ends c rfl]
    | cons c l ih =>
      obtain ⟨taken, dropped⟩ := ih fun c' member => all c' (List.mem_cons_of_mem c member)
      simp [all c List.mem_cons_self, taken, dropped]
  obtain ⟨taken, dropped⟩ := split digits.2
  rw [readDigits, taken, dropped, if_neg digits.1]

variable {texts : List (List Char)} {c : Char} {fields : List (Text × Spelled)} {rest : List Char}
  {fuel : Nat}

private theorem ends_of_closed (closed : Json.Closed rest) : Ends rest := by
  intro c head
  rcases closed c head with rfl | rfl | rfl <;> rfl

private theorem readExponent_append {exponent rest : List Char} (closed : Json.Closed rest)
    (shape : exponent = [] ∨ ∃ sign ds, exponent = 'e' :: sign ++ ds ∧
      (sign = ['+'] ∨ sign = ['-']) ∧ Digits ds) :
    readExponent (exponent ++ rest) = some (exponent, rest) := by
  rcases shape with rfl | ⟨sign, ds, rfl, signs, digits⟩
  · cases rest with
    | nil => rfl
    | cons c rest =>
      have plain : ¬(c = 'e' ∨ c = 'E') := by
        rcases closed c rfl with rfl | rfl | rfl <;> decide
      rw [List.nil_append]
      exact if_neg plain
  · have read := readDigits_append digits (ends_of_closed closed)
    rcases signs with rfl | rfl
    · show (readDigits (ds ++ rest)).map _ = _
      rw [read]
      rfl
    · show (readDigits (ds ++ rest)).map _ = _
      rw [read]
      rfl

private theorem readFraction_append {fraction exponent rest : List Char}
    (closed : Json.Closed rest) (shape : fraction = [] ∨ ∃ ds, fraction = '.' :: ds ∧ Digits ds)
    (behind : exponent = [] ∨ ∃ sign ds, exponent = 'e' :: sign ++ ds ∧
      (sign = ['+'] ∨ sign = ['-']) ∧ Digits ds) :
    readFraction (fraction ++ (exponent ++ rest)) = some (fraction, exponent ++ rest) ∧
      Ends (fraction ++ (exponent ++ rest)) := by
  have ends : Ends (exponent ++ rest) := by
    rcases behind with rfl | ⟨sign, ds, rfl, -⟩
    · exact ends_of_closed closed
    · intro c head
      cases head
      rfl
  rcases shape with rfl | ⟨ds, rfl, digits⟩
  · refine ⟨?_, ends⟩
    rcases behind with rfl | ⟨sign, ds, rfl, -⟩
    · cases rest with
      | nil => rfl
      | cons c rest => rcases closed c rfl with rfl | rfl | rfl <;> rfl
    · rfl
  · constructor
    · show (readDigits (ds ++ (exponent ++ rest))).map _ = _
      rw [readDigits_append digits ends]
      rfl
    · intro c head
      cases head
      rfl

theorem readUnsigned_append {l rest : List Char} (literal : IsUnsigned l)
    (closed : Json.Closed rest) : readUnsigned (l ++ rest) = some (l, rest) := by
  obtain ⟨whole, fraction, exponent, rfl, digits, lead, fractional, exponential⟩ := literal
  obtain ⟨read, ends⟩ := readFraction_append closed fractional exponential
  have first := readDigits_append digits ends
  have last := readExponent_append closed exponential
  simp only [List.append_assoc] at first ⊢
  unfold readUnsigned
  simp only [first, bind_eq_bind, bind_some, if_neg lead, read, last,
    pure_def, List.append_assoc]

/-- The text starts with what no value and no list of values leaves out, and is read as a value
where that ends. -/
structure Reads (text : List Char) (v : Spelled) : Prop where
  starts : ∃ c cs, text = c :: cs ∧ isSpace c = false ∧ c ≠ ']' ∧ c ≠ '\x7d'
  reads : ∀ rest fuel, Json.Closed rest → text.length ≤ fuel →
    readValue fuel (text ++ rest) = some (v, rest)

private theorem skipSpace_cons (text : List Char) (solid : isSpace c = false) :
    skipSpace (c :: text) = c :: text := by
  simp [skipSpace, solid]

private theorem closed_cons {c : Char} (text : List Char)
    (mark : c = ',' ∨ c = ']' ∨ c = '\x7d') : Json.Closed (c :: text) := by
  intro c' head
  cases head
  exact mark

variable {vs : List Spelled} {l : List Char}

private theorem first_unsigned (literal : IsUnsigned l) :
    ∃ c cs, l = c :: cs ∧ c.isDigit = true := by
  obtain ⟨whole, fraction, exponent, rfl, ⟨some_digit, all⟩, -⟩ := literal
  cases whole with
  | nil => exact absurd rfl some_digit
  | cons c cs => exact ⟨c, _, rfl, all c List.mem_cons_self⟩

private theorem of_digit (digit : c.isDigit = true) : isSpace c = false ∧ c ≠ ']' ∧ c ≠ '\x7d' := by
  refine ⟨?_, fun same => ?_, fun same => ?_⟩
  · by_contra space
    simp only [isSpace, Bool.not_eq_false, Bool.or_eq_true, decide_eq_true_eq] at space
    rcases space with ((rfl | rfl) | rfl) | rfl <;> cases digit
  · subst same
    cases digit
  · subst same
    cases digit

theorem reads_literal (literal : IsLiteral l) : Reads l (.number l) := by
  rcases literal with unsigned | ⟨u, unsigned, rfl⟩
  · obtain ⟨c, cs, rfl, digit⟩ := first_unsigned unsigned
    refine ⟨⟨c, cs, rfl, of_digit digit⟩, fun rest fuel closed enough => ?_⟩
    obtain ⟨fuel, rfl⟩ : ∃ f, fuel = f + 1 := ⟨fuel - 1, by simp at enough; omega⟩
    have read := readUnsigned_append unsigned closed
    rw [List.cons_append] at read ⊢
    rw [readValue, skipSpace_cons _ (of_digit digit).1]
    split
    all_goals first
      | rename_i same
        obtain ⟨rfl, -⟩ := List.cons.inj same
        cases digit
      | rw [read]
        rfl
  · refine ⟨⟨'-', u, rfl, by decide, by decide, by decide⟩, fun rest fuel closed enough => ?_⟩
    obtain ⟨fuel, rfl⟩ : ∃ f, fuel = f + 1 := ⟨fuel - 1, by simp at enough; omega⟩
    rw [List.cons_append, readValue, skipSpace_cons _ (by decide)]
    show (readUnsigned (u ++ rest)).bind _ = _
    rw [readUnsigned_append unsigned closed]
    rfl

def Plain (t : Text) : Prop := ∀ p ∈ t, ∃ c, p = .char c

/-- A style that writes numbers as literals, and characters with the escapes of JSON. -/
structure Style.Lawful (s : Style) : Prop where
  number : ∀ l l', s.number l = some l' → IsLiteral l'
  point : ∀ c, s.point (.char c) = some (escape c)

variable {s : Style}

theorem Style.Lawful.quote_ofString (lawful : s.Lawful) (t : String) :
    s.quote (.ofString t) = some (Json.quote t) := by
  have parts : (t.toList.map Point.char).mapM s.point = some (t.toList.map escape) := by
    induction t.toList with
    | nil => rfl
    | cons c cs ih =>
      rw [List.map_cons, List.mapM_cons, lawful.point, bind_eq_bind, bind_some, ih]
      rfl
  rw [Style.quote, Text.ofString, parts, Option.map_some, Json.quote, List.flatMap_def]

theorem Plain.exists_ofString {t : Text} (plain : Plain t) : ∃ u, t = .ofString u := by
  have chars : ∃ cs : List Char, t = cs.map Point.char := by
    induction t with
    | nil => exact ⟨[], rfl⟩
    | cons p t ih =>
      obtain ⟨c, rfl⟩ := plain p List.mem_cons_self
      obtain ⟨cs, rfl⟩ := ih fun q member => plain q (List.mem_cons_of_mem _ member)
      exact ⟨c :: cs, rfl⟩
  obtain ⟨cs, rfl⟩ := chars
  exact ⟨String.ofList cs, by rw [Text.ofString, String.toList_ofList]⟩

private theorem unicodeEscape_of_json {text rest : List Char}
    (read : Json.unicodeEscape text = some (c, rest)) :
    unicodeEscape text = some (.char c, rest) := by
  unfold Json.unicodeEscape at read
  unfold unicodeEscape
  cases quad : hexQuad text with
  | none =>
    rw [quad] at read
    cases read
  | some first =>
    obtain ⟨high, behind⟩ := first
    simp only [quad, bind_eq_bind, bind_some] at read ⊢
    split_ifs at read ⊢ with isHigh isLow
    · split at read
      · rename_i after
        cases second : hexQuad after with
        | none =>
          rw [second] at read
          cases read
        | some low =>
          simp only [second, bind_some] at read ⊢
          split_ifs at read ⊢
          simp only [pure_def, Option.some.injEq, Prod.mk.injEq] at read ⊢
          obtain ⟨rfl, rfl⟩ := read
          exact ⟨rfl, rfl⟩
      · cases read
    · simp only [pure_def, Option.some.injEq, Prod.mk.injEq] at read ⊢
      obtain ⟨rfl, rfl⟩ := read
      exact ⟨rfl, rfl⟩

private theorem unescape_of_json {text rest : List Char}
    (read : Json.unescape text = some (c, rest)) : unescape text = some (.char c, rest) := by
  unfold Json.unescape at read
  split at read
  all_goals first
    | exact unicodeEscape_of_json read
    | (cases read; rfl)
    | cases read

private theorem readString_of_json {text cs rest : List Char}
    (read : Json.readString fuel text = some (cs, rest)) :
    readString fuel text = some (cs.map .char, rest) := by
  induction fuel generalizing text cs with
  | zero => cases read
  | succ fuel ih =>
    cases text with
    | nil => cases read
    | cons c text =>
      unfold Json.readString at read
      unfold readString
      split_ifs at read ⊢ with isQuote isEscape isControl
      · cases read
        rfl
      · simp only [bind_eq_bind, bind_eq_some_iff, Prod.exists, pure_def,
          Option.some.injEq, Prod.mk.injEq] at read
        obtain ⟨c', behind, unescaped, cs', rest', onward, rfl, rfl⟩ := read
        simp only [unescape_of_json unescaped, bind_eq_bind, bind_some, ih onward]
        rfl
      · simp only [bind_eq_bind, bind_eq_some_iff, Prod.exists, pure_def,
          Option.some.injEq, Prod.mk.injEq] at read
        obtain ⟨cs', rest', onward, rfl, rfl⟩ := read
        rw [ih onward]
        rfl

private theorem readString_quote (u : String) (rest : List Char) :
    ∃ behind, Json.quote u ++ rest = '"' :: behind ∧
      readString behind.length behind = some (.ofString u, rest) := by
  refine ⟨u.toList.flatMap escape ++ '"' :: rest, by simp [Json.quote], ?_⟩
  exact readString_of_json (Json.readString_flatMap u.toList rest le_rfl)

theorem reads_str (u : String) : Reads (Json.quote u) (.str (.ofString u)) := by
  refine ⟨⟨'"', _, rfl, by decide, by decide, by decide⟩, fun rest fuel closed enough => ?_⟩
  obtain ⟨fuel, rfl⟩ : ∃ f, fuel = f + 1 := ⟨fuel - 1, by simp [Json.quote] at enough; omega⟩
  obtain ⟨behind, text, read⟩ := readString_quote u rest
  rw [text, readValue, skipSpace_cons _ (by decide)]
  show (readString behind.length behind).bind _ = _
  rw [read]
  rfl

abbrev AllRead (texts : List (List Char)) (vs : List Spelled) : Prop := List.Forall₂ Reads texts vs

private theorem commas_cons (t : List Char) (some_text : texts ≠ []) :
    commas (t :: texts) = t ++ ',' :: commas texts := by
  cases texts with
  | nil => exact absurd rfl some_text
  | cons u texts => simp [commas, List.intercalate, List.intersperse]

private theorem readItems_commas (all : AllRead texts vs) (some_value : vs ≠ [])
    (enough : (commas texts).length + 1 ≤ fuel) :
    readItems fuel (commas texts ++ ']' :: rest) = some (vs, rest) := by
  induction all generalizing fuel with
  | nil => exact absurd rfl some_value
  | @cons t v texts vs first later ih =>
    obtain ⟨fuel, rfl⟩ : ∃ f, fuel = f + 1 := ⟨fuel - 1, by omega⟩
    cases later with
    | nil =>
      have one : commas [t] = t := by simp [commas]
      rw [one] at enough ⊢
      have read := first.reads (']' :: rest) fuel (closed_cons _ (by decide)) (by omega)
      rw [readItems, read]
      simp [skipSpace_cons _ (show isSpace ']' = false by decide)]
    | cons second later =>
      rw [commas_cons t (List.cons_ne_nil _ _)] at enough ⊢
      simp only [List.append_assoc, List.cons_append, List.length_append, List.length_cons]
        at enough ⊢
      have onward := @ih fuel (List.cons_ne_nil _ _) (by omega)
      generalize commas _ ++ ']' :: rest = last at onward ⊢
      have read := first.reads (',' :: last) fuel (closed_cons _ (by decide)) (by omega)
      rw [readItems, read]
      simp [skipSpace_cons _ (show isSpace ',' = false by decide), onward]

def ReadsField (text : List Char) (field : Text × Spelled) : Prop :=
  ∃ u t, field.1 = .ofString u ∧ text = Json.quote u ++ ':' :: t ∧ Reads t field.2

private theorem readPairs_commas (all : List.Forall₂ ReadsField texts fields)
    (some_field : fields ≠ []) (enough : (commas texts).length + 1 ≤ fuel) :
    readPairs fuel (commas texts ++ '\x7d' :: rest) = some (fields, rest) := by
  induction all generalizing fuel with
  | nil => exact absurd rfl some_field
  | @cons text field texts fields first later ih =>
    obtain ⟨fuel, rfl⟩ : ∃ f, fuel = f + 1 := ⟨fuel - 1, by omega⟩
    obtain ⟨k, v⟩ := field
    obtain ⟨u, t, rfl, rfl, reads⟩ := first
    cases later with
    | nil =>
      have one : ∀ l : List Char, commas [l] = l := fun l => by simp [commas]
      rw [one] at enough ⊢
      simp only [List.append_assoc, List.cons_append, List.length_append, List.length_cons]
        at enough ⊢
      obtain ⟨behind, spelled, key⟩ := readString_quote u (':' :: (t ++ '\x7d' :: rest))
      have read := reads.reads ('\x7d' :: rest) fuel (closed_cons _ (by decide)) (by omega)
      rw [spelled, readPairs, skipSpace_cons _ (by decide)]
      show (readString behind.length behind).bind _ = _
      rw [key]
      simp [skipSpace_cons _ (show isSpace ':' = false by decide), read,
        skipSpace_cons _ (show isSpace '\x7d' = false by decide)]
    | cons second later =>
      rw [commas_cons _ (List.cons_ne_nil _ _)] at enough ⊢
      simp only [List.append_assoc, List.cons_append, List.length_append, List.length_cons]
        at enough ⊢
      have onward := @ih fuel (List.cons_ne_nil _ _) (by omega)
      generalize commas _ ++ '\x7d' :: rest = last at onward ⊢
      obtain ⟨behind, spelled, key⟩ := readString_quote u (':' :: (t ++ ',' :: last))
      have read := reads.reads (',' :: last) fuel (closed_cons _ (by decide)) (by omega)
      rw [spelled, readPairs, skipSpace_cons _ (by decide)]
      show (readString behind.length behind).bind _ = _
      rw [key]
      simp [skipSpace_cons _ (show isSpace ':' = false by decide), read,
        skipSpace_cons _ (show isSpace ',' = false by decide), onward]

mutual

def Fine : Spelled → Prop
  | .null => True
  | .bool _ => True
  | .number _ => True
  | .str t => Plain t
  | .arr items => FineItems items
  | .obj fields => (fields.map Prod.fst).Nodup ∧ FineFields fields

def FineItems : List Spelled → Prop
  | [] => True
  | v :: rest => Fine v ∧ FineItems rest

def FineFields : List (Text × Spelled) → Prop
  | [] => True
  | (k, v) :: rest => Plain k ∧ Fine v ∧ FineFields rest

end

private theorem collect_of_nodup (once : (fields.map Prod.fst).Nodup) :
    collect fields = fields := by
  have put : ∀ (l : List (Text × Spelled)) (p : Text × Spelled), p.1 ∉ l.map Prod.fst →
      Dict.putEntry p.1 p.2 l = l ++ [p] := by
    intro l p absent
    induction l with
    | nil => rfl
    | cons q l step =>
      rw [List.map_cons, List.mem_cons, not_or] at absent
      rw [Dict.putEntry, if_neg (Ne.symm absent.1), step absent.2, List.cons_append]
  have fold : ∀ (l front : List (Text × Spelled)), ((front ++ l).map Prod.fst).Nodup →
      l.foldl (fun fields p => Dict.putEntry p.1 p.2 fields) front = front ++ l := by
    intro l
    induction l with
    | nil => simp
    | cons p l ih =>
      intro front fresh
      have absent : p.1 ∉ front.map Prod.fst := by
        rw [List.map_append, List.map_cons] at fresh
        exact fun member => List.disjoint_of_nodup_append fresh member List.mem_cons_self
      rw [List.foldl_cons, put front p absent, ih _ (by simpa using fresh), List.append_assoc,
        List.singleton_append]
  simpa [collect] using fold fields [] (by simpa using once)

private theorem forall₂_ordered {α β : Type} {R : Text × α → Text × β → Prop}
    (keyed : ∀ a b, R a b → a.1 = b.1) {l : List (Text × α)} {l' : List (Text × β)}
    (all : List.Forall₂ R l l') : List.Forall₂ R (s.ordered l) (s.ordered l') := by
  have insert : ∀ {a b l l'}, R a b → List.Forall₂ R l l' → List.Forall₂ R
      (l.orderedInsert (fun a b => s.key a.1 ≤ s.key b.1) a)
      (l'.orderedInsert (fun a b => s.key a.1 ≤ s.key b.1) b) := by
    intro a b l l' related all
    induction all with
    | nil => exact .cons related .nil
    | @cons c d l l' first later ih =>
      rw [List.orderedInsert_cons, List.orderedInsert_cons, keyed a b related, keyed c d first]
      split_ifs
      · exact .cons related (.cons first later)
      · exact .cons first ih
  induction all with
  | nil => exact .nil
  | cons first later ih => exact insert first ih

private theorem reads_arr (all : AllRead texts vs) :
    Reads ('[' :: commas texts ++ [']']) (.arr vs) := by
  refine ⟨⟨'[', _, rfl, by decide, by decide, by decide⟩, fun rest fuel closed enough => ?_⟩
  obtain ⟨fuel, rfl⟩ : ∃ f, fuel = f + 1 := ⟨fuel - 1, by simp at enough; omega⟩
  cases all with
  | nil => rfl
  | @cons t v texts vs first later =>
    have read := @readItems_commas (t :: texts) rest fuel (v :: vs) (.cons first later)
      (List.cons_ne_nil _ _) (by simp at enough; omega)
    obtain ⟨c, cs, spelled, solid, open_, -⟩ := first.starts
    have head : ∃ behind, commas (t :: texts) ++ ']' :: rest = c :: behind := by
      cases texts with
      | nil => exact ⟨_, by simp [commas, spelled]; rfl⟩
      | cons u texts => exact ⟨_, by rw [commas_cons t (List.cons_ne_nil _ _), spelled]; rfl⟩
    obtain ⟨behind, text⟩ := head
    simp only [List.cons_append, List.append_assoc, List.nil_append]
    rw [readValue, skipSpace_cons _ (by decide)]
    rw [text] at read ⊢
    simp [skipSpace_cons _ solid, read, open_]

private theorem reads_obj (once : (fields.map Prod.fst).Nodup)
    (all : List.Forall₂ ReadsField texts fields) :
    Reads ('\x7b' :: commas texts ++ ['\x7d']) (.obj fields) := by
  refine ⟨⟨'\x7b', _, rfl, by decide, by decide, by decide⟩, fun rest fuel closed enough => ?_⟩
  obtain ⟨fuel, rfl⟩ : ∃ f, fuel = f + 1 := ⟨fuel - 1, by simp at enough; omega⟩
  cases all with
  | nil => rfl
  | @cons text field texts fields first later =>
    have read := @readPairs_commas (text :: texts) (field :: fields) rest fuel
      (.cons first later) (List.cons_ne_nil _ _) (by simp at enough; omega)
    have head : ∃ behind, commas (text :: texts) ++ '\x7d' :: rest = '"' :: behind := by
      obtain ⟨u, t, -, rfl, -⟩ := first
      cases texts with
      | nil => exact ⟨_, by simp [commas, Json.quote]; rfl⟩
      | cons w texts =>
        exact ⟨_, by rw [commas_cons _ (List.cons_ne_nil _ _), Json.quote]; rfl⟩
    obtain ⟨behind, spelled⟩ := head
    simp only [List.cons_append, List.append_assoc, List.nil_append]
    rw [readValue, skipSpace_cons _ (by decide)]
    rw [spelled] at read ⊢
    simp only [skipSpace_cons _ (show isSpace '"' = false by decide)]
    show (readPairs fuel ('"' :: behind)).bind _ = _
    rw [read]
    exact congrArg (fun l => some (Spelled.obj l, rest)) (collect_of_nodup once)

private theorem keys_settledFields (fields : List (Text × Spelled)) :
    (s.settledFields fields).map Prod.fst = fields.map Prod.fst := by
  induction fields with
  | nil => rfl
  | cons field rest ih =>
    obtain ⟨k, v⟩ := field
    rw [Style.settledFields, List.map_cons, List.map_cons, ih]

mutual

theorem reads_write (lawful : s.Lawful) : ∀ {v : Spelled} {text : List Char}, v.Fine →
    s.write v = some text → Reads text (s.settled v)
  | .null, _, _, rfl =>
    ⟨⟨'n', _, rfl, by decide, by decide, by decide⟩, fun _ fuel _ enough => by
      cases fuel with
      | zero => cases enough
      | succ fuel => rfl⟩
  | .bool true, _, _, rfl =>
    ⟨⟨'t', _, rfl, by decide, by decide, by decide⟩, fun _ fuel _ enough => by
      cases fuel with
      | zero => cases enough
      | succ fuel => rfl⟩
  | .bool false, _, _, rfl =>
    ⟨⟨'f', _, rfl, by decide, by decide, by decide⟩, fun _ fuel _ enough => by
      cases fuel with
      | zero => cases enough
      | succ fuel => rfl⟩
  | .number literal, text, _, written => by
    have same : s.number literal = some text := written
    rw [Style.settled, same, Option.getD_some]
    exact reads_literal (lawful.number _ _ same)
  | .str t, text, fine, written => by
    obtain ⟨u, rfl⟩ := Plain.exists_ofString fine
    rw [Style.write, lawful.quote_ofString] at written
    cases written
    exact reads_str u
  | .arr items, text, fine, written => by
    rw [Style.write, Option.map_eq_some_iff] at written
    obtain ⟨texts, each, rfl⟩ := written
    exact reads_arr (allRead_writeItems lawful fine each)
  | .obj fields, text, fine, written => by
    rw [Style.write, Option.map_eq_some_iff] at written
    obtain ⟨texts, each, rfl⟩ := written
    have all := forall₂_ordered (s := s) (fun a b both => both.1)
      (readFields_writeFields lawful fine.2 each)
    refine reads_obj ?_ (List.forall₂_map_left_iff.mpr (all.imp fun _ _ both => both.2))
    have perm : (s.ordered (s.settledFields fields)).Perm (s.settledFields fields) :=
      List.perm_insertionSort _ _
    rw [(perm.map Prod.fst).nodup_iff, keys_settledFields]
    exact fine.1

theorem allRead_writeItems (lawful : s.Lawful) : ∀ {items : List Spelled}
    {texts : List (List Char)}, FineItems items → s.writeItems items = some texts →
    AllRead texts (s.settledItems items)
  | [], _, _, rfl => .nil
  | v :: rest, texts, fine, written => by
    simp only [Style.writeItems, bind_eq_bind, bind_eq_some_iff, pure_def,
      Option.some.injEq] at written
    obtain ⟨text, first, texts, later, rfl⟩ := written
    exact .cons (reads_write lawful fine.1 first) (allRead_writeItems lawful fine.2 later)

theorem readFields_writeFields (lawful : s.Lawful) : ∀ {fields : List (Text × Spelled)}
    {texts : List (Text × List Char)}, FineFields fields → s.writeFields fields = some texts →
    List.Forall₂ (fun text field => text.1 = field.1 ∧ ReadsField text.2 field) texts
      (s.settledFields fields)
  | [], _, _, rfl => .nil
  | (k, v) :: rest, texts, fine, written => by
    simp only [Style.writeFields, bind_eq_bind, bind_eq_some_iff, pure_def,
      Option.some.injEq] at written
    obtain ⟨key, quoted, text, first, texts, later, rfl⟩ := written
    obtain ⟨u, rfl⟩ := Plain.exists_ofString fine.1
    rw [lawful.quote_ofString] at quoted
    cases quoted
    exact .cons ⟨rfl, u, text, rfl, rfl, reads_write lawful fine.2.1 first⟩
      (readFields_writeFields lawful fine.2.2 later)

end

theorem read_write (lawful : s.Lawful) {v : Spelled} {text : List Char} (fine : v.Fine)
    (written : s.write v = some text) : read text = some (s.settled v) := by
  have reads := (reads_write lawful fine written).reads [] (text.length + 1) nofun (by omega)
  rw [List.append_nil] at reads
  rw [read, reads]
  rfl

end Spelled

end ProofRay.Lib
