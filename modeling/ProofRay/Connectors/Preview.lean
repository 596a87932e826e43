/- The preview of a row against its synchronisation: when both paths give the same document. -/

import ProofRay.Connectors.Records
import ProofRay.Engine.Primitives

namespace ProofRay.Connectors

open Engine (Crypto)
open Lib (Dict)
open Lib.CodePoints
open Lib.Decimal (scan_text)
open Lib.Guard
open Lib.IsoFormat
open Lib.Struct (Bytes)

variable {F : Type} (py : Interpreter F) (c : Crypto)

private theorem tag_ne_value : literal "value" ≠ transportTag := by decide

private theorem getItem_tag (kind : String) (raw : Text) :
    getItem (F := F) transportTag [(.text transportTag, .text (literal kind)),
      (.text (literal "value"), .text raw)] = some (.text (literal kind)) := by
  simp [getItem, pickItem, tag_ne_value]

private theorem getItem_value (kind : String) (raw : Text) :
    getItem (F := F) (literal "value") [(.text transportTag, .text (literal kind)),
      (.text (literal "value"), .text raw)] = some (.text raw) := by
  simp [getItem, pickItem]

private theorem kinds_apart : literal "decimal" ≠ literal "bytes" ∧
    literal "datetime" ≠ literal "bytes" ∧ literal "datetime" ≠ literal "decimal" ∧
    literal "date" ≠ literal "bytes" ∧ literal "date" ≠ literal "decimal" ∧
    literal "date" ≠ literal "datetime" := by
  decide

variable {scalar : Except Raised (Value F)} {items : List (Value F × Value F)}
  {pairs : List (Text × Value F)} {d : MappedDocument} {field : Text} {name : Text}

private theorem transportScalar_tagged (kind : String) (raw : Text)
    (known : taggedScalar py (literal kind) raw = some scalar) :
    transportScalar py (tagged kind raw) = scalar := by
  rw [tagged, transportScalar, getItem_tag, getItem_value]
  simp only [known, Option.getD_some]

theorem transportScalar_bytes (raw : Bytes) :
    transportScalar py (tagged "bytes" (hex raw)) = .ok (.bytes raw) := by
  refine transportScalar_tagged py "bytes" (hex raw) ?_
  rw [taggedScalar, if_pos rfl, fromHex_hex]
  rfl

theorem transportScalar_decimal {d : PyDecimal} (isFinite : d.isFinite = true) :
    transportScalar py (tagged "decimal" (ofChars d.number.text)) = .ok (.decimal d) := by
  have read : py.decimalOfText (ofChars d.number.text) = some d := by
    obtain ⟨number, held⟩ := d
    cases number with
    | finite d =>
      rw [Interpreter.decimalOfText, chars_ofChars, Option.bind_some, scan_text]
      exact PyDecimal.ofNumber_number ⟨.finite d, held⟩
    | infinity negative => cases isFinite
    | nan negative signaling payload => cases isFinite
  refine transportScalar_tagged py "decimal" _ ?_
  rw [taggedScalar, if_neg kinds_apart.1, if_pos rfl, read, orThrow_some, ok_bind,
    require_of isFinite]
  rfl

variable {mapping : DocumentMapping} {row safe : Row F} {connectorId : Text} {point : Nat}
  {v : Value F} {text : List Char}

private theorem replaceZulu_ofChars (plain : Plain 'T' text) :
    replaceZulu (ofChars text) = ofChars text := by
  unfold replaceZulu ofChars
  rw [List.flatMap_map]
  have kept : ∀ ch ∈ text, (if ch.toNat = 90 then literal "+00:00" else [ch.toNat]) =
      [ch.toNat] := by
    intro ch member
    refine if_neg fun zulu => ?_
    have same : ch = 'Z' := Char.toNat_inj.mp zulu
    rcases plain ch member with digit | mark
    · rw [same] at digit
      cases digit
    · rw [same] at mark
      revert mark
      decide
  rw [List.flatMap_congr kept, ← List.map_eq_flatMap]

theorem transportScalar_datetime (t : DateTime) :
    transportScalar py (tagged "datetime" (ofChars (momentText 'T' t.moment))) =
      .ok (.datetime ⟨t.moment, false, t.moment.offset.map py.zoneText⟩) := by
  have read : py.dateTimeOfText (ofChars (momentText 'T' t.moment)) =
      some ⟨t.moment, false, t.moment.offset.map py.zoneText⟩ := by
    rw [Interpreter.dateTimeOfText, chars_ofChars, Option.bind_some, readMoment_momentText]
  refine transportScalar_tagged py "datetime" _ ?_
  rw [taggedScalar, if_neg kinds_apart.2.1, if_neg kinds_apart.2.2.1, if_pos rfl,
    replaceZulu_ofChars (plain_momentText 'T' t.moment), read]
  rfl

theorem transportScalar_date (d : Lib.Gregorian.Date) :
    transportScalar py (tagged "date" (ofChars (dateText d))) = .ok (.date d) := by
  have read : py.dateOfText (ofChars (dateText d)) = some d := by
    have whole := readDate_dateText d []
    rw [List.append_nil] at whole
    rw [Interpreter.dateOfText, chars_ofChars, Option.bind_some, whole]
  refine transportScalar_tagged py "date" _ ?_
  rw [taggedScalar, if_neg kinds_apart.2.2.2.1, if_neg kinds_apart.2.2.2.2.1,
    if_neg kinds_apart.2.2.2.2.2, if_pos rfl, read]
  rfl

private def starts : Text := literal "v_"

private theorem starts_eq : starts = [118, 95] := by decide

private theorem notMem_of_isDigit {ch : Char} (digit : ch.isDigit = true) : ch.toNat ∉ starts := by
  have range : 48 ≤ ch.val ∧ ch.val ≤ 57 := by simpa [Char.isDigit] using digit
  have low : 48 ≤ ch.toNat := UInt32.le_iff_toNat_le.mp range.1
  have high : ch.toNat ≤ 57 := UInt32.le_iff_toNat_le.mp range.2
  rw [starts_eq]
  simp only [List.mem_cons, List.not_mem_nil, or_false]
  omega

private theorem head_ofChars (first : (ofChars text).head? = some point) :
    ∃ ch, text.head? = some ch ∧ point = ch.toNat := by
  cases text with
  | nil => cases first
  | cons ch text =>
    cases first
    exact ⟨ch, rfl, rfl⟩

private theorem notMem_of_mark : ∀ ch ∈ ['-', ':', '.', '+', ' ', 'T', 'I', 's', 'N'],
    ch.toNat ∉ starts := by
  have all : (['-', ':', '.', '+', ' ', 'T', 'I', 's', 'N'].all
      fun ch => decide (ch.toNat ∉ [118, 95])) = true := by decide
  rw [starts_eq]
  exact fun ch member => of_decide_eq_true (List.all_eq_true.mp all ch member)

private theorem notMem_of_plain {separator : Char}
    (mark : separator ∈ ['-', ':', '.', '+', ' ', 'T', 'I', 's', 'N'])
    (plain : Plain separator text) (first : (ofChars text).head? = some point) :
    point ∉ starts := by
  obtain ⟨ch, head, rfl⟩ := head_ofChars first
  rcases plain ch (List.mem_of_mem_head? head) with digit | known
  · exact notMem_of_isDigit digit
  · simp only [List.mem_cons, List.not_mem_nil, or_false] at known
    rcases known with rfl | rfl | rfl | rfl | rfl
    · exact notMem_of_mark _ (by simp)
    · exact notMem_of_mark _ (by simp)
    · exact notMem_of_mark _ (by simp)
    · exact notMem_of_mark _ (by simp)
    · exact notMem_of_mark _ mark

private theorem notMem_of_literal {s : String} {p : Nat} (head : (literal s).head? = some p)
    (apart : p ∉ starts) {r : Text} {found : Nat}
    (first : (literal s ++ r).head? = some found) : found ∉ starts := by
  rw [List.head?_append, head, Option.some_or, Option.some.injEq] at first
  exact first ▸ apart

private theorem strValue_head (other : ∀ s, v ≠ .text s) {shown : Text}
    (written : strValue py v = .ok shown) (first : shown.head? = some point) : point ∉ starts := by
  have apart : ∀ n ∈ [78, 84, 70, 98, 91, 40, 123], n ∉ starts := by
    rw [starts_eq]
    decide
  cases v with
  | none =>
    cases written
    exact notMem_of_literal (s := "None") (r := []) (p := 78) (by decide)
      (apart _ (by simp)) (by rwa [List.append_nil])
  | bool b =>
    cases b with
    | true =>
      cases written
      exact notMem_of_literal (s := "True") (r := []) (p := 84) (by decide)
        (apart _ (by simp)) (by rwa [List.append_nil])
    | false =>
      cases written
      exact notMem_of_literal (s := "False") (r := []) (p := 70) (by decide)
        (apart _ (by simp)) (by rwa [List.append_nil])
  | int n =>
    simp only [strValue, reprValue, Interpreter.intText, bind_eq_ok, pure_eq_ok] at written
    obtain ⟨-, -, rfl⟩ := written
    obtain ⟨ch, head, rfl⟩ := head_ofChars first
    split at head
    · cases head
      exact notMem_of_mark '-' (by simp)
    · rw [List.nil_append] at head
      exact notMem_of_isDigit (Lib.Decimal.digital_toDigits _ ch (List.mem_of_mem_head? head))
  | float x =>
    cases written
    exact py.floatText_head x point first
  | decimal d =>
    cases written
    obtain ⟨ch, head, rfl⟩ := head_ofChars first
    rcases Lib.Decimal.head_text d.number head with digit | known
    · exact notMem_of_isDigit digit
    · refine notMem_of_mark _ ?_
      simp only [List.mem_cons, List.not_mem_nil, or_false] at known ⊢
      tauto
  | text s => exact absurd rfl (other s)
  | bytes raw =>
    cases written
    simp only [reprBytes, List.append_assoc] at first
    exact notMem_of_literal (s := "b") (p := 98) (by decide) (apart _ (by simp)) first
  | date d =>
    cases written
    exact notMem_of_plain (by simp) (plain_dateText '-' d) first
  | datetime t =>
    cases written
    exact notMem_of_plain (by simp) (plain_momentText ' ' t.moment) first
  | list items =>
    simp only [strValue, reprValue, bind_eq_ok, pure_eq_ok] at written
    obtain ⟨parts, -, rfl⟩ := written
    rw [List.append_assoc] at first
    exact notMem_of_literal (s := "[") (p := 91) (by decide) (apart _ (by simp)) first
  | tuple items =>
    simp only [strValue, reprValue, bind_eq_ok] at written
    obtain ⟨parts, -, written⟩ := written
    have bracket : ∃ rest, shown = literal "(" ++ rest := by
      split at written
      · exact ⟨_, by rw [← pure_eq_ok.mp written, List.append_assoc]⟩
      · exact ⟨_, by rw [← pure_eq_ok.mp written, List.append_assoc]⟩
    obtain ⟨rest, rfl⟩ := bracket
    exact notMem_of_literal (s := "(") (p := 40) (by decide) (apart _ (by simp)) first
  | dict items =>
    simp only [strValue, reprValue, bind_eq_ok, pure_eq_ok] at written
    obtain ⟨parts, -, rfl⟩ := written
    rw [List.append_assoc] at first
    exact notMem_of_literal (s := "\x7b") (p := 123) (by decide) (apart _ (by simp))
      first

private def IsName (name : Text) : Prop := ∃ point ∈ starts, name.head? = some point

private theorem isName_tag : IsName transportTag :=
  ⟨95, by rw [starts_eq]; decide, by decide⟩

private theorem isName_value : IsName (literal "value") :=
  ⟨118, by rw [starts_eq]; decide, by decide⟩

private def Sent : Option (Value F) → Option (Value F) → Prop
  | none, none => True
  | some v, some safe => jsonValue py v = .ok safe
  | _, _ => False

private theorem Sent.cases {found found' : Option (Value F)} (sent : Sent py found found') :
    (found = none ∧ found' = none) ∨
      ∃ v safe, found = some v ∧ found' = some safe ∧ jsonValue py v = .ok safe := by
  cases found with
  | none =>
    cases found' with
    | none => exact .inl ⟨rfl, rfl⟩
    | some safe => exact sent.elim
  | some v =>
    cases found' with
    | none => exact sent.elim
    | some safe => exact .inr ⟨v, safe, rfl, rfl, sent⟩

private theorem get_update_fold (d : Dict Text (Value F)) (pairs : List (Text × Value F))
    (name : Text) : (d.update pairs).get name =
      pairs.foldl (fun found item => if item.1 = name then some item.2 else found)
        (d.get name) := by
  induction pairs generalizing d with
  | nil => rfl
  | cons item pairs ih => rw [Dict.update_cons, ih, Dict.get_set, List.foldl_cons]

private theorem get_update_items (d : Dict Text (Value F)) (name : Text) :
    (Dict.empty.update d.items).get name = d.get name := by
  cases found : d.get name with
  | some v =>
    exact Dict.get_update_of_mem d.nodup ((d.get_eq_some_iff name v).mp found)
  | none =>
    rw [Dict.get_update_eq_none]
    exact ⟨rfl, (d.get_eq_none_iff name).mp found⟩

private theorem getItem_dict (d : Dict Text (Value F)) (name : Text) :
    getItem name (d.items.map fun item => (Value.text item.1, item.2)) = d.get name := by
  rw [← get_update_items, get_update_fold, getItem, List.foldl_map]
  rfl

private theorem sent_fold (isName : IsName name) :
    ∀ {items : List (Value F × Value F)} {pairs : List (Text × Value F)}
      {found found' : Option (Value F)}, jsonItems py items = .ok pairs → Sent py found found' →
      Sent py (items.foldl (pickItem name) found)
        (pairs.foldl (fun found item => if item.1 = name then some item.2 else found) found') := by
  intro items
  induction items with
  | nil =>
    intro pairs found found' sent before
    cases sent
    exact before
  | cons item items ih =>
    intro pairs found found' sent before
    obtain ⟨key, value⟩ := item
    simp only [jsonItems, jsonItem, bind_eq_ok, pure_eq_ok] at sent
    obtain ⟨first, ⟨shown, written, safe, carried, rfl⟩, others, rest, rfl⟩ := sent
    rw [List.foldl_cons, List.foldl_cons]
    refine ih rest ?_
    by_cases isText : ∃ s, key = .text s
    · obtain ⟨s, rfl⟩ := isText
      cases written
      by_cases here : shown = name
      · simp only [pickItem, if_pos here]
        exact carried
      · simp only [pickItem, if_neg here]
        exact before
    · have other : ∀ s, key ≠ .text s := fun s same => isText ⟨s, same⟩
      have apart : shown ≠ name := by
        rintro rfl
        obtain ⟨point, member, first⟩ := isName
        exact strValue_head py other written first member
      have skipped : pickItem name found (key, value) = found := by
        unfold pickItem
        split
        · next s same => exact absurd same (other s)
        · rfl
      rw [skipped, if_neg apart]
      exact before

private theorem sent_getItem (isName : IsName name) (sent : jsonItems py items = .ok pairs) :
    Sent py (getItem name items) (getItem name ((Dict.empty.update pairs).items.map
      fun item => (Value.text item.1, item.2))) := by
  rw [getItem_dict, get_update_fold]
  exact sent_fold py isName sent trivial

def Value.isContainer : Value F → Bool
  | .list _ | .tuple _ | .dict _ => true
  | _ => false

/-- Two values that every column but the shown ones takes for the same: the same scalar, the same
reading of a clock, or containers. -/
inductive Alike : Value F → Value F → Prop
  | scalar (v : Value F) (plain : v.isContainer = false) : Alike v v
  | clock (t u : DateTime) (same : t.moment = u.moment) : Alike (.datetime t) (.datetime u)
  | container (v w : Value F) (left : v.isContainer = true) (right : w.isContainer = true) :
    Alike v w

def ReadAlike (x y : Except Raised (Value F)) : Prop :=
  (∃ v w, x = .ok v ∧ y = .ok w ∧ Alike v w) ∨ (∃ e, x = .error e) ∧ ∃ e, y = .error e

private theorem readAlike_self (x : Except Raised (Value F))
    (plain : ∀ v, x = .ok v → v.isContainer = false) : ReadAlike x x := by
  cases x with
  | error e => exact .inr ⟨⟨e, rfl⟩, e, rfl⟩
  | ok v => exact .inl ⟨v, v, rfl, rfl, .scalar v (plain v rfl)⟩

private theorem readAlike_containers {v w : Value F} (left : v.isContainer = true)
    (right : w.isContainer = true) : ReadAlike (pure v) (pure w) :=
  .inl ⟨v, w, rfl, rfl, .container v w left right⟩

private theorem taggedScalar_plain {kind raw : Text}
    (known : taggedScalar py kind raw = some scalar) :
    ∀ v, scalar = .ok v → v.isContainer = false := by
  intro v
  unfold taggedScalar at known
  split_ifs at known
  · cases known
    simp only [bind_eq_ok, pure_eq_ok]
    rintro ⟨raw, -, rfl⟩
    rfl
  · cases known
    simp only [bind_eq_ok, pure_eq_ok]
    rintro ⟨d, -, -, -, rfl⟩
    rfl
  · cases known
    simp only [bind_eq_ok, pure_eq_ok]
    rintro ⟨t, -, rfl⟩
    rfl
  · cases known
    simp only [bind_eq_ok, pure_eq_ok]
    rintro ⟨d, -, rfl⟩
    rfl

private theorem transportScalar_dict (items : List (Value F × Value F)) :
    (∃ kind raw scalar, getItem transportTag items = some (.text kind) ∧
      getItem (literal "value") items = some (.text raw) ∧
      taggedScalar py kind raw = some scalar ∧ transportScalar py (.dict items) = scalar) ∨
    (∀ kind raw, getItem transportTag items = some (.text kind) →
      getItem (literal "value") items = some (.text raw) → taggedScalar py kind raw = none) ∧
      transportScalar py (.dict items) = pure (.dict items) := by
  rw [transportScalar]
  split
  · next kind raw kinds raws =>
    cases known : taggedScalar py kind raw with
    | some scalar => exact .inl ⟨kind, raw, scalar, kinds, raws, known, rfl⟩
    | none =>
      refine .inr ⟨fun kind' raw' kinds' raws' => ?_, rfl⟩
      rw [kinds] at kinds'
      rw [raws] at raws'
      cases kinds'
      cases raws'
      exact known
  · next other =>
    exact .inr ⟨fun kind raw kinds raws => absurd raws (other kind raw kinds), rfl⟩

private theorem plain_iff_of_json {v safe : Value F} (carried : jsonValue py v = .ok safe) :
    (v = .none ↔ safe = .none) ∧ ∀ s, v = .text s ↔ safe = .text s := by
  cases v with
  | none | bool | int | float | text | bytes | datetime | date =>
    cases carried
    simp [tagged]
  | decimal d =>
    simp only [jsonValue, bind_eq_ok, pure_eq_ok] at carried
    obtain ⟨-, -, rfl⟩ := carried
    simp [tagged]
  | list items | tuple items | dict items =>
    simp only [jsonValue, bind_eq_ok, pure_eq_ok] at carried
    obtain ⟨-, -, rfl⟩ := carried
    simp

private theorem text_iff_of_sent {found found' : Option (Value F)} (sent : Sent py found found')
    (s : Text) : found = some (.text s) ↔ found' = some (.text s) := by
  rcases sent.cases py with ⟨rfl, rfl⟩ | ⟨v, safe, rfl, rfl, carried⟩
  · exact Iff.rfl
  · rw [Option.some.injEq, Option.some.injEq]
    exact (plain_iff_of_json py carried).2 s

private theorem readAlike_dict (sent : jsonItems py items = .ok pairs) :
    ReadAlike (transportScalar py (.dict items)) (transportScalar py
      (.dict ((Dict.empty.update pairs).items.map fun item => (.text item.1, item.2)))) := by
  have kinds := text_iff_of_sent py (sent_getItem py isName_tag sent)
  have raws := text_iff_of_sent py (sent_getItem py isName_value sent)
  rcases transportScalar_dict py items with ⟨kind, raw, scalar, isKind, isRaw, known, read⟩ |
    ⟨unknown, kept⟩
  · rcases transportScalar_dict py _ with ⟨kind', raw', scalar', isKind', isRaw', known', read'⟩ |
      ⟨unknown', -⟩
    · have sameKind := (kinds kind').mpr isKind'
      have sameRaw := (raws raw').mpr isRaw'
      rw [isKind] at sameKind
      rw [isRaw] at sameRaw
      cases sameKind
      cases sameRaw
      rw [known] at known'
      cases known'
      rw [read, read']
      exact readAlike_self scalar (taggedScalar_plain py known)
    · have none_known := unknown' kind raw ((kinds kind).mp isKind) ((raws raw).mp isRaw)
      rw [known] at none_known
      cases none_known
  · rcases transportScalar_dict py _ with ⟨kind', raw', scalar', isKind', isRaw', known', -⟩ |
      ⟨-, kept'⟩
    · have none_known := unknown kind' raw' ((kinds kind').mpr isKind') ((raws raw').mpr isRaw')
      rw [known'] at none_known
      cases none_known
    · rw [kept, kept']
      exact readAlike_containers rfl rfl

theorem readAlike_json {v safe : Value F} (carried : jsonValue py v = .ok safe) :
    ReadAlike (transportScalar py v) (transportScalar py safe) := by
  cases v with
  | none | bool | int | float | text =>
    cases carried
    exact readAlike_self _ fun v read => by cases read; rfl
  | bytes raw =>
    cases carried
    rw [transportScalar_bytes]
    exact .inl ⟨_, _, rfl, rfl, .scalar _ rfl⟩
  | decimal d =>
    simp only [jsonValue, bind_eq_ok, pure_eq_ok, require_eq_ok] at carried
    obtain ⟨-, isFinite, rfl⟩ := carried
    rw [transportScalar_decimal py isFinite]
    exact .inl ⟨_, _, rfl, rfl, .scalar _ rfl⟩
  | datetime t =>
    cases carried
    rw [transportScalar_datetime]
    exact .inl ⟨_, _, rfl, rfl, .clock t _ rfl⟩
  | date d =>
    cases carried
    rw [transportScalar_date]
    exact .inl ⟨_, _, rfl, rfl, .scalar _ rfl⟩
  | list items =>
    simp only [jsonValue, bind_eq_ok, pure_eq_ok] at carried
    obtain ⟨safe', -, rfl⟩ := carried
    exact readAlike_containers rfl rfl
  | tuple items =>
    simp only [jsonValue, bind_eq_ok, pure_eq_ok] at carried
    obtain ⟨safe', -, rfl⟩ := carried
    exact readAlike_containers rfl rfl
  | dict items =>
    simp only [jsonValue, bind_eq_ok, pure_eq_ok] at carried
    obtain ⟨pairs, sent, rfl⟩ := carried
    exact readAlike_dict py sent

private theorem sent_items {items pairs : List (Text × Value F)}
    (sent : (items.mapM fun item => do
      let safe ← jsonValue py item.2
      pure (item.1, safe)) = Except.ok pairs) :
    pairs.map Prod.fst = items.map Prod.fst ∧
      ∀ name, Sent py (Lib.Dict.lookupEntry name items) (Lib.Dict.lookupEntry name pairs) := by
  induction items generalizing pairs with
  | nil =>
    cases sent
    exact ⟨rfl, fun _ => trivial⟩
  | cons item items ih =>
    simp only [List.mapM_cons, bind_eq_ok, pure_eq_ok] at sent
    obtain ⟨first, ⟨safe, carried, rfl⟩, others, rest, rfl⟩ := sent
    obtain ⟨keys, found⟩ := ih rest
    refine ⟨by rw [List.map_cons, List.map_cons, keys], fun name => ?_⟩
    unfold Lib.Dict.lookupEntry
    by_cases here : item.1 = name
    · rw [if_pos here, if_pos here]
      exact carried
    · rw [if_neg here, if_neg here]
      exact found name

private theorem sent_get (sent : jsonRow py row = .ok safe) (field : Text) :
    Sent py (row.get field) (safe.get field) := by
  simp only [jsonRow, bind_eq_ok, pure_eq_ok] at sent
  obtain ⟨pairs, sent, rfl⟩ := sent
  obtain ⟨keys, found⟩ := sent_items py sent
  have nodup : (pairs.map Prod.fst).Nodup := keys ▸ row.nodup
  have same : (Dict.empty.update pairs).get field = Lib.Dict.lookupEntry field pairs :=
    get_update_items ⟨pairs, nodup⟩ field
  rw [same]
  exact found field

private theorem required_of_some {row : Row F} (found : row.get field = some v)
    (present : v ≠ .none) : required py row field = transportScalar py v := by
  rw [required, found]
  split
  · next same => cases same
  · next same =>
    cases same
    exact absurd rfl present
  · next same =>
    cases same
    rfl

private theorem required_of_none {row : Row F}
    (absent : row.get field = none ∨ row.get field = some .none) :
    required py row field = .error (.absent field) := by
  rcases absent with absent | absent
  · rw [required, absent]
  · rw [required, absent]

theorem readAlike_required (sent : jsonRow py row = .ok safe) (field : Text) :
    ReadAlike (required py row field) (required py safe field) := by
  have column := sent_get py sent field
  have refused : ReadAlike (F := F) (.error (.absent field)) (.error (.absent field)) :=
    .inr ⟨⟨_, rfl⟩, _, rfl⟩
  rcases column.cases py with ⟨native, form⟩ | ⟨v, w, native, form, carried⟩
  · rw [required_of_none py (.inl native), required_of_none py (.inl form)]
    exact refused
  · have none_iff := (plain_iff_of_json py carried).1
    by_cases absent : v = .none
    · rw [required_of_none py (.inr (absent ▸ native)),
        required_of_none py (.inr (none_iff.mp absent ▸ form))]
      exact refused
    · rw [required_of_some py native absent, required_of_some py form (mt none_iff.mpr absent)]
      exact readAlike_json py carried

theorem readAlike_optional (sent : jsonRow py row = .ok safe) (field : Option Text) :
    ReadAlike (optional py row field) (optional py safe field) := by
  have absent : ReadAlike (F := F) (pure .none) (pure .none) :=
    .inl ⟨_, _, rfl, rfl, .scalar _ rfl⟩
  cases field with
  | none => exact absent
  | some field =>
    rcases (sent_get py sent field).cases py with ⟨native, form⟩ | ⟨v, w, native, form, carried⟩
    · simp only [optional, native, form, Option.getD_none]
      exact absent
    · simp only [optional, native, form, Option.getD_some]
      exact readAlike_json py carried

/-- A column that reads a clock by its moment and refuses containers. -/
structure Settles {α : Type} (f : Value F → Except Raised α) : Prop where
  clock : ∀ t u : DateTime, t.moment = u.moment → f (.datetime t) = f (.datetime u)
  container : ∀ v : Value F, v.isContainer = true → ∃ e, f v = .error e

theorem Settles.agree {α : Type} {f : Value F → Except Raised α} (settles : Settles f)
    {x y : Except Raised (Value F)} (alike : ReadAlike x y) :
    (x >>= f).toOption = (y >>= f).toOption := by
  rcases alike with ⟨v, w, rfl, rfl, alike⟩ | ⟨⟨e, rfl⟩, e', rfl⟩
  · rw [ok_bind, ok_bind]
    cases alike with
    | scalar v plain => rfl
    | clock t u same => rw [settles.clock t u same]
    | container v w left right =>
      obtain ⟨e, failed⟩ := settles.container v left
      obtain ⟨e', failed'⟩ := settles.container w right
      rw [failed, failed']
      rfl
  · rfl

private theorem casefold_bracket {point : Nat} (bracket : point ∈ literal "[(\x7b") (rest : Text) :
    ∃ later, py.casefold (point :: rest) = point :: later :=
  ⟨py.casefold rest, by
    rw [Interpreter.casefold, List.flatMap_cons, py.foldChar_bracket point bracket]
    rfl⟩

private theorem strValue_container (container : v.isContainer = true) {shown : Text}
    (written : strValue py v = .ok shown) :
    ∃ point ∈ literal "[(\x7b", ∃ rest, shown = point :: rest := by
  have brackets : literal "[(\x7b" = [91, 40, 123] := by decide
  have square : literal "[" = [91] := by decide
  have round : literal "(" = [40] := by decide
  have curly : literal "\x7b" = [123] := by decide
  rw [brackets]
  cases v with
  | none | bool | int | float | decimal | text | bytes | date | datetime => cases container
  | list items =>
    simp only [strValue, reprValue, bind_eq_ok, pure_eq_ok] at written
    obtain ⟨parts, -, rfl⟩ := written
    exact ⟨91, by simp, _, by rw [square]; rfl⟩
  | tuple items =>
    simp only [strValue, reprValue, bind_eq_ok] at written
    obtain ⟨parts, -, written⟩ := written
    split at written
    · exact ⟨40, by simp, _, by rw [← pure_eq_ok.mp written, round]; rfl⟩
    · exact ⟨40, by simp, _, by rw [← pure_eq_ok.mp written, round]; rfl⟩
  | dict items =>
    simp only [strValue, reprValue, bind_eq_ok, pure_eq_ok] at written
    obtain ⟨parts, -, rfl⟩ := written
    exact ⟨123, by simp, _, by rw [curly]; rfl⟩

private theorem refuses_containers {α : Type} {f : Value F → Except Raised α}
    (list : ∀ items, ∃ e, f (.list items) = .error e)
    (tuple : ∀ items, ∃ e, f (.tuple items) = .error e)
    (dict : ∀ items, ∃ e, f (.dict items) = .error e) (v : Value F)
    (container : v.isContainer = true) : ∃ e, f v = .error e := by
  cases v with
  | none | bool | int | float | decimal | text | bytes | date | datetime => cases container
  | list items => exact list items
  | tuple items => exact tuple items
  | dict items => exact dict items

def identity (connectorId namespace_ : Text) (value : Value F) : Except Raised (Nat × Text) := do
  let factId ← stableConnectorFactId py c connectorId namespace_ value
  let primaryKey ← primaryKeyText py value
  pure (factId, primaryKey)

theorem settles_identity (connectorId namespace_ : Text) :
    Settles (identity (F := F) py c connectorId namespace_) where
  clock := fun t u same => by
    simp only [identity, stableConnectorFactId, canonicalPrimaryKey, primaryKeyText, strValue, same]
  container := fun v container => by
    obtain ⟨e, refused⟩ := refuses_containers (f := canonicalPrimaryKey py) (fun _ => ⟨_, rfl⟩)
      (fun _ => ⟨_, rfl⟩) (fun _ => ⟨_, rfl⟩) v container
    cases settled : identity py c connectorId namespace_ v with
    | error e => exact ⟨e, rfl⟩
    | ok result =>
      simp only [identity, stableConnectorFactId, refused, bind_eq_ok] at settled
      obtain ⟨_, ⟨_, _, _, _, _, _, _, impossible, _⟩, _⟩ := settled
      cases impossible

theorem settles_documentText : Settles (documentText (F := F) py) where
  clock := fun _ _ _ => rfl
  container := refuses_containers (fun _ => ⟨_, rfl⟩) (fun _ => ⟨_, rfl⟩) fun _ => ⟨_, rfl⟩

private theorem bracket_notMem_roles {point : Nat} (bracket : point ∈ literal "[(\x7b")
    (rest : Text) : point :: rest ∉ roles := by
  have heads : ∀ role ∈ roles, ∀ point ∈ literal "[(\x7b", role.head? ≠ some point := by
    decide
  exact fun member => heads _ member point bracket rfl

theorem settles_roleText : Settles (roleText (F := F) py) where
  clock := fun t u same => by
    simp only [roleText, strValue, same]
  container := fun v container => by
    have read : roleText py v = (do
        let text ← strValue py v
        require (py.casefold text ∈ roles)
          (.invalid "mapped role is outside the closed transport enum")
        pure (some (py.casefold text))) := by
      cases v with
      | none => cases container
      | _ => rfl
    cases settled : roleText py v with
    | error e => exact ⟨e, rfl⟩
    | ok role =>
      simp only [read, bind_eq_ok, require_eq_ok] at settled
      obtain ⟨text, written, -, member, -⟩ := settled
      obtain ⟨point, bracket, rest, rfl⟩ := strValue_container py container written
      obtain ⟨later, folded⟩ := casefold_bracket py bracket rest
      rw [folded] at member
      exact absurd member (bracket_notMem_roles bracket later)

theorem settles_integer (default : Option Int) (minimum : Int) :
    Settles (integer (F := F) py default minimum) where
  clock := fun _ _ _ => rfl
  container := refuses_containers (fun _ => ⟨_, rfl⟩) (fun _ => ⟨_, rfl⟩) fun _ => ⟨_, rfl⟩

theorem settles_eventDay : Settles (eventDay (F := F) py) where
  clock := fun t u same => by
    simp only [eventDay, same]
  container := refuses_containers (fun _ => ⟨_, rfl⟩) (fun _ => ⟨_, rfl⟩) fun _ => ⟨_, rfl⟩

/-- What a document has from the columns that do not show a value. -/
structure Settled where
  identity : Nat × Text
  text : Text
  role : Option Text
  version : Option Int
  sequence : Option Int
  raw : Bytes
  eventTime : Option Nat
  deriving DecidableEq, Repr

/-- What a document shows of the other columns. -/
structure Shown where
  component : Option Text
  session : Text
  speaker : Option Text
  deriving DecidableEq, Repr

def settled (connectorId : Text) (mapping : DocumentMapping) (row : Row F) :
    Except Raised Settled := do
  let identity ← required py row mapping.idField >>= identity py c connectorId mapping.namespace_
  let text ← required py row mapping.textField >>= documentText py
  let role ← optional py row mapping.roleField >>= roleText py
  let version ← optional py row mapping.versionField >>= integer py (some 1) 1
  let sequence ← optional py row mapping.sequenceField >>= integer py none 0
  let raw ← encodeText text
  let eventTime ← optional py row mapping.eventTimeField >>= eventDay py
  pure ⟨identity, text, role, version, sequence, raw, eventTime⟩

def shown (mapping : DocumentMapping) (row : Row F) : Except Raised Shown := do
  let component ← optional py row mapping.sourceField >>= sourceComponent py
  let session ← optional py row mapping.sessionField >>= sessionText py mapping.namespace_
  let speaker ← optional py row mapping.speakerField >>= speakerText py
  pure ⟨component, session, speaker⟩

def document (connectorId : Text) (mapping : DocumentMapping) (s : Settled) (h : Shown) :
    MappedDocument :=
  ⟨s.identity.1, s.text, mapping.scopeId, h.session, s.version.getD 1,
    sourceIdentity connectorId mapping.namespace_ s.identity.2 h.component, s.sequence, s.eventTime,
    s.role, h.speaker, s.identity.2, hex (c.sha256 s.raw)⟩

theorem mapRecord_eq_ok (connectorId : Text) (mapping : DocumentMapping) (row : Row F) :
    mapRecord py c connectorId mapping row = .ok d ↔
      ∃ s h, settled py c connectorId mapping row = .ok s ∧ shown py mapping row = .ok h ∧
        document c connectorId mapping s h = d := by
  simp only [mapRecord, settled, shown, identity, bind_eq_ok, pure_eq_ok]
  constructor
  · rintro ⟨idValue, idRead, factId, isFactId, key, isKey, textValue, textRead, text, isText,
      sourceValue, sourceRead, component, isComponent, sessionValue, sessionRead, session,
      isSession, roleValue, roleRead, role, isRole, speakerValue, speakerRead, speaker, isSpeaker,
      versionValue, versionRead, version, isVersion, sequenceValue, sequenceRead, sequence,
      isSequence, raw, isRaw, eventValue, eventRead, event, isEvent, rfl⟩
    exact ⟨⟨(factId, key), text, role, version, sequence, raw, event⟩,
      ⟨component, session, speaker⟩,
      ⟨_, ⟨idValue, idRead, factId, isFactId, key, isKey, rfl⟩, text, ⟨textValue, textRead, isText⟩,
        role, ⟨roleValue, roleRead, isRole⟩, version, ⟨versionValue, versionRead, isVersion⟩,
        sequence, ⟨sequenceValue, sequenceRead, isSequence⟩, raw, isRaw, event,
        ⟨eventValue, eventRead, isEvent⟩, rfl⟩,
      ⟨component, ⟨sourceValue, sourceRead, isComponent⟩, session,
        ⟨sessionValue, sessionRead, isSession⟩, speaker, ⟨speakerValue, speakerRead, isSpeaker⟩,
        rfl⟩, rfl⟩
  · rintro ⟨_, _, ⟨_, ⟨idValue, idRead, factId, isFactId, key, isKey, rfl⟩, text,
      ⟨textValue, textRead, isText⟩, role, ⟨roleValue, roleRead, isRole⟩, version,
      ⟨versionValue, versionRead, isVersion⟩, sequence, ⟨sequenceValue, sequenceRead, isSequence⟩,
      raw, isRaw, event, ⟨eventValue, eventRead, isEvent⟩, rfl⟩,
      ⟨component, ⟨sourceValue, sourceRead, isComponent⟩, session,
        ⟨sessionValue, sessionRead, isSession⟩, speaker, ⟨speakerValue, speakerRead, isSpeaker⟩,
        rfl⟩, rfl⟩
    exact ⟨idValue, idRead, factId, isFactId, key, isKey, textValue, textRead, text, isText,
      sourceValue, sourceRead, component, isComponent, sessionValue, sessionRead, session,
      isSession, roleValue, roleRead, role, isRole, speakerValue, speakerRead, speaker, isSpeaker,
      versionValue, versionRead, version, isVersion, sequenceValue, sequenceRead, sequence,
      isSequence, raw, isRaw, eventValue, eventRead, event, isEvent, rfl⟩

private theorem toOption_bind {α β : Type} (x : Except Raised α) (f : α → Except Raised β) :
    (x >>= f).toOption = x.toOption.bind fun a => (f a).toOption := by
  cases x with
  | error e => rfl
  | ok a => rfl

theorem settled_json (sent : jsonRow py row = .ok safe) :
    (settled py c connectorId mapping safe).toOption =
      (settled py c connectorId mapping row).toOption := by
  have identities := (settles_identity py c connectorId mapping.namespace_).agree
    (readAlike_required py sent mapping.idField)
  have texts := (settles_documentText py).agree (readAlike_required py sent mapping.textField)
  have roles := (settles_roleText py).agree (readAlike_optional py sent mapping.roleField)
  have versions := (settles_integer py (some 1) 1).agree
    (readAlike_optional py sent mapping.versionField)
  have sequences := (settles_integer py none 0).agree
    (readAlike_optional py sent mapping.sequenceField)
  have events := (settles_eventDay py).agree (readAlike_optional py sent mapping.eventTimeField)
  simp only [toOption_bind] at identities texts roles versions sequences events
  simp only [settled, toOption_bind, identities, texts, roles, versions, sequences, events]

mutual

def Carried : Value F → Prop
  | .decimal d => d.isFinite = true
  | .dict items => CarriedItems items
  | .tuple items => CarriedList items
  | .list items => CarriedList items
  | _ => True

def CarriedList : List (Value F) → Prop
  | [] => True
  | v :: rest => Carried v ∧ CarriedList rest

def CarriedItem : Value F × Value F → Prop
  | (key, value) => (∃ name, strValue py key = .ok name) ∧ Carried value

def CarriedItems : List (Value F × Value F) → Prop
  | [] => True
  | item :: rest => CarriedItem item ∧ CarriedItems rest

end

mutual

theorem carried_iff : (v : Value F) → (Carried py v ↔ ∃ safe, jsonValue py v = .ok safe)
  | .none | .bool _ | .int _ | .float _ | .text _ | .bytes _ | .date _ | .datetime _ => by
    simp [-bind_pure_comp, Carried, jsonValue]
  | .decimal d => by
    simp [-bind_pure_comp, Carried, jsonValue]
  | .list items => by
    simp [-bind_pure_comp, Carried, jsonValue, carriedList_iff items]
  | .tuple items => by
    simp [-bind_pure_comp, Carried, jsonValue, carriedList_iff items]
  | .dict items => by
    simp [-bind_pure_comp, Carried, jsonValue, carriedItems_iff items]

theorem carriedList_iff : (items : List (Value F)) →
    (CarriedList py items ↔ ∃ safe, jsonList py items = .ok safe)
  | [] => by
    simp [-bind_pure_comp, CarriedList, jsonList]
  | v :: rest => by
    simp [-bind_pure_comp, CarriedList, jsonList, carried_iff v, carriedList_iff rest]

theorem carriedItem_iff : (item : Value F × Value F) →
    (CarriedItem py item ↔ ∃ pair, jsonItem py item = .ok pair)
  | (key, value) => by
    simp [-bind_pure_comp, CarriedItem, jsonItem, carried_iff value]

theorem carriedItems_iff : (items : List (Value F × Value F)) →
    (CarriedItems py items ↔ ∃ pairs, jsonItems py items = .ok pairs)
  | [] => by
    simp [-bind_pure_comp, CarriedItems, jsonItems]
  | item :: rest => by
    simp [-bind_pure_comp, CarriedItems, jsonItems, carriedItem_iff item, carriedItems_iff rest]

end

def CarriedRow (row : Row F) : Prop := ∀ item ∈ row.items, Carried py item.2

theorem carriedRow_iff (row : Row F) : CarriedRow py row ↔ ∃ safe, jsonRow py row = .ok safe := by
  unfold CarriedRow jsonRow
  constructor
  · intro carried
    obtain ⟨pairs, sent⟩ := exists_mapM_ok (f := fun item : Text × Value F => do
      let safe ← jsonValue py item.2
      pure (item.1, safe)) fun item member => by
        obtain ⟨safe, sent⟩ := (carried_iff py item.2).mp (carried item member)
        exact ⟨(item.1, safe), by simp only [sent, ok_bind]; rfl⟩
    exact ⟨_, by rw [sent, ok_bind]; rfl⟩
  · rintro ⟨safe, sent⟩ item member
    simp only [bind_eq_ok, pure_eq_ok] at sent
    obtain ⟨pairs, sent, -⟩ := sent
    obtain ⟨pair, -, made⟩ := exists_of_mapM_ok sent item member
    simp only [bind_eq_ok] at made
    obtain ⟨safe, sent, -⟩ := made
    exact (carried_iff py item.2).mpr ⟨safe, sent⟩

/-- What the preview shows is what the synchronisation writes, and one raises where the other
does. -/
def Truthful (connectorId : Text) (mapping : DocumentMapping) (row : Row F) : Prop :=
  (∀ d, preview py c connectorId mapping row = .ok d →
    mapRecord py c connectorId mapping row = .ok d) ∧
  ((∃ e, preview py c connectorId mapping row = .error e) ↔
    ∃ e, mapRecord py c connectorId mapping row = .error e)

/-- The source, session and speaker columns show the same texts before and after the values are
turned into JSON. -/
def SameShown (mapping : DocumentMapping) (row : Row F) : Prop :=
  ∀ safe, jsonRow py row = .ok safe →
    (shown py mapping safe).toOption = (shown py mapping row).toOption

private theorem sourceComponent_eq_none {component : Option Text}
    (read : sourceComponent py v = .ok component) : component = none ↔ v = .none := by
  by_cases absent : v = .none
  · subst absent
    cases read
    exact iff_of_true rfl rfl
  · refine iff_of_false ?_ absent
    unfold sourceComponent at read
    split at read
    · exact absurd rfl absent
    · simp only [bind_eq_ok, pure_eq_ok] at read
      obtain ⟨text, -, -, -, -, -, rfl⟩ := read
      exact Option.some_ne_none text

private theorem none_iff_of_alike {v w : Value F} (alike : Alike v w) : v = .none ↔ w = .none := by
  cases alike with
  | scalar => exact Iff.rfl
  | clock => simp
  | container _ _ left right =>
    constructor
    · rintro rfl
      cases left
    · rintro rfl
      cases right

variable {h h' : Shown}

private theorem component_none_iff (sent : jsonRow py row = .ok safe)
    (native : shown py mapping row = .ok h) (form : shown py mapping safe = .ok h') :
    h.component = none ↔ h'.component = none := by
  simp only [shown, bind_eq_ok, pure_eq_ok] at native form
  obtain ⟨component, ⟨v, read, isComponent⟩, _, -, _, -, rfl⟩ := native
  obtain ⟨component', ⟨w, read', isComponent'⟩, _, -, _, -, rfl⟩ := form
  rcases readAlike_optional py sent mapping.sourceField with ⟨v', w', left, right, alike⟩ |
    ⟨⟨e, failed⟩, -⟩
  · rw [read] at left
    rw [read'] at right
    cases left
    cases right
    rw [sourceComponent_eq_none py isComponent, sourceComponent_eq_none py isComponent']
    exact none_iff_of_alike alike
  · rw [read] at failed
    cases failed

variable {s : Settled}

private theorem document_injective (both : h.component = none ↔ h'.component = none)
    (same : document c connectorId mapping s h = document c connectorId mapping s h') : h = h' := by
  obtain ⟨component, session, speaker⟩ := h
  obtain ⟨component', session', speaker'⟩ := h'
  simp only [document, MappedDocument.mk.injEq, true_and, and_true] at same both
  obtain ⟨rfl, sources, rfl⟩ := same
  cases component with
  | none =>
    cases component' with
    | none => rfl
    | some b => exact absurd (both.mp rfl) (Option.some_ne_none b)
  | some a =>
    cases component' with
    | none => exact absurd (both.mpr rfl) (Option.some_ne_none a)
    | some b =>
      simp only [sourceIdentity, List.append_cancel_left_eq] at sources
      rw [sources]

private theorem error_iff {α : Type} {x : Except Raised α} :
    (∃ e, x = .error e) ↔ ∀ a, x ≠ .ok a := by
  cases x with
  | error e => exact iff_of_true ⟨e, rfl⟩ fun _ => nofun
  | ok a => exact iff_of_false nofun fun never => never a rfl

private theorem mapRecord_error {row : Row F} :
    (∃ e, mapRecord py c connectorId mapping row = .error e) ↔
      (∃ e, settled py c connectorId mapping row = .error e) ∨
        ∃ e, shown py mapping row = .error e := by
  simp only [error_iff, ne_eq, mapRecord_eq_ok]
  constructor
  · intro never
    by_contra neither
    simp only [not_or, not_forall, not_not] at neither
    obtain ⟨⟨s, isSettled⟩, h, isShown⟩ := neither
    exact never _ ⟨s, h, isSettled, isShown, rfl⟩
  · rintro (never | never) d ⟨s, h, isSettled, isShown, -⟩
    · exact never s isSettled
    · exact never h isShown

private theorem mapRecord_of_settled {row : Row F}
    (isSettled : settled py c connectorId mapping row = .ok s) :
    mapRecord py c connectorId mapping row = .ok d ↔
      ∃ h, shown py mapping row = .ok h ∧ document c connectorId mapping s h = d := by
  rw [mapRecord_eq_ok]
  constructor
  · rintro ⟨s', h, isSettled', isShown, same⟩
    rw [isSettled] at isSettled'
    cases isSettled'
    exact ⟨h, isShown, same⟩
  · rintro ⟨h, isShown, same⟩
    exact ⟨s, h, isSettled, isShown, same⟩

private theorem truthful_of_settled (sent : jsonRow py row = .ok safe)
    (native : settled py c connectorId mapping row = .ok s)
    (form : settled py c connectorId mapping safe = .ok s) :
    Truthful py c connectorId mapping row ↔
      (shown py mapping safe).toOption = (shown py mapping row).toOption := by
  have through : preview py c connectorId mapping row =
      mapRecord py c connectorId mapping safe := by
    rw [preview, sent, ok_bind]
  have raises (row : Row F) (isSettled : settled py c connectorId mapping row = .ok s) :
      (∃ e, mapRecord py c connectorId mapping row = .error e) ↔
        ∃ e, shown py mapping row = .error e := by
    rw [mapRecord_error, isSettled]
    exact or_iff_right nofun
  rw [Truthful, through, raises row native, raises safe form]
  cases isShown : shown py mapping row with
  | error e =>
    cases isShown' : shown py mapping safe with
    | error e' =>
      refine iff_of_true ⟨fun d mapped => ?_, iff_of_true ⟨e', rfl⟩ ⟨e, rfl⟩⟩ rfl
      obtain ⟨h, shown', -⟩ := (mapRecord_of_settled py c form).mp mapped
      rw [isShown'] at shown'
      cases shown'
    | ok h' =>
      refine iff_of_false (fun truthful => ?_) nofun
      obtain ⟨e', refused⟩ := truthful.2.mpr ⟨e, rfl⟩
      cases refused
  | ok h =>
    cases isShown' : shown py mapping safe with
    | error e' =>
      refine iff_of_false (fun truthful => ?_) nofun
      obtain ⟨e, refused⟩ := truthful.2.mp ⟨e', rfl⟩
      cases refused
    | ok h' =>
      have sources := component_none_iff py sent isShown isShown'
      constructor
      · rintro ⟨kept, -⟩
        have mapped := (mapRecord_of_settled py c form).mpr ⟨h', isShown', rfl⟩
        obtain ⟨h'', shown'', same⟩ := (mapRecord_of_settled py c native).mp (kept _ mapped)
        rw [isShown] at shown''
        cases shown''
        rw [document_injective c sources same]
      · intro same
        have equal : h' = h := Option.some.inj same
        subst equal
        refine ⟨fun d mapped => ?_, iff_of_false nofun nofun⟩
        obtain ⟨h, shown', made⟩ := (mapRecord_of_settled py c form).mp mapped
        rw [isShown'] at shown'
        cases shown'
        exact (mapRecord_of_settled py c native).mpr ⟨h', isShown, made⟩

private def signedDigits (x : Int) : Text :=
  ofChars ((if x < 0 then ['-'] else []) ++ Nat.toDigits 10 x.natAbs)

private theorem signedDigits_head (x : Int) (point : Nat)
    (first : (signedDigits x ++ literal ".0").head? = some point) : point ∉ literal "v_" := by
  have digits : Nat.toDigits 10 x.natAbs ≠ [] := Nat.toDigits_ne_nil
  obtain ⟨digit, rest, shape⟩ := List.exists_cons_of_ne_nil digits
  have isDigit : digit.isDigit = true :=
    Lib.Decimal.digital_toDigits x.natAbs digit (by rw [shape]; exact List.mem_cons_self)
  unfold signedDigits at first
  rw [shape] at first
  split at first
  · cases first
    exact notMem_of_mark '-' (by simp)
  · cases first
    exact notMem_of_isDigit isDigit

private def foldAscii (point : Nat) : Text :=
  if 65 ≤ point ∧ point ≤ 90 then [point + 32] else [point]

private theorem foldAscii_bracket : ∀ point ∈ literal "[(\x7b", foldAscii point = [point] := by
  decide

private def wholeTimestampDay (value : Int ⊕ Int ⊕ PyDecimal) : Except Raised Nat := do
  let seconds ← match value with
    | .inl n => pure n
    | .inr (.inl x) => pure x
    | .inr (.inr d) => d.toInt
  require (0 < seconds / 86400 + 719163 ∧ seconds / 86400 + 719163 ≤ 3652059) .overflow
  pure (seconds / 86400 + 719163).toNat

def wholeFloats : Interpreter Int where
  maxStrDigits := 4300
  reprText := fun text => literal "'" ++ text ++ literal "'"
  floatText := fun x => signedDigits x ++ literal ".0"
  floatHex := fun x => signedDigits x ++ literal ".0"
  floatIsFinite := fun _ => true
  floatToInt := fun x => pure x
  intOfText := fun text => ((chars text).bind fun cs => (String.ofList cs).toInt?)
  intOfBytes := fun raw => ((ofUtf8 raw).bind chars).bind fun cs => (String.ofList cs).toInt?
  otherDecimal := fun _ => none
  otherDate := fun _ => none
  otherDateTime := fun _ => none
  zoneText := fun _ => literal "datetime.timezone.utc"
  timestampDay := wholeTimestampDay
  strip := fun text => (text.dropWhile isAsciiSpace).rdropWhile isAsciiSpace
  foldChar := foldAscii
  floatText_head := signedDigits_head
  foldChar_bracket := foldAscii_bracket

private theorem tupleMapping_required :
    literal "notes" ≠ [] ∧ literal "id" ≠ [] ∧ literal "text" ≠ [] := by
  decide

private theorem named_none : Named none := nofun

private theorem named_session : Named (some (literal "session")) := by
  rintro name ⟨⟩
  decide

private theorem tupleMapping_named : Named none ∧ Named (some (literal "session")) ∧ Named none ∧
    Named none ∧ Named none ∧ Named none ∧ Named none :=
  ⟨named_none, named_session, named_none, named_none, named_none, named_none, named_none⟩

private theorem one_inScope : 1 < 2 ^ 32 := by decide

def tupleMapping : DocumentMapping where
  namespace_ := literal "notes"
  idField := literal "id"
  textField := literal "text"
  sourceField := none
  sessionField := some (literal "session")
  sequenceField := none
  eventTimeField := none
  roleField := none
  speakerField := none
  versionField := none
  scopeId := 1
  required := tupleMapping_required
  named := tupleMapping_named
  inScope := one_inScope

private theorem tupleRow_nodup :
    ([literal "id", literal "text", literal "session"] : List Text).Nodup := by
  decide

def tupleRow : Row Int :=
  ⟨[(literal "id", .int 1), (literal "text", .text (literal "x")),
    (literal "session", .tuple [.int 1, .int 2])], tupleRow_nodup⟩

private theorem tupleRow_native : (mapRecord wholeFloats Engine.stdCrypto (literal "c")
    tupleMapping tupleRow).toOption.map MappedDocument.sessionId = some (literal "(1, 2)") := by
  decide

private theorem tupleRow_preview : (preview wholeFloats Engine.stdCrypto (literal "c")
    tupleMapping tupleRow).toOption.map MappedDocument.sessionId = some (literal "[1, 2]") := by
  decide

end ProofRay.Connectors
