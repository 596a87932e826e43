/- The values of a connector row, how Python shows them as text, and the tagged form in which a
   scalar travels as JSON. -/

import ProofRay.Lib.CodePoints
import ProofRay.Lib.Dict
import ProofRay.Lib.Guard
import ProofRay.Lib.IsoFormat
import ProofRay.Lib.Scientific

namespace ProofRay.Connectors

open Lib (Dict)
open Lib.CodePoints
open Lib.Decimal (Number Context scan)
open Lib.Gregorian (Date)
open Lib.Guard
open Lib.IsoFormat
open Lib.Struct (Bytes)

/-- What a mapping can raise. -/
inductive Raised where
  | invalid (message : String)
  | absent (field : Text)
  | overflow
  | os
  deriving DecidableEq, Repr

theorem limits_positive : 0 < 999999999999999999 := by decide

theorem limits_ordered : (-999999999999999999 : Int) ≤ 999999999999999999 := by decide

/-- `MAX_PREC`, `MIN_EMIN` and `MAX_EMAX`: the decimals that can be built. -/
def limits : Context :=
  ⟨999999999999999999, -999999999999999999, 999999999999999999, limits_positive, limits_ordered⟩

def Held (number : Number) : Prop := ∀ d, number = .finite d → limits.holds d = true

theorem held_finite {d : Lib.Decimal.Finite} (holds : limits.holds d = true) :
    Held (.finite d) := fun _ same => Number.finite.inj same ▸ holds

theorem held_infinity (negative : Bool) : Held (.infinity negative) := nofun

theorem held_nan (negative signaling : Bool) (payload : List Char) :
    Held (.nan negative signaling payload) := nofun

/-- A `Decimal`. -/
structure PyDecimal where
  number : Number
  held : Held number

def PyDecimal.ofNumber : Number → Option PyDecimal
  | .finite d => if held : limits.holds d = true then some ⟨.finite d, held_finite held⟩ else none
  | .infinity negative => some ⟨.infinity negative, held_infinity negative⟩
  | .nan negative signaling payload =>
    some ⟨.nan negative signaling payload, held_nan negative signaling payload⟩

theorem PyDecimal.ofNumber_number (d : PyDecimal) : PyDecimal.ofNumber d.number = some d := by
  obtain ⟨number, held⟩ := d
  cases number with
  | finite d => rw [PyDecimal.ofNumber, dif_pos (held d rfl)]
  | infinity negative => rfl
  | nan negative signaling payload => rfl

/-- `value.is_finite()`. -/
def PyDecimal.isFinite (d : PyDecimal) : Bool :=
  match d.number with
  | .finite _ => true
  | _ => false

/-- `int(value)`: the digits before the point. -/
def PyDecimal.toInt (d : PyDecimal) : Except Raised Int :=
  match d.number with
  | .finite d =>
    let size := if 0 ≤ d.exponent then d.coefficient * 10 ^ d.exponent.toNat
      else d.coefficient / 10 ^ (-d.exponent).toNat
    pure (if d.negative then -(size : Int) else size)
  | .infinity _ => .error .overflow
  | .nan _ _ _ => .error (.invalid "invalid integer coordinate")

/-- A `datetime`: what the clock shows, which of two equal readings is meant, and how the time zone
is written, if there is one. -/
structure DateTime where
  moment : Moment
  fold : Bool
  zone : Option Text

/-- What the interpreter decides: the setting for long integers, the floats, and the texts its
readers accept beside those its writers write. -/
structure Interpreter (F : Type) where
  /-- `sys.get_int_max_str_digits()`, 0 for no limit. -/
  maxStrDigits : Nat
  reprText : Text → Text
  floatText : F → Text
  floatHex : F → Text
  floatIsFinite : F → Bool
  floatToInt : F → Except Raised Int
  intOfText : Text → Option Int
  intOfBytes : Bytes → Option Int
  otherDecimal : Text → Option PyDecimal
  otherDate : Text → Option Date
  otherDateTime : Text → Option DateTime
  zoneText : Offset → Text
  /-- The day of `datetime.fromtimestamp(float(value), tz=timezone.utc)`. -/
  timestampDay : Int ⊕ F ⊕ PyDecimal → Except Raised Nat
  strip : Text → Text
  /-- The folding of one character; `str.casefold` folds each. -/
  foldChar : Nat → Text
  /-- A float is written with digits, or as `inf` or `nan`. -/
  floatText_head : ∀ x c, (floatText x).head? = some c → c ∉ literal "v_"
  /-- Brackets have no case. -/
  foldChar_bracket : ∀ c ∈ literal "[(\x7b", foldChar c = [c]

variable {F : Type} (py : Interpreter F)

def Interpreter.casefold (text : Text) : Text := text.flatMap py.foldChar

/-- The `str` of an integer, refused where it is too long. -/
def Interpreter.intText (n : Int) : Except Raised Text := do
  let digits := Nat.toDigits 10 n.natAbs
  require (¬ (py.maxStrDigits ≠ 0 ∧ py.maxStrDigits < digits.length))
    (.invalid "Exceeds the limit for integer string conversion")
  pure (ofChars ((if n < 0 then ['-'] else []) ++ digits))

/-- `Decimal(text)`. -/
def Interpreter.decimalOfText (text : Text) : Option PyDecimal :=
  match (chars text).bind scan with
  | some number => PyDecimal.ofNumber number
  | none => py.otherDecimal text

/-- `date.fromisoformat(text)`. -/
def Interpreter.dateOfText (text : Text) : Option Date :=
  match (chars text).bind readDate with
  | some (date, []) => some date
  | _ => py.otherDate text

/-- `datetime.fromisoformat(text)`. -/
def Interpreter.dateTimeOfText (text : Text) : Option DateTime :=
  match (chars text).bind readMoment with
  | some moment => some ⟨moment, false, moment.offset.map py.zoneText⟩
  | none => py.otherDateTime text

/-- `text.replace("Z", "+00:00")`. -/
def replaceZulu (text : Text) : Text :=
  text.flatMap fun c => if c = 90 then literal "+00:00" else [c]

def hexPoint (n : Nat) : Nat := if n < 10 then 48 + n else 87 + n

/-- `raw.hex()`. -/
def hex (raw : Bytes) : Text :=
  raw.flatMap fun x => [hexPoint (x.toNat / 16), hexPoint (x.toNat % 16)]

def nibble (c : Nat) : Option Nat :=
  if 48 ≤ c ∧ c ≤ 57 then some (c - 48)
  else if 97 ≤ c ∧ c ≤ 102 then some (c - 87)
  else if 65 ≤ c ∧ c ≤ 70 then some (c - 55)
  else none

def isAsciiSpace (c : Nat) : Bool := c = 32 || (9 ≤ c && c ≤ 13)

/-- `bytes.fromhex(text)`: pairs of digits, with spaces between them. -/
def fromHex : Text → Option Bytes
  | [] => some []
  | [c] => if isAsciiSpace c then some [] else none
  | c :: d :: rest =>
    if isAsciiSpace c then fromHex (d :: rest)
    else do
      let high ← nibble c
      let low ← nibble d
      let others ← fromHex rest
      pure (UInt8.ofNat (16 * high + low) :: others)

private theorem nibble_hexPoint : ∀ n < 16, nibble (hexPoint n) = some n ∧
    isAsciiSpace (hexPoint n) = false := by
  decide

theorem fromHex_hex (raw : Bytes) : fromHex (hex raw) = some raw := by
  induction raw with
  | nil => rfl
  | cons x raw ih =>
    have byte : x.toNat < 256 := x.toNat_lt
    obtain ⟨high, noSpace⟩ := nibble_hexPoint (x.toNat / 16) (by omega)
    obtain ⟨low, -⟩ := nibble_hexPoint (x.toNat % 16) (Nat.mod_lt _ (by decide))
    have whole : UInt8.ofNat (16 * (x.toNat / 16) + x.toNat % 16) = x := by
      rw [Nat.div_add_mod, UInt8.ofNat_toNat]
    have later : fromHex (raw.flatMap fun x =>
        [hexPoint (x.toNat / 16), hexPoint (x.toNat % 16)]) = some raw := ih
    rw [hex, List.flatMap_cons, List.cons_append, List.cons_append, List.nil_append, fromHex,
      noSpace]
    simp only [Bool.false_eq_true, if_false, high, low, later, bind, Option.bind, whole]
    rfl

/-- A value of a row. -/
inductive Value (F : Type) where
  | none
  | bool (b : Bool)
  | int (n : Int)
  | float (x : F)
  | decimal (d : PyDecimal)
  | text (s : Text)
  | bytes (raw : Bytes)
  | date (d : Date)
  | datetime (t : DateTime)
  | list (items : List (Value F))
  | tuple (items : List (Value F))
  | dict (items : List (Value F × Value F))

/-- `", ".join(parts)`. -/
def joinComma : List Text → Text := List.intercalate (literal ", ")

def natText (n : Nat) : Text := ofChars (Nat.toDigits 10 n)

def byteText (quote : Nat) (x : UInt8) : Text :=
  let c := x.toNat
  if c = quote ∨ c = 92 then [92, c]
  else if c = 9 then literal "\\t"
  else if c = 10 then literal "\\n"
  else if c = 13 then literal "\\r"
  else if 32 ≤ c ∧ c < 127 then [c]
  else literal "\\x" ++ [hexPoint (c / 16), hexPoint (c % 16)]

/-- `repr(raw)`: double quotes only around a single one. -/
def reprBytes (raw : Bytes) : Text :=
  let quote := if 39 ∈ raw ∧ 34 ∉ raw then 34 else 39
  literal "b" ++ [quote] ++ raw.flatMap (byteText quote) ++ [quote]

/-- `repr(date)`. -/
def reprDate (d : Date) : Text :=
  literal "datetime.date(" ++ joinComma [natText d.year, natText d.month, natText d.day] ++
    literal ")"

/-- `repr(datetime)`. -/
def reprDateTime (t : DateTime) : Text :=
  let m := t.moment
  let small := if m.time.second = 0 ∧ m.time.microsecond = 0 then []
    else if m.time.microsecond = 0 then [natText m.time.second]
    else [natText m.time.second, natText m.time.microsecond]
  let fold := if t.fold then [literal "fold=1"] else []
  let zone := match t.zone with
    | some zone => [literal "tzinfo=" ++ zone]
    | Option.none => []
  literal "datetime.datetime(" ++
    joinComma ([natText m.date.year, natText m.date.month, natText m.date.day,
      natText m.time.hour, natText m.time.minute] ++ small ++ fold ++ zone) ++ literal ")"

mutual

/-- `repr(value)`. -/
def reprValue : Value F → Except Raised Text
  | .none => pure (literal "None")
  | .bool b => pure (if b then literal "True" else literal "False")
  | .int n => py.intText n
  | .float x => pure (py.floatText x)
  | .decimal d => pure (literal "Decimal('" ++ ofChars d.number.text ++ literal "')")
  | .text s => pure (py.reprText s)
  | .bytes raw => pure (reprBytes raw)
  | .date d => pure (reprDate d)
  | .datetime t => pure (reprDateTime t)
  | .list items => do
    let parts ← reprList items
    pure (literal "[" ++ joinComma parts ++ literal "]")
  | .tuple items => do
    let parts ← reprList items
    match parts with
    | [one] => pure (literal "(" ++ one ++ literal ",)")
    | _ => pure (literal "(" ++ joinComma parts ++ literal ")")
  | .dict items => do
    let parts ← reprItems items
    pure (literal "\x7b" ++ joinComma parts ++ literal "\x7d")

def reprList : List (Value F) → Except Raised (List Text)
  | [] => pure []
  | v :: rest => do
    let part ← reprValue v
    let parts ← reprList rest
    pure (part :: parts)

def reprItem : Value F × Value F → Except Raised Text
  | (key, value) => do
    let left ← reprValue key
    let right ← reprValue value
    pure (left ++ literal ": " ++ right)

def reprItems : List (Value F × Value F) → Except Raised (List Text)
  | [] => pure []
  | item :: rest => do
    let part ← reprItem item
    let parts ← reprItems rest
    pure (part :: parts)

end

/-- `str(value)`. -/
def strValue : Value F → Except Raised Text
  | .text s => pure s
  | .decimal d => pure (ofChars d.number.text)
  | .date d => pure (ofChars (dateText d))
  | .datetime t => pure (ofChars (momentText ' ' t.moment))
  | v => reprValue py v

def transportTag : Text := literal "__proofray_transport_scalar_v1__"

def tagged (kind : String) (raw : Text) : Value F :=
  .dict [(.text transportTag, .text (literal kind)), (.text (literal "value"), .text raw)]

def pickItem (name : Text) (found : Option (Value F)) (item : Value F × Value F) :
    Option (Value F) :=
  match item.1 with
  | .text key => if key = name then some item.2 else found
  | _ => found

/-- `value.get(name)`: the keys of a mapping are distinct, so at most one of them is the name. -/
def getItem (name : Text) (items : List (Value F × Value F)) : Option (Value F) :=
  items.foldl (pickItem name) Option.none

mutual

/-- `_json_value`. -/
def jsonValue : Value F → Except Raised (Value F)
  | .none => pure .none
  | .bool b => pure (.bool b)
  | .int n => pure (.int n)
  | .float x => pure (.float x)
  | .text s => pure (.text s)
  | .bytes raw => pure (tagged "bytes" (hex raw))
  | .decimal d => do
    require (d.isFinite = true) (.invalid "connector decimal sample must be finite")
    pure (tagged "decimal" (ofChars d.number.text))
  | .datetime t => pure (tagged "datetime" (ofChars (momentText 'T' t.moment)))
  | .date d => pure (tagged "date" (ofChars (dateText d)))
  | .dict items => do
    let pairs ← jsonItems items
    pure (.dict ((Dict.empty.update pairs).items.map fun item => (.text item.1, item.2)))
  | .tuple items => do
    let items ← jsonList items
    pure (.list items)
  | .list items => do
    let items ← jsonList items
    pure (.list items)

def jsonList : List (Value F) → Except Raised (List (Value F))
  | [] => pure []
  | v :: rest => do
    let first ← jsonValue v
    let others ← jsonList rest
    pure (first :: others)

def jsonItem : Value F × Value F → Except Raised (Text × Value F)
  | (key, value) => do
    let name ← strValue py key
    let safe ← jsonValue value
    pure (name, safe)

def jsonItems : List (Value F × Value F) → Except Raised (List (Text × Value F))
  | [] => pure []
  | item :: rest => do
    let first ← jsonItem item
    let others ← jsonItems rest
    pure (first :: others)

end

def taggedScalar (kind raw : Text) : Option (Except Raised (Value F)) :=
  if kind = literal "bytes" then some do
    let raw ← orThrow (fromHex raw) (.invalid "invalid transported byte scalar")
    pure (.bytes raw)
  else if kind = literal "decimal" then some do
    let d ← orThrow (py.decimalOfText raw) (.invalid "invalid transported decimal scalar")
    require (d.isFinite = true) (.invalid "transported decimal scalar must be finite")
    pure (.decimal d)
  else if kind = literal "datetime" then some do
    let t ← orThrow (py.dateTimeOfText (replaceZulu raw))
      (.invalid "invalid transported datetime scalar")
    pure (.datetime t)
  else if kind = literal "date" then some do
    let d ← orThrow (py.dateOfText raw) (.invalid "invalid transported date scalar")
    pure (.date d)
  else none

/-- `_transport_scalar`. -/
def transportScalar : Value F → Except Raised (Value F)
  | .dict items =>
    match getItem transportTag items, getItem (literal "value") items with
    | some (.text kind), some (.text raw) => (taggedScalar py kind raw).getD (pure (.dict items))
    | _, _ => pure (.dict items)
  | v => pure v

end ProofRay.Connectors
