/- JSON as it is spelled: numbers stand as their literals and texts may hold lone surrogates. A
   language writes such values in its own style. -/

import ProofRay.Lib.Json

namespace ProofRay.Lib

/-- A part of a text: a character, or a surrogate that is not one of a pair. -/
inductive Point where
  | char (c : Char)
  | lone (unit : Nat)
  deriving DecidableEq, Repr

namespace Point

def code : Point → Nat
  | .char c => c.toNat
  | .lone unit => unit

def units : Point → List Nat
  | .char c =>
    if c.toNat < 0x10000 then [c.toNat]
    else [0xd800 + (c.toNat - 0x10000) / 0x400, 0xdc00 + (c.toNat - 0x10000) % 0x400]
  | .lone unit => [unit]

end Point

abbrev Text := List Point

instance : LawfulBEq Text := inferInstance

def Text.ofString (s : String) : Text := s.toList.map .char

/-- A value of JSON, as it is spelled. -/
inductive Spelled where
  | null
  | bool (b : Bool)
  | number (literal : List Char)
  | str (s : Text)
  | arr (items : List Spelled)
  | obj (fields : List (Text × Spelled))

namespace Spelled

open Json (hexQuad skipSpace word)

/-- The part of a text that an escape of four digits stands for, where two surrogates stand for
one character. -/
def unicodeEscape (text : List Char) : Option (Point × List Char) := do
  let (high, rest) ← hexQuad text
  if 0xd800 ≤ high ∧ high < 0xdc00 then
    match rest with
    | '\\' :: 'u' :: behind =>
      match hexQuad behind with
      | some (low, behind) =>
        if 0xdc00 ≤ low ∧ low < 0xe000 then
          return (.char (Char.ofNat (0x10000 + (high - 0xd800) * 0x400 + (low - 0xdc00))), behind)
        else return (.lone high, rest)
      | none => none
    | _ => return (.lone high, rest)
  else if 0xdc00 ≤ high ∧ high < 0xe000 then return (.lone high, rest)
  else return (.char (Char.ofNat high), rest)

def unescape : List Char → Option (Point × List Char)
  | '"' :: rest => some (.char '"', rest)
  | '\\' :: rest => some (.char '\\', rest)
  | '/' :: rest => some (.char '/', rest)
  | 'b' :: rest => some (.char (Char.ofNat 8), rest)
  | 'f' :: rest => some (.char (Char.ofNat 12), rest)
  | 'n' :: rest => some (.char '\n', rest)
  | 'r' :: rest => some (.char '\r', rest)
  | 't' :: rest => some (.char '\t', rest)
  | 'u' :: rest => unicodeEscape rest
  | _ => none

def readString : Nat → List Char → Option (Text × List Char)
  | 0, _ => none
  | _, [] => none
  | fuel + 1, c :: rest =>
    if c = '"' then some ([], rest)
    else if c = '\\' then do
      let (p, rest) ← unescape rest
      let (ps, rest) ← readString fuel rest
      return (p :: ps, rest)
    else if c.toNat < 32 then none
    else do
      let (ps, rest) ← readString fuel rest
      return (.char c :: ps, rest)

def readDigits (text : List Char) : Option (List Char × List Char) :=
  let digits := text.takeWhile Char.isDigit
  if digits = [] then none else some (digits, text.dropWhile Char.isDigit)

def readFraction : List Char → Option (List Char × List Char)
  | '.' :: rest => (readDigits rest).map fun r => ('.' :: r.1, r.2)
  | rest => some ([], rest)

def readExponent : List Char → Option (List Char × List Char)
  | mark :: rest =>
    if mark = 'e' ∨ mark = 'E' then
      match rest with
      | '+' :: rest => (readDigits rest).map fun r => (mark :: '+' :: r.1, r.2)
      | '-' :: rest => (readDigits rest).map fun r => (mark :: '-' :: r.1, r.2)
      | rest => (readDigits rest).map fun r => (mark :: r.1, r.2)
    else some ([], mark :: rest)
  | [] => some ([], [])

def readUnsigned (text : List Char) : Option (List Char × List Char) := do
  let (whole, rest) ← readDigits text
  if whole.length ≠ 1 ∧ whole.head? = some '0' then none
  else do
    let (fraction, rest) ← readFraction rest
    let (exponent, rest) ← readExponent rest
    return (whole ++ fraction ++ exponent, rest)

/-- The fields of an object: the last value of a key stays, at the place of its first. -/
def collect (pairs : List (Text × Spelled)) : List (Text × Spelled) :=
  pairs.foldl (fun fields p => Dict.putEntry p.1 p.2 fields) []

mutual

def readValue : Nat → List Char → Option (Spelled × List Char)
  | 0, _ => none
  | fuel + 1, text =>
    match skipSpace text with
    | '"' :: rest => do
      let (s, rest) ← readString rest.length rest
      return (.str s, rest)
    | '[' :: rest =>
      match skipSpace rest with
      | ']' :: rest => some (.arr [], rest)
      | _ => do
        let (items, rest) ← readItems fuel rest
        return (.arr items, rest)
    | '\x7b' :: rest =>
      match skipSpace rest with
      | '\x7d' :: rest => some (.obj [], rest)
      | _ => do
        let (pairs, rest) ← readPairs fuel rest
        return (.obj (collect pairs), rest)
    | '-' :: rest => do
      let (literal, rest) ← readUnsigned rest
      return (.number ('-' :: literal), rest)
    | 'n' :: rest => do
      let rest ← word ['u', 'l', 'l'] rest
      return (.null, rest)
    | 't' :: rest => do
      let rest ← word ['r', 'u', 'e'] rest
      return (.bool true, rest)
    | 'f' :: rest => do
      let rest ← word ['a', 'l', 's', 'e'] rest
      return (.bool false, rest)
    | text => do
      let (literal, rest) ← readUnsigned text
      return (.number literal, rest)

def readItems : Nat → List Char → Option (List Spelled × List Char)
  | 0, _ => none
  | fuel + 1, text => do
    let (v, rest) ← readValue fuel text
    match skipSpace rest with
    | ']' :: rest => return ([v], rest)
    | ',' :: rest =>
      let (items, rest) ← readItems fuel rest
      return (v :: items, rest)
    | _ => none

def readPairs : Nat → List Char → Option (List (Text × Spelled) × List Char)
  | 0, _ => none
  | fuel + 1, text =>
    match skipSpace text with
    | '"' :: rest => do
      let (k, rest) ← readString rest.length rest
      match skipSpace rest with
      | ':' :: rest =>
        let (v, rest) ← readValue fuel rest
        match skipSpace rest with
        | '\x7d' :: rest => return ([(k, v)], rest)
        | ',' :: rest =>
          let (pairs, rest) ← readPairs fuel rest
          return ((k, v) :: pairs, rest)
        | _ => none
      | _ => none
    | _ => none

end

def read (text : List Char) : Option Spelled :=
  match readValue (text.length + 1) text with
  | some (v, rest) => if skipSpace rest = [] then some v else none
  | none => none

/-- How a language writes values: what it makes of the literal of a number and of a part of a text,
where it can write them, and what it sorts keys by. -/
structure Style where
  number : List Char → Option (List Char)
  point : Point → Option (List Char)
  key : Text → List Nat

def commas (texts : List (List Char)) : List Char := [','].intercalate texts

namespace Style

variable (s : Style)

def quote (t : Text) : Option (List Char) :=
  (t.mapM s.point).map fun parts => '"' :: parts.flatten ++ ['"']

def ordered {α : Type} (fields : List (Text × α)) : List (Text × α) :=
  fields.insertionSort fun a b => s.key a.1 ≤ s.key b.1

mutual

def write : Spelled → Option (List Char)
  | .null => some ['n', 'u', 'l', 'l']
  | .bool true => some ['t', 'r', 'u', 'e']
  | .bool false => some ['f', 'a', 'l', 's', 'e']
  | .number literal => s.number literal
  | .str t => s.quote t
  | .arr items => (writeItems items).map fun texts => '[' :: commas texts ++ [']']
  | .obj fields => (writeFields fields).map fun texts =>
    '\x7b' :: commas ((s.ordered texts).map Prod.snd) ++ ['\x7d']

def writeItems : List Spelled → Option (List (List Char))
  | [] => some []
  | v :: rest => do
    let text ← write v
    let texts ← writeItems rest
    return text :: texts

def writeFields : List (Text × Spelled) → Option (List (Text × List Char))
  | [] => some []
  | (k, v) :: rest => do
    let key ← s.quote k
    let text ← write v
    let texts ← writeFields rest
    return (k, key ++ ':' :: text) :: texts

end

mutual

/-- The value that is read of what the style writes: each number as it is written, and the keys in
order. -/
def settled : Spelled → Spelled
  | .null => .null
  | .bool b => .bool b
  | .number literal => .number ((s.number literal).getD literal)
  | .str t => .str t
  | .arr items => .arr (settledItems items)
  | .obj fields => .obj (s.ordered (settledFields fields))

def settledItems : List Spelled → List Spelled
  | [] => []
  | v :: rest => settled v :: settledItems rest

def settledFields : List (Text × Spelled) → List (Text × Spelled)
  | [] => []
  | (k, v) :: rest => (k, settled v) :: settledFields rest

end

end Style

end Spelled

end ProofRay.Lib
