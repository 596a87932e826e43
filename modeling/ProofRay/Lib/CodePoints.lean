/- Texts as sequences of code points, unpaired surrogates included, and their bytes in UTF-8. -/

import ProofRay.Lib.Struct

namespace ProofRay.Lib.CodePoints

open Lib.Struct (Bytes)

abbrev Text := List Nat

def ofChars (chars : List Char) : Text := chars.map Char.toNat

def literal (s : String) : Text := ofChars s.toList

def scalar (point : Nat) : Option Char :=
  if point.isValidChar then some (Char.ofNat point) else none

def chars (text : Text) : Option (List Char) := text.mapM scalar

def utf8 (text : Text) : Option Bytes :=
  (chars text).map fun cs => (String.ofList cs).toUTF8.data.toList

def ofUtf8 (raw : Bytes) : Option Text :=
  (String.fromUTF8? ⟨raw.toArray⟩).map fun s => ofChars s.toList

private theorem toNat_of_scalar {point : Nat} {c : Char} (h : scalar point = some c) :
    c.toNat = point := by
  unfold scalar at h
  split at h
  · next valid =>
    cases h
    rw [Char.ofNat, dif_pos valid]
    rfl
  · cases h

variable {text : Text}

theorem ofChars_of_chars {cs : List Char} (h : chars text = some cs) : ofChars cs = text := by
  unfold chars at h
  induction text generalizing cs with
  | nil =>
    cases h
    rfl
  | cons point text ih =>
    rw [List.mapM_cons] at h
    obtain ⟨c, first, h⟩ := Option.bind_eq_some_iff.mp h
    obtain ⟨rest, others, h⟩ := Option.bind_eq_some_iff.mp h
    cases h
    have later : rest.map Char.toNat = text := ih others
    rw [ofChars, List.map_cons, toNat_of_scalar first, later]

theorem scalar_toNat (c : Char) : scalar c.toNat = some c := by
  have valid : c.toNat.isValidChar := c.valid
  rw [scalar, if_pos valid, Char.ofNat_toNat]

@[simp] theorem chars_ofChars (cs : List Char) : chars (ofChars cs) = some cs := by
  unfold chars ofChars
  induction cs with
  | nil => rfl
  | cons c cs ih =>
    rw [List.map_cons, List.mapM_cons, ih, scalar_toNat]
    rfl

private theorem fromUTF8_toUTF8 (s : String) : String.fromUTF8? s.toUTF8 = some s := by
  simp [String.fromUTF8?, String.fromUTF8, s.isValidUTF8]

theorem ofUtf8_of_utf8 {raw : Bytes} (h : utf8 text = some raw) : ofUtf8 raw = some text := by
  obtain ⟨cs, scalars, rfl⟩ := Option.map_eq_some_iff.mp h
  have back : String.fromUTF8? ⟨(String.ofList cs).toUTF8.data.toList.toArray⟩ =
      some (String.ofList cs) := by
    simpa using fromUTF8_toUTF8 (String.ofList cs)
  rw [ofUtf8, back, Option.map_some, String.toList_ofList, ofChars_of_chars scalars]

end ProofRay.Lib.CodePoints
