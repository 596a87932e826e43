/- One ledger in two languages: which records that the one writes the other accepts. -/

import ProofRay.Host.SidecarRecord
import ProofRay.Lib.SpelledJson
import ProofRay.Sidecar.LedgerReopen

namespace ProofRay.Host

open Engine (Bytes Crypto stdCrypto)
open Lib (Dict Json Point Spelled Text)
open Lib.Guard
open Lib.Spelled (Plain Settled Style)
open Sidecar
open Lib.Spelled (by_parts fineFields_iff ofFields ofFields_eq ofJson onceFields_iff once_of_read
  plain_ofString readValue read_write settledFields_iff write_ofJson)
open Lib.Text (ofString)

def NarrowKey (k : String) : Prop := k.toList.all (fun c => c.toNat < 0x10000) = true

instance (k : String) : Decidable (NarrowKey k) := inferInstanceAs (Decidable (_ = _))

theorem byCharacter_python (k : String) : python.ByCharacter k := List.map_map

theorem NarrowKey.byCharacter_dart {k : String} (narrow : NarrowKey k) : dart.ByCharacter k := by
  have each := List.all_eq_true.mp narrow
  change (k.toList.map Point.char).flatMap Point.units = k.toList.map Char.toNat
  rw [List.flatMap_map, List.map_eq_flatMap]
  refine List.flatMap_congr fun c member => ?_
  have below : c.toNat < 0x10000 := of_decide_eq_true (each c member)
  rw [Point.units, if_pos below]

theorem keyed_optional {α : Type} {p : String → Prop} {write : α → Json} (o : Option α)
    (inside : ∀ a, (write a).Keyed p) : (optional write o).Keyed p := by
  cases o with
  | none => trivial
  | some a => exact inside a

theorem keyed_optional_nat (p : String → Prop) (o : Option Nat) :
    (optional (fun n : Nat => .int n) o).Keyed p :=
  keyed_optional o fun _ => trivial

theorem keyed_optional_str (p : String → Prop) (o : Option String) : (optional .str o).Keyed p :=
  keyed_optional o fun _ => trivial

theorem keyed_factPayload (f : FactFields) : (factPayload f).Keyed NarrowKey := by
  have keys : ∀ k ∈ ["asserted", "causes", "event_id", "event_time", "fact_id", "observed_at",
      "polarity", "predicate", "scope", "source_id", "source_sha256", "source_span", "subject",
      "unit", "value", "version"], NarrowKey k := by decide
  simp only [List.forall_mem_cons] at keys
  simp [factPayload, Json.Keyed, keys]

theorem keyed_lifecyclePayload (l : LifecycleFields) : (lifecyclePayload l).Keyed NarrowKey := by
  have keys : ∀ k ∈ ["authorization_reference", "purpose", "supersedes", "valid_from",
      "valid_until"], NarrowKey k := by decide
  simp only [List.forall_mem_cons] at keys
  simp [lifecyclePayload, Json.Keyed, keyed_optional_nat, keys]

theorem keyed_intentPayload (i : IntentFields) : (intentPayload i).Keyed NarrowKey := by
  have keys : ∀ k ∈ ["fact_ids", "insertion_order", "intent_id", "session_id", "text",
      "turn_index"], NarrowKey k := by decide
  simp only [List.forall_mem_cons] at keys
  simp [intentPayload, Json.Keyed, keyed_optional_nat, keyed_optional_str, keys]

theorem keyed_routeMetadataPayload (m : RouteFields) :
    (routeMetadataPayload m).Keyed NarrowKey := by
  have keys : ∀ k ∈ ["event_time", "generation_id", "observed_intents", "role", "scope_id",
      "sequence", "session_id", "span", "speaker", "version"], NarrowKey k := by decide
  simp only [List.forall_mem_cons] at keys
  have span : (optional (fun s : Nat × Nat => .arr [.int s.1, .int s.2]) m.span).Keyed NarrowKey :=
    keyed_optional _ fun _ => ⟨trivial, trivial, trivial⟩
  have role : (optional (fun r : Role => .str r.text) m.role).Keyed NarrowKey :=
    keyed_optional _ fun _ => trivial
  unfold routeMetadataPayload
  split <;> simp [Json.Keyed, keyed_optional_nat, keyed_optional_str, keyed_intentPayload, span,
    role, keys]

theorem keyed_attestedPayload (item : AttestedSidecarFact) :
    (attestedPayload item).Keyed NarrowKey := by
  have keys : ∀ k ∈ ["attestation_sha256", "authority_sha256", "fact", "lifecycle",
      "route_metadata"], NarrowKey k := by decide
  simp only [List.forall_mem_cons] at keys
  have fact := keyed_factPayload item.fact.toFactFields
  have lifecycle := keyed_lifecyclePayload item.lifecycle.toLifecycleFields
  unfold attestedPayload
  cases item.routeMetadata with
  | none => simp [Json.Keyed, fact, lifecycle, keys]
  | some m =>
    have metadata := keyed_routeMetadataPayload m.toRouteFields
    simp [Json.Keyed, fact, lifecycle, metadata, keys]

theorem keyed_claimPayload (claim : AttestedCompletenessClaim) :
    (claimPayload claim).Keyed NarrowKey := by
  have keys : ∀ k ∈ ["attestation_sha256", "authority_sha256", "fact_ids", "predicate", "scope",
      "source_id", "source_sha256", "subject"], NarrowKey k := by decide
  simp only [List.forall_mem_cons] at keys
  simp [claimPayload, Json.Keyed, keys]

theorem keyed_json (r : SidecarRecord) : r.json.Keyed NarrowKey := by
  have keys : ∀ k ∈ ["adapter_id", "authority_sha256", "completeness_claims", "content", "facts",
      "previous_sha256", "record_sha256", "schema", "scope", "sequence", "source_id",
      "source_sha256"], NarrowKey k := by decide
  simp only [List.forall_mem_cons] at keys
  simp [SidecarRecord.json, Json.Keyed, keyed_attestedPayload, keyed_claimPayload, keys]

theorem settled_dart_iff (r : SidecarRecord) :
    Settled dart (.ofJson r.json) ↔ r.json.Ints InInt64 := by
  rw [Spelled.settled_ofJson_iff r.ordered_json
    ((keyed_json r).mono fun k narrow => narrow.byCharacter_dart)]
  exact Json.ints_congr dartNumber_number_iff r.json

theorem settled_python {v : Json} (ordered : v.Ordered) (ints : v.Ints InInt64) :
    Settled python (.ofJson v) := by
  rw [Spelled.settled_ofJson_iff ordered (Json.keyed_of_forall byCharacter_python v)]
  exact ints.mono fun i small => pythonNumber_number small

mutual

/-- No text holds a surrogate that stands alone, each double is laid out alike, and the keys of
each object stand in the order of their code points. -/
def Alike : Spelled → Prop
  | .null => True
  | .bool _ => True
  | .number l => LaidAlike l
  | .str t => Plain t
  | .arr items => AlikeItems items
  | .obj fields => (fields.Pairwise fun a b => a.1.map Point.code ≤ b.1.map Point.code) ∧
      AlikeFields fields

def AlikeItems : List Spelled → Prop
  | [] => True
  | v :: rest => Alike v ∧ AlikeItems rest

def AlikeFields : Fields → Prop
  | [] => True
  | (k, v) :: rest => Plain k ∧ Alike v ∧ AlikeFields rest

end

theorem alikeItems_iff (items : List Spelled) : AlikeItems items ↔ ∀ v ∈ items, Alike v := by
  induction items with
  | nil => simp [AlikeItems]
  | cons v rest ih => simp [AlikeItems, ih]

theorem alikeFields_iff (fields : Fields) :
    AlikeFields fields ↔ ∀ p ∈ fields, Plain p.1 ∧ Alike p.2 := by
  induction fields with
  | nil => simp [AlikeFields]
  | cons p rest ih =>
    obtain ⟨k, v⟩ := p
    rw [AlikeFields, ih, List.forall_mem_cons, and_assoc]

theorem settled_python_iff {v : Spelled} : Settled dart v → (Settled python v ↔ Alike v) := by
  induction v using by_parts with
  | null => exact fun _ => Iff.rfl
  | bool b => exact fun _ => Iff.rfl
  | number l => exact fun spelled => pythonNumber_iff spelled
  | str t => exact fun _ => Iff.rfl
  | arr items ih =>
    intro settled
    have inside := (Spelled.settledItems_iff items).mp settled
    rw [Settled, Alike, Spelled.settledItems_iff, alikeItems_iff]
    exact forall₂_congr fun v member => ih v member (inside v member)
  | obj fields ih =>
    rintro ⟨once, -, inside⟩
    have inside := (settledFields_iff fields).mp inside
    rw [Settled, Alike, settledFields_iff, alikeFields_iff]
    have each : (∀ p ∈ fields, Plain p.1 ∧ Settled python p.2) ↔
        ∀ p ∈ fields, Plain p.1 ∧ Alike p.2 :=
      forall₂_congr fun p member => and_congr_right fun _ => ih p member (inside p member).2
    rw [each]
    exact and_iff_right once

section Checks

variable (c : Crypto)

/-- What both checks ask of the fields of a record, with what counts as its place and a style for
the text under its digest. -/
structure Holds (style : Style) (is : Nat → Spelled → Bool) (n : Nat) (previous : String)
    (fields : Fields) (unsigned : List Char) : Prop where
  schema : textField (without "record_sha256" fields) "schema" = some recordSchema
  place : (field (without "record_sha256" fields) "sequence").any (is n) = true
  chained : textField (without "record_sha256" fields) "previous_sha256" = some (.ofString previous)
  written : style.write (.obj (without "record_sha256" fields)) = some unsigned
  claimed : textField fields "record_sha256" = some (.ofString (textSha256 c unsigned))

def under (digest : String) (fields : Fields) : Fields :=
  without "record_sha256" fields ++ [(.ofString "record_sha256", .str (.ofString digest))]

theorem validateSidecarRecord_eq_ok {payload : Bytes} {n : Nat} {previous : String}
    {v : ValidatedSidecarRecord} :
    validateSidecarRecord c payload n previous = .ok v ↔ ∃ text fields unsigned,
      utf8Decode payload = some text ∧ Spelled.read text = some (.obj fields) ∧
      Holds c dart dartIs n previous fields unsigned ∧
      dart.write (.obj (under (textSha256 c unsigned) fields)) = some text ∧
      v = ⟨n, previous, textSha256 c unsigned, payload,
        ((textField (without "record_sha256" fields) "source_id").bind messageParts).map
          fun parts => parts.2,
        ((textField (without "record_sha256" fields) "source_id").bind messageParts).map
          fun parts => .ofString "conversation:" ++ parts.1 ++ .ofString ":" ++ parts.2⟩ := by
  simp only [validateSidecarRecord, bind_eq_ok, orThrow_eq_ok, require_eq_ok, pure_eq_ok]
  constructor
  · rintro ⟨text, decoded, value, read, fields, object, digest, found, -, schema, -, place, -,
      chained, claimed, isText, unsigned, written, -, same, text', signed, -, rfl, rfl⟩
    cases value <;> cases object
    have claimed : textField fields "record_sha256" = some (.ofString (textSha256 c unsigned)) := by
      rw [textField, found, Option.bind_some, isText, same]
    subst same
    exact ⟨text', fields, unsigned, decoded, read, ⟨schema, place, chained, written, claimed⟩,
      signed, rfl⟩
  · rintro ⟨text, fields, unsigned, decoded, read, holds, signed, rfl⟩
    obtain ⟨digest, found, isText⟩ := Option.bind_eq_some_iff.mp holds.claimed
    exact ⟨text, decoded, .obj fields, read, fields, rfl, digest, found, (), holds.schema, (),
      holds.place, (), holds.chained, _, isText, unsigned, holds.written, (), rfl, text, signed, (),
      rfl, rfl⟩

theorem readRecord_eq_ok {raw : Bytes} {n : Nat} {previous : String} {digest : String}
    {fields' : Fields} :
    readRecord c n previous raw = .ok (digest, fields') ↔ ∃ line fields unsigned,
      raw ≠ [] ∧ decode raw = some line ∧ Spelled.read line.toList = some (.obj fields) ∧
      Holds c python pythonIs n previous fields unsigned ∧
      digest = textSha256 c unsigned ∧ fields' = under digest fields := by
  simp only [readRecord, bind_eq_ok, orThrow_eq_ok, require_eq_ok, pure_eq_ok, Prod.mk.injEq]
  constructor
  · rintro ⟨-, nonempty, line, decoded, value, read, fields, object, -, schema, -, place, -,
      chained, unsigned, written, -, claimed, rfl, rfl⟩
    cases value <;> cases object
    exact ⟨line, fields, unsigned, nonempty, decoded, read,
      ⟨schema, place, chained, written, claimed⟩, rfl, rfl⟩
  · rintro ⟨line, fields, unsigned, nonempty, decoded, read, holds, rfl, rfl⟩
    exact ⟨(), nonempty, line, decoded, .obj fields, read, fields, rfl, (), holds.schema, (),
      holds.place, (), holds.chained, unsigned, holds.written, (), holds.claimed, rfl, rfl⟩

end Checks

variable {fields : Fields} {key : String} {n : Nat} {v : ValidatedSidecarRecord} {previous : String}
  {digest : String} {payload : Bytes}

theorem mem_without {p : Text × Spelled} :
    p ∈ without key fields ↔ p ∈ fields ∧ p.1 ≠ .ofString key := by
  simp [without]

theorem field_eq_some_iff (once : (fields.map Prod.fst).Nodup) {v : Spelled} :
    field fields key = some v ↔ (ofString key, v) ∈ fields :=
  Dict.get_eq_some_iff ⟨fields, once⟩ _ v

theorem mem_of_textField (once : (fields.map Prod.fst).Nodup) {t : Text}
    (found : textField fields key = some t) : (ofString key, .str t) ∈ fields := by
  obtain ⟨v, there, isText⟩ := Option.bind_eq_some_iff.mp found
  cases v <;> cases isText
  exact (field_eq_some_iff once).mp there

theorem perm_under (once : (fields.map Prod.fst).Nodup)
    (found : textField fields "record_sha256" = some (.ofString digest)) :
    fields.Perm (under digest fields) := by
  have only : fields.filter (fun p => ¬p.1 ≠ ofString "record_sha256") =
      [(ofString "record_sha256", .str (.ofString digest))] := by
    have member := mem_of_textField once found
    obtain ⟨front, behind, rfl⟩ := List.append_of_mem member
    rw [List.map_append, List.map_cons] at once
    have apart := List.nodup_middle.mp once
    rw [List.nodup_cons, List.mem_append, not_or] at apart
    have none {l : Fields} (absent : ofString "record_sha256" ∉ l.map Prod.fst) :
        l.filter (fun p => ¬p.1 ≠ ofString "record_sha256") = [] := by
      refine List.filter_eq_nil_iff.mpr fun p member same => absent ?_
      have same : p.1 = ofString "record_sha256" := by simpa using same
      exact same ▸ List.mem_map_of_mem member
    rw [List.filter_append, List.filter_cons_of_pos (by simp), none apart.1.1, none apart.1.2]
    rfl
  have parts := List.filter_append_perm (fun p : Text × Spelled =>
    p.1 ≠ ofString "record_sha256") fields
  rw [show (fields.filter fun p => !decide (p.1 ≠ ofString "record_sha256")) =
    [(ofString "record_sha256", .str (.ofString digest))] by simpa using only] at parts
  exact parts.symm

theorem once_without (once : (fields.map Prod.fst).Nodup) :
    ((without key fields).map Prod.fst).Nodup :=
  once.sublist (List.filter_sublist.map Prod.fst)

theorem settled_without {s : Style} (settled : Settled s (.obj fields)) :
    Settled s (.obj (without key fields)) := by
  obtain ⟨once, sorted, inside⟩ := settled
  have inside := (settledFields_iff fields).mp inside
  exact ⟨once_without once, sorted.sublist List.filter_sublist,
    (settledFields_iff _).mpr fun p member => inside p (mem_without.mp member).1⟩

theorem settled_of_written {text : List Char} (fine : (Spelled.obj fields).Fine)
    (found : textField fields "record_sha256" = some (.ofString digest))
    (read : Spelled.read text = some (.obj fields))
    (written : dart.write (.obj (under digest fields)) = some text) :
    Settled dart (.obj fields) := by
  have perm := perm_under fine.1 found
  have inside := (fineFields_iff fields).mp fine.2
  have fine' : (Spelled.obj (under digest fields)).Fine :=
    ⟨(perm.map Prod.fst).nodup_iff.mp fine.1,
      (fineFields_iff _).mpr fun p member => inside p (perm.mem_iff.mpr member)⟩
  have back := read_write lawful_dart fine' written
  rw [read, Style.settled, Option.some.injEq, Spelled.obj.injEq, Style.settledFields_eq] at back
  have sorted : fields.Pairwise fun a b => dart.key a.1 ≤ dart.key b.1 := by
    rw [back]
    exact Style.pairwise_ordered _
  refine ⟨fine.1, sorted, (settledFields_iff fields).mpr fun p member => ?_⟩
  have again : (p.1, dart.settled p.2) ∈ fields := by
    rw [back]
    exact (Style.perm_ordered _).mem_iff.mpr (List.mem_map.mpr ⟨p, perm.mem_iff.mp member, rfl⟩)
  have same : dart.settled p.2 = p.2 :=
    congrArg Prod.snd (List.inj_on_of_nodup_map fine.1 again member rfl)
  obtain ⟨text', there⟩ := Style.write_of_field written (perm.mem_iff.mp member)
  exact ⟨(inside p member).1, Spelled.settled_of_write (inside p member).2 there same⟩

theorem text_bytes (r : SidecarRecord) : r.bytes = encode (String.ofList r.json.compact) := by
  rw [SidecarRecord.bytes, canonicalJson, Json.dumps, Json.sortKeys_of_ordered r.ordered_json]

theorem utf8Decode_of_decode {line : String} (decoded : decode payload = some line)
    (unmarked : line.toList.head? ≠ some '\ufeff') : utf8Decode payload = some line.toList := by
  rw [utf8Decode, decoded, Option.map_some, Option.some.injEq]
  cases chars : line.toList with
  | nil => rfl
  | cons c cs =>
    rw [chars, List.head?_cons, Ne, Option.some.injEq] at unmarked
    split
    · rename_i same
      exact absurd (List.cons.inj same).1 unmarked
    · rfl

theorem decode_bytes (r : SidecarRecord) :
    decode r.bytes = some (String.ofList r.json.compact) := by
  rw [text_bytes, decode_encode]

theorem utf8Decode_bytes (r : SidecarRecord) : utf8Decode r.bytes = some r.json.compact := by
  rw [utf8Decode_of_decode (decode_bytes r), String.toList_ofList]
  rw [String.toList_ofList]
  exact fun marked => by cases marked

def jsonFields (r : SidecarRecord) : Fields :=
  ofFields (((asFields r.json)).getD [])

theorem without_ofFields (key : String) (fields : List (String × Json)) :
    without key (ofFields fields) = ofFields (fields.filter fun f => f.1 ≠ key) := by
  rw [without, ofFields_eq, ofFields_eq, List.filter_map]
  congr 1
  refine List.filter_congr fun f _ => ?_
  have same : ofString f.1 = ofString key ↔ f.1 = key :=
    ⟨Spelled.ofString_injective, congrArg _⟩
  simp [same]

theorem field_ofFields (fields : List (String × Json)) (key : String) :
    field (ofFields fields) key = (Dict.lookupEntry key fields).map ofJson := by
  induction fields with
  | nil => rfl
  | cons f rest ih =>
    obtain ⟨k, v⟩ := f
    have same : ofString k = ofString key ↔ k = key :=
      ⟨Spelled.ofString_injective, congrArg _⟩
    rw [field, ofFields, Dict.lookupEntry, Dict.lookupEntry]
    by_cases here : k = key
    · rw [if_pos (same.mpr here), if_pos here, Option.map_some]
    · rw [if_neg fun there => here (same.mp there), if_neg here]
      exact ih

theorem without_jsonFields (r : SidecarRecord) :
    without "record_sha256" (jsonFields r) = ofFields ((asFields r.unsigned).getD []) := by
  rw [jsonFields, without_ofFields]
  simp [SidecarRecord.json, SidecarRecord.unsigned, asFields]

theorem ordered_unsigned (r : SidecarRecord) : r.unsigned.Ordered := by
  obtain ⟨keys, inside⟩ := r.ordered_json
  refine ⟨by simp only [Json.KeysOrdered, List.map]; decide, ?_⟩
  obtain ⟨adapter, authority, claims, content, facts, previous, -, rest⟩ := inside
  exact ⟨adapter, authority, claims, content, facts, previous, rest⟩

theorem holds_jsonFields {c : Crypto} {style : Style} {is : Nat → Spelled → Bool}
    (lawful : style.Lawful) (r : SidecarRecord) (signed : r.recordSha256 = r.hash c)
    (settled : Settled style (.obj (jsonFields r)))
    (place : is r.sequence (.number (Json.number r.sequence)) = true) :
    Holds c style is r.sequence r.previousSha256 (jsonFields r) r.unsigned.compact := by
  have without_ : Spelled.obj (without "record_sha256" (jsonFields r)) = .ofJson r.unsigned := by
    rw [without_jsonFields]
    rfl
  have text : textSha256 c r.unsigned.compact = r.recordSha256 := by
    rw [signed, SidecarRecord.hash, canonicalJson, Json.dumps,
      Json.sortKeys_of_ordered (ordered_unsigned r)]
    rfl
  have unsigned : Settled style (.ofJson r.unsigned) := without_ ▸ settled_without settled
  constructor
  · rw [without_jsonFields, textField, field_ofFields]
    simp [SidecarRecord.unsigned, asFields, Dict.lookupEntry, ofJson, asText, recordSchema,
      SidecarRecord.schema]
  · rw [without_jsonFields, field_ofFields]
    simp [SidecarRecord.unsigned, asFields, Dict.lookupEntry, ofJson, place]
  · rw [without_jsonFields, textField, field_ofFields]
    simp [SidecarRecord.unsigned, asFields, Dict.lookupEntry, ofJson, asText]
  · rw [without_]
    exact write_ofJson lawful unsigned
  · rw [text, textField, jsonFields, field_ofFields]
    simp [SidecarRecord.json, asFields, Dict.lookupEntry, ofJson, asText]

theorem dartIs_number (small : InInt64 n) : dartIs n (.number (Json.number n)) = true := by
  simp [dartIs, isWhole_number, wholeValue_number, small]

theorem write_under (r : SidecarRecord) (ints : r.json.Ints InInt64) :
    dart.write (.obj (under r.recordSha256 (jsonFields r))) = some r.json.compact := by
  have settled : Settled dart (.obj (jsonFields r)) := (settled_dart_iff r).mpr ints
  have claimed : textField (jsonFields r) "record_sha256" = some (.ofString r.recordSha256) := by
    rw [textField, jsonFields, field_ofFields]
    simp [SidecarRecord.json, asFields, Dict.lookupEntry, ofJson, asText]
  refine Spelled.write_obj_perm (perm_under settled.1 claimed) ?_
    (@write_ofJson _ r.json lawful_dart settled)
  have keyed := (Json.keyedFields_iff NarrowKey _).mp (keyed_json r)
  have names := r.ordered_json.1.imp fun below => ne_of_lt below
  rw [jsonFields, ofFields_eq, List.map_map]
  refine (List.nodup_map_iff_inj_on (List.Nodup.of_map Prod.fst names)).mpr
    fun f left g right same => ?_
  have key {h : String × Json} (member : h ∈ (asFields r.json).getD []) :
      dart.key (.ofString h.1) = h.1.toList.map Char.toNat := (keyed h member).1.byCharacter_dart
  have codes : f.1.toList.map Char.toNat = g.1.toList.map Char.toNat := by
    rw [← key left, ← key right]
    exact same
  have name : f.1 = g.1 := String.toList_injective
    (List.map_injective_iff.mpr (fun _ _ => Char.toNat_inj.mp) codes)
  exact List.inj_on_of_nodup_map names left right name

theorem read_bytes (r : SidecarRecord) : Spelled.read r.json.compact = some (.obj (jsonFields r)) :=
  Spelled.read_compact r.ordered_json

variable {r : SidecarRecord}

theorem ints_of_accepts {c : Crypto}
    (accepted : validateSidecarRecord c r.bytes n previous = .ok v) : r.json.Ints InInt64 := by
  obtain ⟨text, fields, unsigned, decoded, read, holds, written, -⟩ :=
    (validateSidecarRecord_eq_ok c).mp accepted
  rw [utf8Decode_bytes] at decoded
  cases decoded
  rw [read_bytes] at read
  cases read
  exact (settled_dart_iff r).mp
    (settled_of_written (Spelled.fine_ofJson r.ordered_json) holds.claimed (read_bytes r) written)

theorem accepts_of_ints {c : Crypto} (signed : r.recordSha256 = r.hash c)
    (ints : r.json.Ints InInt64) :
    ∃ v, validateSidecarRecord c r.bytes r.sequence r.previousSha256 = .ok v ∧
      v.recordSha256 = r.recordSha256 := by
  have settled : Settled dart (.obj (jsonFields r)) := (settled_dart_iff r).mpr ints
  have small : InInt64 r.sequence := by
    have each := (Json.intsFields_iff InInt64 _).mp ints
    exact each ("sequence", .int r.sequence) (by simp)
  have holds := holds_jsonFields lawful_dart r signed settled (dartIs_number small)
  have digest : textSha256 c r.unsigned.compact = r.recordSha256 := by
    rw [signed, SidecarRecord.hash, canonicalJson, Json.dumps,
      Json.sortKeys_of_ordered (ordered_unsigned r)]
    rfl
  refine ⟨_, (validateSidecarRecord_eq_ok c).mpr ⟨_, jsonFields r, _, utf8Decode_bytes r,
    read_bytes r, holds, ?_, rfl⟩, digest⟩
  rw [digest]
  exact write_under r ints

theorem Alike.fine {v : Spelled} : Alike v → v.Once → v.Fine := by
  induction v using by_parts with
  | null => exact fun _ _ => trivial
  | bool b => exact fun _ _ => trivial
  | number l => exact fun _ _ => trivial
  | str t => exact fun plain _ => plain
  | arr items ih =>
    intro alike once
    exact (Spelled.fineItems_iff items).mpr fun v member =>
      ih v member ((alikeItems_iff items).mp alike v member)
        ((Spelled.onceItems_iff items).mp once v member)
  | obj fields ih =>
    intro alike once
    refine ⟨once.1, (fineFields_iff fields).mpr fun p member => ?_⟩
    have both := (alikeFields_iff fields).mp alike.2 p member
    exact ⟨both.1, ih p member both.2 ((onceFields_iff fields).mp once.2 p member)⟩

theorem once_obj_without (once : (Spelled.obj fields).Once) :
    (Spelled.obj (without key fields)).Once :=
  ⟨once_without once.1, (onceFields_iff _).mpr fun p member =>
    (onceFields_iff fields).mp once.2 p (mem_without.mp member).1⟩

theorem fine_of_without (once : (Spelled.obj fields).Once)
    (found : textField fields "record_sha256" = some (.ofString digest))
    (fine : (Spelled.obj (without "record_sha256" fields)).Fine) : (Spelled.obj fields).Fine := by
  have inside := (fineFields_iff _).mp fine.2
  refine ⟨once.1, (fineFields_iff fields).mpr fun p member => ?_⟩
  rcases List.mem_append.mp ((perm_under once.1 found).mem_iff.mp member) with rest | digest
  · exact inside p rest
  · rw [List.mem_singleton.mp digest]
    exact ⟨plain_ofString _, plain_ofString _⟩

theorem pythonIs_of_dartIs {v : Spelled} (settled : Settled dart v) (is : dartIs n v = true) :
    pythonIs n v = true := by
  cases v with
  | number l =>
    have spelled : dartNumber l = some l := settled
    simp only [dartIs] at is
    simp only [pythonIs]
    by_cases whole : isWhole l = true
    · by_cases small : InInt64 (wholeValue l)
      · rw [if_pos ⟨whole, small⟩] at is
        rwa [if_pos whole]
      · rw [dartNumber, if_neg fun both => small both.2] at spelled
        have point := isWhole_double spelled
        rw [whole] at point
        cases point
    · rw [if_neg fun both => whole both.1] at is
      rwa [if_neg whole]
  | _ => cases is

/-- The bytes hold a record without a byte order mark that both languages write alike. -/
def Portable (payload : Bytes) : Prop :=
  ∃ line fields, decode payload = some line ∧ line.toList.head? ≠ some '\ufeff' ∧
    Spelled.read line.toList = some (.obj fields) ∧
    Alike (.obj (without "record_sha256" fields))

theorem read_mark (text : List Char) : Spelled.read ('\ufeff' :: text) = none := by
  have open_ : readValue (text.length + 2) ('\ufeff' :: text) = none := by
    rw [readValue]
    rfl
  unfold Spelled.read
  rw [List.length_cons, open_]

theorem reads_of_portable {c : Crypto}
    (accepted : validateSidecarRecord c payload n previous = .ok v) (portable : Portable payload) :
    ∃ fields, readRecord c n previous payload = .ok (v.recordSha256, fields) := by
  obtain ⟨text, fields, unsigned, decoded, read, holds, written, rfl⟩ :=
    (validateSidecarRecord_eq_ok c).mp accepted
  obtain ⟨line, fields', decoded', unmarked, read', alike⟩ := portable
  rw [utf8Decode_of_decode decoded' unmarked] at decoded
  cases decoded
  rw [read] at read'
  cases read'
  have once := once_of_read read
  have fine := fine_of_without once holds.claimed (alike.fine (once_obj_without once))
  have settled := settled_of_written fine holds.claimed read written
  have settled' := (settled_python_iff (settled_without settled)).mpr alike
  refine ⟨_, (readRecord_eq_ok c).mpr ⟨line, fields, unsigned, ?_, decoded', read, ?_, rfl, rfl⟩⟩
  · rintro rfl
    cases decoded'
    cases read
  · refine ⟨holds.schema, ?_, holds.chained, ?_, holds.claimed⟩
    · obtain ⟨place, found, is⟩ := (Option.any_eq_true _ _).mp holds.place
      have member := (field_eq_some_iff (once_without once.1)).mp found
      have inside := (settledFields_iff _).mp (settled_without settled).2.2 _ member
      rw [found]
      exact pythonIs_of_dartIs inside.2 is
    · rw [← Spelled.Settled.write_eq lawful_dart lawful_python (settled_without settled) settled',
        holds.written]

/-- What the store accepts and the ledger reads under one digest, both write alike, if the digest
tells the two texts apart. -/
theorem portable_of_reads {c : Crypto} {payload : Bytes} {n : Nat} {previous : String}
    {v : ValidatedSidecarRecord} (accepted : validateSidecarRecord c payload n previous = .ok v)
    (apart : ∀ line fields left right, decode payload = some line →
      Spelled.read line.toList = some (.obj fields) →
      dart.write (.obj (without "record_sha256" fields)) = some left →
      python.write (.obj (without "record_sha256" fields)) = some right →
      textSha256 c left = textSha256 c right → left = right)
    {fields : Fields} (reads : readRecord c n previous payload = .ok (v.recordSha256, fields)) :
    Portable payload := by
  obtain ⟨text, fields', unsigned, decoded, read, holds, written, rfl⟩ :=
    (validateSidecarRecord_eq_ok c).mp accepted
  obtain ⟨line, fields, unsigned', nonempty, decoded', read', holds', same, -⟩ :=
    (readRecord_eq_ok c).mp reads
  have unmarked : line.toList.head? ≠ some '\ufeff' := by
    intro marked
    obtain ⟨cs, chars⟩ := List.head?_eq_some_iff.mp marked
    rw [chars, read_mark] at read'
    cases read'
  rw [utf8Decode_of_decode decoded' unmarked] at decoded
  cases decoded
  obtain rfl : fields' = fields := Spelled.obj.inj (Option.some.inj (read.symm.trans read'))
  refine ⟨line, fields', decoded', unmarked, read, ?_⟩
  have once := once_of_read read
  have fine' : (Spelled.obj (without "record_sha256" fields')).Fine :=
    refusesLone_python.fine (once_obj_without once) holds'.written
  have fine := fine_of_without once holds.claimed fine'
  have settled := @settled_without fields' "record_sha256" dart
    (settled_of_written fine holds.claimed read written)
  have texts := apart line fields' unsigned unsigned' decoded' read holds.written holds'.written
    same
  have back := read_write lawful_dart fine' holds.written
  have back' := read_write lawful_python fine' holds'.written
  rw [texts, back', settled.settled, Option.some.injEq] at back
  exact (settled_python_iff settled).mp (Spelled.settled_of_write fine' holds'.written back)

theorem portable_bytes (r : SidecarRecord) (ints : r.json.Ints InInt64) : Portable r.bytes := by
  have settled : Settled dart (.obj (jsonFields r)) := (settled_dart_iff r).mpr ints
  have settled' : Settled python (.obj (jsonFields r)) := settled_python r.ordered_json ints
  refine ⟨_, jsonFields r, decode_bytes r, ?_, ?_, ?_⟩
  · rw [String.toList_ofList]
    exact fun marked => by cases marked
  · rw [String.toList_ofList]
    exact read_bytes r
  · exact (settled_python_iff (settled_without settled)).mp (settled_without settled')

/-- The core and the store accept the same ledger up to this: a record that the core writes is
accepted exactly when its whole numbers have 64 bits, and a record that the store accepts is read
under its digest when both languages write it alike, and only then where the digest tells the two
texts apart. -/
theorem same_ledger_iff (c : Crypto) :
    (∀ r : SidecarRecord, r.recordSha256 = r.hash c →
      ((∃ v, validateSidecarRecord c r.bytes r.sequence r.previousSha256 = .ok v ∧
        v.recordSha256 = r.recordSha256) ↔ r.json.Ints InInt64)) ∧
    ∀ payload n previous v, validateSidecarRecord c payload n previous = .ok v →
      (Portable payload →
        ∃ fields, readRecord c n previous payload = .ok (v.recordSha256, fields)) ∧
      ((∀ line fields left right, decode payload = some line →
        Spelled.read line.toList = some (.obj fields) →
        dart.write (.obj (without "record_sha256" fields)) = some left →
        python.write (.obj (without "record_sha256" fields)) = some right →
        textSha256 c left = textSha256 c right → left = right) →
      (∃ fields, readRecord c n previous payload = .ok (v.recordSha256, fields)) →
        Portable payload) :=
  ⟨fun _ signed => ⟨fun ⟨_, accepted, _⟩ => ints_of_accepts accepted, accepts_of_ints signed⟩,
    fun _ _ _ _ accepted => ⟨reads_of_portable accepted,
    fun apart ⟨_, reads⟩ => portable_of_reads accepted apart reads⟩⟩

def lateFact (c : Crypto) : TypedCausalFact :=
  { noteFact c with eventTime := 2 ^ 63, checked := (noteFact c).checked }

def lateItem (c : Crypto) : AttestedSidecarFact :=
  { noteItem c with
    fact := lateFact c
    attestationSha256 := factAttestation c (noteAuthority.sha256 c) (lateFact c).toFactFields
      noteLifecycle.toLifecycleFields none
    checked := ⟨isSha256_digest c _ _, isSha256_factAttestation c _ _ _ _⟩ }

def lateNote (c : Crypto) : SidecarCompilation := ⟨[lateItem c], []⟩

def lateRecord (c : Crypto) : SidecarRecord :=
  noteLedger.newRecord c [] noteAuthority noteBatch (lateNote c)

theorem verify_lateItem (c : Crypto) :
    (lateItem c).verify c noteAuthority (noteSource c) = true := by
  refine (AttestedSidecarFact.verify_eq_true c).mpr ⟨rfl, rfl, ?_⟩
  exact ((AttestedSidecarFact.verify_eq_true c).mp (verify_noteItem c)).2.2

theorem stage_lateNote (c : Crypto) : ∃ receipt next,
    noteLedger.stageIngest c (replayAdapter Unit noteAuthority (lateNote c)) noteBatch =
      .ok (noteAuthority, receipt, next) ∧ next.records = [lateRecord c] := by
  have none := noNotes_noteLedger
  have cited := ((AttestedSidecarFact.verify_eq_true c).mp (verify_lateItem c)).2.2
  have core : (StandaloneCausalMemory.new "s" false).Acceptable c (noteSource c) [lateFact c] :=
    { nonempty := List.cons_ne_nil _ _
      canonical := List.pairwise_singleton _ _
      fromSource := List.forall_mem_singleton.mpr ⟨rfl, rfl, rfl⟩
      cited := List.forall_mem_singleton.mpr cited
      sameSource := nofun
      sameFacts := List.forall_mem_singleton.mpr nofun }
  obtain ⟨outcome, held, applied, ingested⟩ : ∃ outcome held, outcome.state = .applied ∧
      (StandaloneCausalMemory.new "s" false).ingest c noteBatch [lateFact c] =
        .ok (outcome, held) := by
    rw [StandaloneCausalMemory.ingest_eq rfl rfl core]
    exact ⟨_, _, rfl, rfl⟩
  have first : noteLedger.memory.fork.lineage (lateItem c) = .none := by
    have previous : noteLedger.memory.fork.previous (lateItem c).fact.toFactFields = [] := by
      rw [AuthorizedSidecarMemory.previous, show (lateItem c).fact.key = ("a", "p") from rfl,
        none.held]
      rfl
    have named : (lateItem c).lifecycle.supersedes = [] := rfl
    simp [AuthorizedSidecarMemory.lineage, AuthorizedSidecarMemory.attested, none.attestations,
      previous, named]
  have fit : noteLedger.memory.fork.Admissible c noteAuthority (noteSource c) (lateNote c) :=
    { withinLimits := by
        rw [none.limits]
        exact ⟨Nat.le_add_left 1 99999, Nat.zero_le _⟩
      nonempty := by simp [lateNote]
      canonical := List.pairwise_singleton _ _
      fromSource := List.forall_mem_singleton.mpr ⟨none.scope.symm, rfl, rfl⟩
      permitted := List.forall_mem_singleton.mpr rfl
      verified := List.forall_mem_singleton.mpr (verify_lateItem c)
      sameAttestation := List.forall_mem_singleton.mpr (by simp [none.attestations])
      oneOrbit := List.nodup_singleton _
      lineage := List.forall_mem_singleton.mpr first
      claimsOrdered := .nil
      claimsAdmitted := List.forall_mem_nil _ }
  have published : AuthorizedSidecarMemory.Published c noteLedger.memory.fork noteBatch
      (noteSource c) (lateNote c) .applied held :=
    .facts (List.cons_ne_nil _ _) (none.memory ▸ ingested) applied (.inl rfl)
  obtain ⟨receipt, applied, ingested⟩ := AuthorizedSidecarMemory.ingest_of
    (admitted_noteBatch (lateNote c) none.scope none.limits none.trusted) fit published
  have replayed := Registry.ingestRecord_newRecord (c := c) noteLedger noteAuthority rfl
    noteLedger.memory.fork [] noteBatch (lateNote c)
  exact ⟨receipt, _, DurableAuthorizedSidecarMemory.stageIngest_eq_ok.mpr
    ⟨rfl, rfl, lateNote c, _, rfl, replayed.trans ingested, applied, rfl⟩, rfl⟩

theorem not_ints_lateRecord (c : Crypto) : ¬(lateRecord c).json.Ints InInt64 := by
  intro ints
  have each := (Json.intsFields_iff InInt64 _).mp ints
  have facts := (Json.intsItems_iff InInt64 _).mp
    (each ("facts", .arr [attestedPayload (lateItem c)]) (by simp [lateRecord,
      DurableAuthorizedSidecarMemory.newRecord, SidecarRecord.signed, lateNote]))
  have item := (Json.intsFields_iff InInt64 _).mp (facts _ List.mem_cons_self)
  have fact := (Json.intsFields_iff InInt64 _).mp
    (item ("fact", factPayload (lateFact c).toFactFields) (by simp [lateItem]))
  have time : InInt64 (2 ^ 63) := fact ("event_time", .int (2 ^ 63)) (by simp [lateFact])
  exact absurd time (by decide)

theorem ints_emptyNotes (c : Crypto) : (noteRecord c [] (emptyNotes c)).json.Ints InInt64 := by
  have place : InInt64 1 := by decide
  simp [noteRecord, DurableAuthorizedSidecarMemory.newRecord, SidecarRecord.signed,
    SidecarRecord.json, Json.Ints, emptyNotes, noteClaim, claimPayload, place]

theorem signed_emptyNotes (c : Crypto) : (noteRecord c [] (emptyNotes c)).recordSha256 =
    (noteRecord c [] (emptyNotes c)).hash c := rfl

def mark : Bytes := [0xef, 0xbb, 0xbf]

theorem decode_mark (s : String) : decode (mark ++ encode s) =
    some (String.ofList ('\ufeff' :: s.toList)) := by
  have joined : mark ++ encode s = encode ("\ufeff" ++ s) := by
    have first : mark = encode "\ufeff" := by decide
    rw [first]
    simp [encode]
  rw [joined, decode_encode, Option.some.injEq]
  exact String.toList_injective (by simp)

theorem accepts_mark (c : Crypto) : ∃ v,
    validateSidecarRecord c (mark ++ (noteRecord c [] (emptyNotes c)).bytes) 1 genesis = .ok v ∧
      ∀ read, readRecord c 1 genesis (mark ++ (noteRecord c [] (emptyNotes c)).bytes) ≠
        .ok read := by
  have decoded : decode (mark ++ (noteRecord c [] (emptyNotes c)).bytes) =
      some (String.ofList ('\ufeff' :: (noteRecord c [] (emptyNotes c)).json.compact)) := by
    rw [text_bytes, decode_mark, String.toList_ofList]
  obtain ⟨v, accepted, -⟩ := accepts_of_ints (signed_emptyNotes c) (ints_emptyNotes c)
  obtain ⟨text, fields, unsigned, there, read, holds, written, -⟩ :=
    (validateSidecarRecord_eq_ok c).mp accepted
  rw [utf8Decode_bytes, Option.some.injEq] at there
  have dropped : utf8Decode (mark ++ (noteRecord c [] (emptyNotes c)).bytes) = some text := by
    rw [utf8Decode, decoded, Option.map_some, String.toList_ofList, there]
    rfl
  refine ⟨_, (validateSidecarRecord_eq_ok c).mpr ⟨text, fields, unsigned, dropped, read, holds,
    written, rfl⟩, fun ⟨digest, fields'⟩ reads => ?_⟩
  obtain ⟨line, fields, unsigned, -, decoded', read', -⟩ := (readRecord_eq_ok c).mp reads
  rw [decoded] at decoded'
  cases decoded'
  rw [String.toList_ofList, read_mark] at read'
  cases read'

/-- The core writes a record that the store refuses, and the store accepts one that the core does
not read. -/
theorem not_same_ledger :
    (∃ receipt next, noteLedger.stageIngest stdCrypto
        (replayAdapter Unit noteAuthority (lateNote stdCrypto)) noteBatch =
          .ok (noteAuthority, receipt, next) ∧
      ∃ r ∈ next.records, ∀ v,
        validateSidecarRecord stdCrypto r.bytes r.sequence r.previousSha256 ≠ .ok v) ∧
    ∃ payload v, validateSidecarRecord stdCrypto payload 1 genesis = .ok v ∧
      ∀ read, readRecord stdCrypto 1 genesis payload ≠ .ok read := by
  obtain ⟨receipt, next, staged, records⟩ := stage_lateNote stdCrypto
  refine ⟨⟨receipt, next, staged, lateRecord stdCrypto, ?_, fun v accepted => ?_⟩, _,
    accepts_mark stdCrypto⟩
  · rw [records]
    exact List.mem_cons_self
  · exact not_ints_lateRecord stdCrypto (ints_of_accepts accepted)

/-- The first record of the notes, accepted by the store and read by the ledger. -/
theorem same_ledger_notes :
    ∃ v fields, validateSidecarRecord stdCrypto
        (noteRecord stdCrypto [] (emptyNotes stdCrypto)).bytes 1 genesis = .ok v ∧
      readRecord stdCrypto 1 genesis (noteRecord stdCrypto [] (emptyNotes stdCrypto)).bytes =
        .ok (v.recordSha256, fields) := by
  have ints := ints_emptyNotes stdCrypto
  obtain ⟨v, accepted, -⟩ := ((same_ledger_iff stdCrypto).1
    (noteRecord stdCrypto [] (emptyNotes stdCrypto)) (signed_emptyNotes stdCrypto)).mpr ints
  have portable : Portable (noteRecord stdCrypto [] (emptyNotes stdCrypto)).bytes :=
    portable_bytes _ ints
  obtain ⟨fields, reads⟩ := ((same_ledger_iff stdCrypto).2 _ _ _ v accepted).1 portable
  exact ⟨v, fields, accepted, reads⟩

end ProofRay.Host
