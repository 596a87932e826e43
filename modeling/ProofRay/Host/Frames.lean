/- The bytes of a frame.  A frame that holds only plain letters has one byte for each of them, and
   its records count by their base64 letters. -/

import ProofRay.Host.Paging
import ProofRay.Host.Staging

namespace ProofRay.Host

open Engine (Bytes)
open Lib (Json)
open Sidecar (encode isSha256)
open Lib.Json (compact compactFields compactItems escape number quote sortKeys)

def Ascii (text : List Char) : Prop := text.all (fun c => c.toNat < 128) = true

instance (text : List Char) : Decidable (Ascii text) := inferInstanceAs (Decidable (_ = true))

@[simp] theorem ascii_append {text text' : List Char} :
    Ascii (text ++ text') ↔ Ascii text ∧ Ascii text' := by
  simp [Ascii, List.all_append]

variable {text : List Char}

@[simp] theorem ascii_cons {c : Char} : Ascii (c :: text) ↔ c.toNat < 128 ∧ Ascii text := by
  simp [Ascii]

@[simp] theorem ascii_nil : Ascii [] := rfl

theorem encode_ofList (text : List Char) :
    encode (String.ofList text) = text.flatMap String.utf8EncodeChar := by
  show (String.ofList text).toByteArray.data.toList = _
  rw [String.toByteArray_ofList, List.utf8Encode, List.toList_data_toByteArray]

theorem length_encode_of_ascii (ascii : Ascii text) :
    (encode (String.ofList text)).length = text.length := by
  rw [encode_ofList]
  induction text with
  | nil => rfl
  | cons c text ih =>
    obtain ⟨low, rest⟩ := ascii_cons.mp ascii
    have one : c.utf8Size = 1 := Char.utf8Size_eq_one_iff.mpr (Nat.le_of_lt_succ low)
    rw [List.flatMap_cons, List.length_append, String.length_utf8EncodeChar, one, ih rest,
      List.length_cons, Nat.add_comm]

def Bare (text : List Char) : Prop :=
  text.all (fun c => decide (c.toNat < 128) && decide (escape c = [c])) = true

instance (text : List Char) : Decidable (Bare text) := inferInstanceAs (Decidable (_ = true))

theorem bare_iff : Bare text ↔ ∀ c ∈ text, c.toNat < 128 ∧ escape c = [c] := by
  simp [Bare]

theorem quote_of_bare (bare : Bare text) : quote (String.ofList text) = '"' :: text ++ ['"'] := by
  have same : text.flatMap escape = text := by
    conv_rhs => rw [← List.flatMap_singleton' text]
    exact List.flatMap_congr fun c member => (bare_iff.mp bare c member).2
  rw [quote, String.toList_ofList, same]

theorem Bare.ascii (bare : Bare text) : Ascii text := by
  simp only [Ascii, List.all_eq_true, decide_eq_true_eq]
  exact fun c member => (bare_iff.mp bare c member).1

theorem length_quote (bare : Bare text) :
    (quote (String.ofList text)).length = text.length + 2 := by
  simp [quote_of_bare bare]

theorem ascii_quote (bare : Bare text) : Ascii (quote (String.ofList text)) := by
  simpa [quote_of_bare bare] using bare.ascii

private theorem bare_letters : Bare (List.map Lib.Base64.letter (List.range 64)) := by decide

private theorem bare_hex : Bare "0123456789abcdef".toList := by decide

private theorem bare_host : Bare "host_".toList := by decide

theorem bare_encode (bytes : Bytes) : Bare (Lib.Base64.encode bytes) := by
  refine bare_iff.mpr fun c member => ?_
  rcases mem_encode member with rfl | ⟨n, below, rfl⟩
  · exact ⟨by decide, by decide⟩
  · exact bare_iff.mp bare_letters _ (List.mem_map_of_mem (List.mem_range.mpr below))

theorem bare_requestId (token : Token) : Bare ("host_".toList ++ token.digits) := by
  refine bare_iff.mpr fun c member => ?_
  rcases List.mem_append.mp member with first | digit
  · exact bare_iff.mp bare_host c first
  · exact bare_iff.mp bare_hex c (token.hex c digit)

theorem ascii_number (n : Nat) : Ascii (number n) := by
  simp only [Ascii, List.all_eq_true, decide_eq_true_eq]
  intro c member
  have digit : c.isDigit := Nat.isDigit_of_mem_toDigits (by decide) (by decide) member
  have below : c.val ≤ '9'.val := by
    simp only [Char.isDigit, Bool.and_eq_true, decide_eq_true_eq] at digit
    exact digit.2
  exact Nat.lt_of_le_of_lt (UInt32.le_iff_toNat_le.mp below) (by decide)

def recordsBytes (records : List Bytes) : Nat :=
  if records = [] then 2
  else (records.map fun record => 4 * ((record.length + 2) / 3) + 3).sum + 1

private theorem compactItems_texts (records : List Bytes) :
    Ascii (compactItems
      ((records.map Lib.Base64.encode).map fun r => .str (String.ofList r))) ∧
      (compactItems
        ((records.map Lib.Base64.encode).map fun r => .str (String.ofList r))).length =
        (records.map fun record => 4 * ((record.length + 2) / 3) + 3).sum + 1 := by
  induction records with
  | nil => exact ⟨by decide, rfl⟩
  | cons record records ih =>
    have bare := bare_encode record
    have comma : ','.toNat < 128 := by decide
    refine ⟨?_, ?_⟩
    · simp only [List.map_cons, compactItems, compact, List.cons_append, ascii_cons,
        ascii_append]
      exact ⟨comma, ascii_quote bare, ih.1⟩
    · simp only [List.map_cons, compactItems, compact, List.cons_append,
        List.length_cons, List.length_append, length_quote bare, ih.2,
        Lib.Base64.length_encode, List.sum_cons]
      omega

theorem compact_texts (records : List Bytes) :
    Ascii (compact (HostRequest.texts (records.map Lib.Base64.encode))) ∧
      (compact (HostRequest.texts (records.map Lib.Base64.encode))).length =
        recordsBytes records := by
  cases records with
  | nil => exact ⟨by decide, rfl⟩
  | cons record records =>
    have bare := bare_encode record
    have bracket : '['.toNat < 128 := by decide
    obtain ⟨ascii, length⟩ := compactItems_texts records
    refine ⟨?_, ?_⟩
    · simp only [HostRequest.texts, List.map_cons, compact, List.cons_append, ascii_cons,
        ascii_append]
      exact ⟨bracket, ascii_quote bare, ascii⟩
    · rw [recordsBytes, if_neg (List.cons_ne_nil record records)]
      simp only [HostRequest.texts, List.map_cons, compact, List.cons_append,
        List.length_cons, List.length_append, length_quote bare, length,
        Lib.Base64.length_encode, List.sum_cons]
      omega

private theorem quoted : Ascii (quote "schema") ∧ Ascii (quote bridgeSchema) ∧
    Ascii (quote "request_id") ∧ Ascii (quote "method") ∧
    Ascii (quote "host.response") ∧ Ascii (quote "payload") ∧ Ascii (quote "ok") ∧
    Ascii (quote "event") ∧ Ascii (quote "host.request") := by
  decide

private theorem length_quoted : (quote "schema").length = 8 ∧
    (quote bridgeSchema).length = 24 ∧ (quote "request_id").length = 12 ∧
    (quote "method").length = 8 ∧ (quote "host.response").length = 15 ∧
    (quote "payload").length = 9 ∧ (quote "ok").length = 4 ∧
    (quote "event").length = 7 ∧ (quote "host.request").length = 14 := by
  decide

private theorem marks : '\x7b'.toNat < 128 ∧ '\x7d'.toNat < 128 ∧ ','.toNat < 128 ∧
    ':'.toNat < 128 ∧ '\n'.toNat < 128 := by
  decide

theorem length_requestId (token : Token) : (quote token.requestId).length = 39 := by
  have host : "host_".toList.length = 5 := by decide
  have digits := length_quote (bare_requestId token)
  rw [List.length_append, token.length, host] at digits
  exact digits

theorem ascii_requestId (token : Token) : Ascii (quote token.requestId) :=
  ascii_quote (bare_requestId token)

theorem length_responseFrame (token : Token) {response : HostResponse}
    (ascii : Ascii (compact response.payload)) :
    (responseFrame token response).length = (compact response.payload).length + 147 := by
  have id := ascii_requestId token
  have idLength := length_requestId token
  obtain ⟨schema, name, request, method, answer, payload, ok, -, -⟩ := quoted
  obtain ⟨schema', name', request', method', answer', payload', ok', -, -⟩ := length_quoted
  obtain ⟨left, right, comma, colon, line⟩ := marks
  have word : Ascii ['t', 'r', 'u', 'e'] := by decide
  unfold responseFrame frame
  rw [length_encode_of_ascii]
  · simp only [compact, compactFields, List.length_append, List.length_cons,
      List.length_nil, idLength, schema', name', request', method', answer', payload', ok']
    omega
  · simp [compact, compactFields, *]

theorem length_requestFrame (token : Token) {request : HostRequest}
    (method : Ascii (quote request.method)) (ascii : Ascii (compact (sortKeys request.payload))) :
    (requestFrame token request).length =
      (quote request.method).length + (compact (sortKeys request.payload)).length + 145 := by
  have id := ascii_requestId token
  have idLength := length_requestId token
  obtain ⟨schema, name, request', method', -, payload, -, event, asked⟩ := quoted
  obtain ⟨schema'', name'', request'', method'', -, payload'', -, event'', asked''⟩ := length_quoted
  obtain ⟨left, right, comma, colon, line⟩ := marks
  have sorted : sortKeys (.obj [
      ("schema", .str bridgeSchema),
      ("request_id", .str token.requestId),
      ("event", .str "host.request"),
      ("payload", .obj [
        ("method", .str request.method),
        ("payload", request.payload)])]) = .obj [
      ("event", .str "host.request"),
      ("payload", .obj [ ("method", .str request.method), ("payload", sortKeys request.payload)]),
      ("request_id", .str token.requestId),
      ("schema", .str bridgeSchema)] := rfl
  unfold requestFrame frame Json.dumps
  rw [sorted, length_encode_of_ascii]
  · simp only [compact, compactFields, List.length_append, List.length_cons,
      List.length_nil, idLength, schema'', name'', request'', method'', payload'', event'',
      asked'']
    omega
  · simp [compact, compactFields, *]

def loadBytes (cursor : Nat) : Nat := 223 + (number cursor).length

theorem length_loadRequest (token : Token) (cursor : Nat) :
    (requestFrame token (.load cursor pageSize)).length = loadBytes cursor := by
  have digits := ascii_number cursor
  have sorted : sortKeys (HostRequest.load cursor pageSize).payload = .obj [
      ("after_sequence", .int cursor),
      ("limit", .int pageSize),
      ("store_key", .str storeKey)] := rfl
  have keys : Ascii (quote "after_sequence") ∧ Ascii (quote "limit") ∧
      Ascii (quote "store_key") ∧ Ascii (quote storeKey) ∧
      Ascii (number pageSize) := by decide
  have lengths : (quote "after_sequence").length = 16 ∧ (quote "limit").length = 7 ∧
      (quote "store_key").length = 11 ∧ (quote storeKey).length = 20 ∧
      (number pageSize).length = 3 := by decide
  obtain ⟨after, limit, store, name, page⟩ := keys
  obtain ⟨after', limit', store', name', page'⟩ := lengths
  obtain ⟨left, right, comma, colon, -⟩ := marks
  have method : Ascii (quote (HostRequest.load cursor pageSize).method) := by
    show Ascii (quote "sidecar.load")
    decide
  have method' : (quote (HostRequest.load cursor pageSize).method).length = 14 := by
    show (quote "sidecar.load").length = 14
    decide
  rw [length_requestFrame token method, sorted, method']
  · simp only [compact, compactFields, List.length_append, List.length_cons,
      List.length_nil, after', limit', store', name', page', loadBytes]
    omega
  · rw [sorted]
    simp [compact, compactFields, *]

def pageBytes (records : List Bytes) : Nat :=
  recordsBytes records + if records.length < pageSize then 175 else 176

private theorem bare_low : ∀ n ≤ 57, 48 ≤ n →
    (Char.ofNat n).toNat < 128 ∧ escape (Char.ofNat n) = [Char.ofNat n] := by
  decide

private theorem bare_high : ∀ n ≤ 102, 97 ≤ n →
    (Char.ofNat n).toNat < 128 ∧ escape (Char.ofNat n) = [Char.ofNat n] := by
  decide

theorem quote_of_isSha256 {s : String} (digest : isSha256 s = true) :
    Ascii (quote s) ∧ (quote s).length = 66 := by
  simp only [isSha256, Bool.and_eq_true, decide_eq_true_eq, List.all_eq_true, Bool.or_eq_true]
    at digest
  obtain ⟨length, digits⟩ := digest
  have bare : Bare s.toList := by
    refine bare_iff.mpr fun c member => ?_
    rw [← Char.ofNat_toNat c]
    rcases digits c member with ⟨low, high⟩ | ⟨low, high⟩
    · exact bare_low c.toNat (UInt32.le_iff_toNat_le.mp high) (UInt32.le_iff_toNat_le.mp low)
    · exact bare_high c.toNat (UInt32.le_iff_toNat_le.mp high) (UInt32.le_iff_toNat_le.mp low)
  have text := String.ofList_toList (s := s)
  rw [← text]
  exact ⟨ascii_quote bare, by rw [length_quote bare, length]⟩

/-- The bytes of the request for a direct replacement, where its digest has `digest` bytes. -/
def suffixBytes (commonPrefix digest : Nat) (records : List Bytes) : Nat :=
  255 + (number commonPrefix).length + digest + recordsBytes records

theorem length_suffixRequest (token : Token) (p : Nat) {digest : String}
    (bare : Ascii (quote digest)) (records : List Bytes) :
    (requestFrame token (.replaceSuffix p digest (records.map Lib.Base64.encode))).length =
      suffixBytes p (quote digest).length records := by
  have digits := ascii_number p
  obtain ⟨ascii, length⟩ := compact_texts records
  have texts : sortKeys (HostRequest.texts (records.map Lib.Base64.encode)) =
      HostRequest.texts (records.map Lib.Base64.encode) :=
    Json.sortKeys_of_ordered (by simp [HostRequest.texts, Json.Ordered])
  have sorted : sortKeys
      (HostRequest.replaceSuffix p digest (records.map Lib.Base64.encode)).payload = .obj [
      ("common_prefix", .int p),
      ("common_prefix_sha256", .str digest),
      ("records", HostRequest.texts (records.map Lib.Base64.encode)),
      ("store_key", .str storeKey)] := by
    rw [← texts]
    rfl
  have keys : Ascii (quote "common_prefix") ∧ Ascii (quote "common_prefix_sha256") ∧
      Ascii (quote "records") ∧ Ascii (quote "store_key") ∧
      Ascii (quote storeKey) := by decide
  have lengths : (quote "common_prefix").length = 15 ∧
      (quote "common_prefix_sha256").length = 22 ∧ (quote "records").length = 9 ∧
      (quote "store_key").length = 11 ∧ (quote storeKey).length = 20 := by
    decide
  obtain ⟨common, sha, name, store, kept⟩ := keys
  obtain ⟨common', sha', name', store', kept'⟩ := lengths
  obtain ⟨left, right, comma, colon, -⟩ := marks
  have method : Ascii (quote (HostRequest.replaceSuffix p digest
      (records.map Lib.Base64.encode)).method) := by
    show Ascii (quote "sidecar.replace_suffix")
    decide
  have method' : (quote (HostRequest.replaceSuffix p digest
      (records.map Lib.Base64.encode)).method).length = 24 := by
    show (quote "sidecar.replace_suffix").length = 24
    decide
  rw [length_requestFrame token method, sorted, method']
  · simp only [compact, compactFields, List.length_append, List.length_cons,
      List.length_nil, common', sha', name', store', kept', length, suffixBytes]
    omega
  · rw [sorted]
    simp [compact, compactFields, *]

theorem length_pageResponse (token : Token) (records : List Bytes) (cursor : Nat) :
    (responseFrame token (.page (pageOf records cursor))).length =
      pageBytes ((records.drop cursor).take pageSize) := by
  generalize rows : (records.drop cursor).take pageSize = page
  obtain ⟨ascii, length⟩ := compact_texts page
  have payload : (HostResponse.page (pageOf records cursor)).payload = .obj [
      ("records", HostRequest.texts (page.map Lib.Base64.encode)),
      ("complete", .bool (decide (page.length < pageSize)))] := by
    rw [← rows]
    rfl
  have keys : Ascii (quote "records") ∧ Ascii (quote "complete") := by decide
  have lengths : (quote "records").length = 9 ∧ (quote "complete").length = 10 := by
    decide
  obtain ⟨left, right, comma, colon, -⟩ := marks
  have words : Ascii ['t', 'r', 'u', 'e'] ∧ Ascii ['f', 'a', 'l', 's', 'e'] := by decide
  have word : Ascii (compact (.bool (decide (page.length < pageSize)))) := by
    cases decide (page.length < pageSize)
    · exact words.2
    · exact words.1
  have wordLength : (compact (.bool (decide (page.length < pageSize)))).length =
      if page.length < pageSize then 4 else 5 := by
    by_cases short : page.length < pageSize
    · rw [decide_eq_true short, if_pos short]
      rfl
    · rw [decide_eq_false short, if_neg short]
      rfl
  rw [length_responseFrame, payload]
  · simp only [compact, compactFields, List.length_append, List.length_cons,
      List.length_nil, lengths, length, pageBytes]
    rw [wordLength]
    split <;> omega
  · rw [payload]
    simp [compact, compactFields, *]

end ProofRay.Host
