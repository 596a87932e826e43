/- Sealing an active segment and publishing it (`horizon_walstore.py`): no byte is lost that could
   belong to a frame. -/

import ProofRay.Engine.WalCut
import ProofRay.Engine.WalStore

namespace ProofRay.Engine

open Lib (Dict)
open Lib.Guard
open Lib.Struct (unpack unpack_take)

/-- How a call ends without a result: with a state of the store, or with an exception. -/
inductive StoreStop where
  | refused (state : WalStoreState) (reason : String)
  | raised (e : PyError)

/-- A `VALID` result of `seal_active`. -/
structure SealActiveResult where
  reason : String
  repaired : Bool
  idempotent : Bool
  deriving DecidableEq, Repr

structure SealedWalDescriptor where
  sha256 : Bytes
  byteLength : Nat
  deriving DecidableEq, Repr

/-- `_pwrite_all`: the bytes at an offset, over those that were there. -/
def pwriteAll (file data : Bytes) (offset : Nat) : Bytes :=
  file.take offset ++ data ++ file.drop (offset + data.length)

def StoreStop.ofState (e : WalStoreState × String) : StoreStop := .refused e.1 e.2

namespace WalStore

/-- What `seal_active` proves before it looks at the tail: the file, its prefix and the footer
that belongs behind it. -/
def sealPrefix (c : Crypto) (keyring : Keyring) (store : WalStore) (identity : WalIdentity)
    (expected : ActivePrefixExpectation) (expectedLastSeq : Int) (limits : WalStoreLimits) :
    Except StoreStop (Bytes × Bytes × Bytes) := do
  require identity.Ok (.refused .corrupt "identidade fora de u32")
  require (expected.sha256.length = 32 ∧ 0 < expected.byteLength)
    (.refused .corrupt "expectation inválida")
  require (expected.byteLength ≤ limits.maxActiveBytes)
    (.refused .resourceLimit "prefixo excede o limite")
  let file ← orThrow (store.active.get identity) (.refused .missing "ACTIVE ausente")
  require (expected.byteLength ≤ file.length)
    (.refused .corrupt "arquivo menor que o prefixo declarado")
  let data := file.take expected.byteLength.toNat
  require (c.sha256 data = expected.sha256) (.refused .corrupt "prefixo diverge do digest")
  let hi ← (authenticateHeader c keyring data identity).mapError .ofState
  -- the header was authenticated with this key, so that the keyring has it
  let key ← orThrow (keyring.get hi.keyId) (.refused .incompatible "key_id desconhecido")
  let sr := scan c key true identity.scopeId identity.segmentId none (some data)
  require (sr.classification = .clean ∧ (sr.consumedBytes : Int) = expected.byteLength ∧
    ¬ sr.isSealed) (.refused .corrupt "prefixo não canônico")
  require (sr.lastSeq = expectedLastSeq) (.refused .corrupt "last_seq != R")
  let footer ← (sealFooter c key identity.scopeId identity.segmentId expectedLastSeq
    data.length ((c.sha256 data).take 16)).mapError .raised
  return (file, data, footer)

def writeActive (store : WalStore) (identity : WalIdentity) (file : Bytes) : WalStore :=
  ⟨store.active.set identity file, store.objects⟩

def sealActive (c : Crypto) (keyring : Keyring) (store : WalStore) (identity : WalIdentity)
    (expected : ActivePrefixExpectation) (expectedLastSeq : Int) (limits : WalStoreLimits) :
    Except StoreStop SealActiveResult × WalStore :=
  match store.sealPrefix c keyring identity expected expectedLastSeq limits with
  | .error e => (.error e, store)
  | .ok (file, data, footer) =>
    let existing := file.drop data.length
    if existing.length = 0 then
      (.ok ⟨"selado", false, false⟩, store.writeActive identity (pwriteAll file footer data.length))
    else if footer.length < existing.length then
      (.error (.refused .corrupt "cauda maior que um footer — recusado"), store)
    else if existing = footer then (.ok ⟨"idempotente", false, true⟩, store)
    else if existing <+: footer then
      (.ok ⟨"footer reparado", true, false⟩,
        store.writeActive identity (pwriteAll (file.take data.length) footer data.length))
    else if existing.take sealMagic.length = sealMagic then
      (.error (.refused .corrupt "footer divergente"), store)
    else (.error (.refused .corrupt "frame posterior ao prefixo — não trunca"), store)

/-- What `publish_sealed` proves of the active file before it becomes an object. -/
def sealedContent (c : Crypto) (keyring : Keyring) (store : WalStore) (identity : WalIdentity)
    (limits : WalStoreLimits) : Except StoreStop Bytes := do
  require identity.Ok (.refused .corrupt "identidade fora de u32")
  let data ← orThrow (store.active.get identity) (.refused .missing "ausente")
  require ((data.length : Int) ≤ limits.maxSealedBytes)
    (.refused .resourceLimit "excede o limite de tamanho")
  let hi ← (authenticateHeader c keyring data identity).mapError .ofState
  let key ← orThrow (keyring.get hi.keyId) (.refused .incompatible "key_id desconhecido")
  let sr := scan c key true identity.scopeId identity.segmentId none (some data)
  require (sr.classification ≠ .incompatible) (.refused .incompatible "versão do WAL")
  require (sr.classification = .clean) (.refused .corrupt s!"scan {sr.classification.text}")
  require sr.isSealed (.refused .corrupt "sem footer válido — não selável")
  return data

def publishSealed (c : Crypto) (keyring : Keyring) (store : WalStore) (identity : WalIdentity)
    (limits : WalStoreLimits) : Except StoreStop SealedWalDescriptor × WalStore :=
  match store.sealedContent c keyring identity limits with
  | .error e => (.error e, store)
  | .ok data =>
    match store.objects.putObject c data with
    | .error _ => (.error (.refused .corrupt "objeto divergente já existe"), store)
    | .ok objects => (.ok ⟨c.sha256 data, data.length⟩, ⟨store.active, objects⟩)

end WalStore

section

variable {c : Crypto} {key : Bytes} {scopeId segmentId : Int}

variable {required : Bool}

theorem scan_append_sealFooter {data footer : Bytes} {required : Bool}
    (clean : (scan c key required scopeId segmentId none (some data)).classification = .clean)
    (notSealed : (scan c key required scopeId segmentId none (some data)).isSealed = false)
    (sealed : sealFooter c key scopeId segmentId
      (scan c key required scopeId segmentId none (some data)).lastSeq data.length
      ((c.sha256 data).take 16) = .ok footer) :
    scan c key required scopeId segmentId none (some (data ++ footer)) =
      { scan c key required scopeId segmentId none (some data) with
        consumedBytes := (data ++ footer).length, isSealed := true } := by
  obtain ⟨header, authentic, fs, run, scanned⟩ := scans_of_scan clean notSealed
  have long := scanHeader_length authentic
  have whole := List.take_append_drop (segHeaderSize + tagBytes) data
  have size : (data.take (segHeaderSize + tagBytes)).length = segHeaderSize + tagBytes := by
    rw [List.length_take]
    omega
  have authentic' : scanHeader c key scopeId segmentId (data.take (segHeaderSize + tagBytes)) =
      .ok header := by
    rw [← scanHeader_append (by omega) (data.drop (segHeaderSize + tagBytes)), whole]
    exact authentic
  rw [scanned] at sealed ⊢
  rw [← whole] at sealed
  have found := scan_sealFooter size authentic' run sealed required
  rwa [whole] at found

theorem Scans.le_maxSeq {seq : Int} {body : Bytes} {fs : List Frame}
    (run : Scans c key scopeId segmentId seq body fs) : fs = [] ∨ seq + fs.length ≤ maxSeq := by
  induction run with
  | nil seq => exact .inl rfl
  | @cons seq frame rest f fs declared accepted tail ih =>
    right
    have below : seq < maxSeq := by
      simp only [scanFrame] at accepted
      split at accepted
      · rename_i checks
        obtain ⟨-, -, -, -, -, same, canonical⟩ := checks
        rw [← same]
        simp only [canonicalFrameOk] at canonical
        split at canonical
        · cases canonical
        · exact (of_decide_eq_true canonical).2.2.2.2.2.1
      · cases accepted
    rw [List.length_cons]
    push_cast
    rcases ih with rfl | bounded
    · simp only [List.length_nil]
      omega
    · omega

theorem lastSeq_lt {data : Bytes}
    (clean : (scan c key required scopeId segmentId none (some data)).classification = .clean)
    (notSealed : (scan c key required scopeId segmentId none (some data)).isSealed = false) :
    (scan c key required scopeId segmentId none (some data)).lastSeq < 18446744073709551616 := by
  obtain ⟨header, authentic, fs, run, scanned⟩ := scans_of_scan clean notSealed
  rw [scanned]
  show header.firstSeq + fs.length - 1 < 18446744073709551616
  rcases run.le_maxSeq with rfl | bounded
  · have long := scanHeader_length authentic
    simp only [scanHeader, bind_eq_ok, require_eq_ok, pure_eq_ok] at authentic
    obtain ⟨-, -, -, -, -, -, -, -, -, -, -, -, rfl⟩ := authentic
    have size : Lib.Struct.size segHeaderFormat = segHeaderSize := by decide
    have fits : Lib.Struct.Fits segHeaderFormat
        (unpack segHeaderFormat (data.take segHeaderSize)) :=
      Lib.Struct.fits_unpack (by rw [size, List.length_take]; omega) (by decide)
    have small : (SegHeader.ofRecord (unpack segHeaderFormat
        (data.take segHeaderSize))).firstSeq < 256 ^ 8 := fits.2.2.2.2.1.2
    rw [List.length_nil]
    dsimp only
    omega
  · unfold maxSeq at bounded
    omega

theorem exists_sealFooter (c : Crypto) (key : Bytes) {lastSeq : Int} {data : Bytes}
    (seq : 0 ≤ lastSeq ∧ lastSeq < 18446744073709551616)
    (size : (data.length : Int) < 18446744073709551616) (scope : 0 ≤ scopeId ∧ scopeId < 4294967296)
    (segment : 0 ≤ segmentId ∧ segmentId < 4294967296) :
    ∃ footer, sealFooter c key scopeId segmentId lastSeq data.length
      ((c.sha256 data).take 16) = .ok footer := by
  have digestLength : ((c.sha256 data).take 16).length = 16 := by
    rw [List.length_take, c.sha256_length]
    rfl
  have seqFits : 0 ≤ lastSeq ∧ lastSeq < 256 ^ 8 := by omega
  have sizeFits : 0 ≤ (data.length : Int) ∧ (data.length : Int) < 256 ^ 8 := by omega
  have scopeFits : 0 ≤ scopeId ∧ scopeId < 256 ^ 4 := by omega
  have segmentFits : 0 ≤ segmentId ∧ segmentId < 256 ^ 4 := by omega
  obtain ⟨fields, packed⟩ := structPack_of_fits sealFormat
    (sealMagic, lastSeq, (data.length : Int), (c.sha256 data).take 16, ())
    ⟨rfl, seqFits, sizeFits, digestLength, trivial⟩
  obtain ⟨ids, packedIds⟩ := structPack_of_fits [.u32, .u32] (scopeId, segmentId, ())
    ⟨scopeFits, segmentFits, trivial⟩
  simp only [sealFooter, packed, packedIds, ok_bind]
  exact ⟨_, rfl⟩

end

theorem authenticateHeader_append (c : Crypto) (keyring : Keyring) (identity : WalIdentity)
    {data : Bytes} (long : segHeaderSize + tagBytes ≤ data.length) (rest : Bytes) :
    authenticateHeader c keyring (data ++ rest) identity =
      authenticateHeader c keyring data identity := by
  have enough : segHeaderSize + tagBytes ≤ (data ++ rest).length := by
    rw [List.length_append]
    omega
  have front : (data ++ rest).take (segHeaderSize + tagBytes) =
      data.take (segHeaderSize + tagBytes) := List.take_append_of_le_length long
  have size : Lib.Struct.size segHeaderFormat = segHeaderSize := by decide
  have read : unpack segHeaderFormat (data ++ rest) =
      unpack segHeaderFormat data := by
    rw [← unpack_take, size, List.take_append_of_le_length (by omega), ← size, unpack_take]
  rw [authenticateHeader, authenticateHeader, require_of long, require_of enough, read, front]

theorem length_of_authenticateHeader {c : Crypto} {keyring : Keyring} {identity : WalIdentity}
    {data : Bytes} {hi : WalHeaderInfo} (h : authenticateHeader c keyring data identity = .ok hi) :
    segHeaderSize + tagBytes ≤ data.length := by
  simp only [authenticateHeader, bind_eq_ok, require_eq_ok] at h
  obtain ⟨-, long, -⟩ := h
  exact long

/-- A prefix of an active file that was vouched for, and its footer. -/
structure Vouched (c : Crypto) (keyring : Keyring) (store : WalStore) (identity : WalIdentity)
    (expected : ActivePrefixExpectation) (lastSeq : Int) (limits : WalStoreLimits)
    (file data footer : Bytes) (hi : WalHeaderInfo) (key : Bytes) : Prop where
  identity_ok : identity.Ok
  digest_length : expected.sha256.length = 32
  positive : 0 < expected.byteLength
  limited : expected.byteLength ≤ limits.maxActiveBytes
  present : store.active.get identity = some file
  inside : expected.byteLength ≤ file.length
  data_eq : data = file.take expected.byteLength.toNat
  digest_eq : c.sha256 data = expected.sha256
  header : authenticateHeader c keyring data identity = .ok hi
  known : keyring.get hi.keyId = some key
  clean : (scan c key true identity.scopeId identity.segmentId none (some data)).classification =
    .clean
  consumed : ((scan c key true identity.scopeId identity.segmentId none
    (some data)).consumedBytes : Int) = expected.byteLength
  notSealed : (scan c key true identity.scopeId identity.segmentId none (some data)).isSealed =
    false
  last : (scan c key true identity.scopeId identity.segmentId none (some data)).lastSeq = lastSeq
  footer_eq : sealFooter c key identity.scopeId identity.segmentId lastSeq data.length
    ((c.sha256 data).take 16) = .ok footer

section

variable {c : Crypto} {keyring : Keyring} {store : WalStore} {identity : WalIdentity}
  {expected : ActivePrefixExpectation} {lastSeq : Int} {limits : WalStoreLimits}
  {file data footer : Bytes} {hi : WalHeaderInfo} {key : Bytes}

theorem vouched_of_sealPrefix
    (h : store.sealPrefix c keyring identity expected lastSeq limits = .ok (file, data, footer)) :
    ∃ hi key, Vouched c keyring store identity expected lastSeq limits file data footer hi key := by
  simp only [WalStore.sealPrefix, bind_eq_ok, require_eq_ok, orThrow_eq_ok, mapError_eq_ok,
    pure_eq_ok, Prod.mk.injEq] at h
  obtain ⟨-, identity_ok, -, ⟨digest_length, positive⟩, -, limited, file', present, -, inside, -,
    digest_eq, hi, header, key, known, -, ⟨clean, consumed, notSealed⟩, -, last, footer', footer_eq,
    rfl, rfl, rfl⟩ := h
  exact ⟨hi, key, identity_ok, digest_length, positive, limited, present, inside, rfl, digest_eq,
    header, known, clean, consumed, Bool.eq_false_of_not_eq_true notSealed, last, footer_eq⟩

theorem Vouched.sealPrefix
    (v : Vouched c keyring store identity expected lastSeq limits file data footer hi key) :
    store.sealPrefix c keyring identity expected lastSeq limits = .ok (file, data, footer) := by
  simp only [WalStore.sealPrefix, bind_eq_ok, require_eq_ok, orThrow_eq_ok, mapError_eq_ok,
    pure_eq_ok, Prod.mk.injEq]
  have data_eq := v.data_eq
  subst data_eq
  exact ⟨(), v.identity_ok, (), ⟨v.digest_length, v.positive⟩, (), v.limited, file, v.present, (),
    v.inside, (), v.digest_eq, hi, v.header, key, v.known, (),
    ⟨v.clean, v.consumed, by rw [v.notSealed]; exact Bool.false_ne_true⟩, (), v.last, footer,
    v.footer_eq, rfl, rfl, rfl⟩

theorem Vouched.length_data
    (v : Vouched c keyring store identity expected lastSeq limits file data footer hi key) :
    (data.length : Int) = expected.byteLength := by
  have inside := v.inside
  have positive := v.positive
  rw [v.data_eq, List.length_take]
  omega

theorem Vouched.file_eq
    (v : Vouched c keyring store identity expected lastSeq limits file data footer hi key) :
    file = data ++ file.drop data.length := by
  have length := v.length_data
  have same : expected.byteLength.toNat = data.length := by omega
  have data_eq := v.data_eq
  rw [same] at data_eq
  conv_lhs => rw [← List.take_append_drop data.length file]
  rw [← data_eq]

theorem Vouched.behind
    (v : Vouched c keyring store identity expected lastSeq limits file data footer hi key)
    {store' : WalStore} {rest : Bytes}
    (present : store'.active.get identity = some (data ++ rest)) :
    Vouched c keyring store' identity expected lastSeq limits (data ++ rest) data footer hi
      key := by
  have length := v.length_data
  refine ⟨v.identity_ok, v.digest_length, v.positive, v.limited, present, ?_, ?_, v.digest_eq,
    v.header, v.known, v.clean, v.consumed, v.notSealed, v.last, v.footer_eq⟩
  · rw [List.length_append]
    omega
  · have same : expected.byteLength.toNat = data.length := by omega
    rw [same, List.take_left]

theorem sealPrefix_not_raised {e : PyError} (nonneg : 0 ≤ lastSeq)
    (sized : ∀ file, store.active.get identity = some file →
      (file.length : Int) < 18446744073709551616) :
    store.sealPrefix c keyring identity expected lastSeq limits ≠ .error (.raised e) := by
  intro h
  simp only [WalStore.sealPrefix, bind_eq_error, require_eq_error, orThrow_eq_error,
    mapError_eq_error, require_eq_ok, orThrow_eq_ok, mapError_eq_ok, reduceCtorEq, and_false,
    false_or, StoreStop.ofState, pure_ne_error, or_false, exists_false, StoreStop.raised.injEq] at h
  obtain ⟨-, identity_ok, -, -, -, -, file, present, -, inside, -, -, hi, -, key, -, -,
    ⟨clean, -, notSealed⟩, -, last, e', unpacked, -⟩ := h
  have bounded := lastSeq_lt clean (Bool.eq_false_of_not_eq_true notSealed)
  rw [last] at bounded
  have small := sized file present
  have shorter : (file.take expected.byteLength.toNat).length ≤ file.length := by
    rw [List.length_take]
    omega
  unfold WalIdentity.Ok u32Max at identity_ok
  have fits : ∃ footer, sealFooter c key identity.scopeId identity.segmentId lastSeq
      (file.take expected.byteLength.toNat).length
      ((c.sha256 (file.take expected.byteLength.toNat)).take 16) = .ok footer :=
    exists_sealFooter c key ⟨nonneg, bounded⟩ (by omega) (by omega) (by omega)
  obtain ⟨footer, packed⟩ := fits
  rw [packed] at unpacked
  cases unpacked

theorem pwriteAll_end (data footer : Bytes) :
    pwriteAll data footer data.length = data ++ footer := by
  rw [pwriteAll, List.take_length, List.drop_eq_nil_of_le (by omega), List.append_nil]

theorem sealActive_of_torn
    (v : Vouched c keyring store identity expected lastSeq limits file data footer hi key)
    (torn : file.drop data.length <+: footer) :
    ∃ result store', store.sealActive c keyring identity expected lastSeq limits =
        (.ok result, store') ∧
      (store' = store ∧ file = data ++ footer ∨
        store' = store.writeActive identity (data ++ footer)) := by
  have split := v.file_eq
  have short : ¬ footer.length < (file.drop data.length).length := Nat.not_lt.mpr torn.length_le
  rw [WalStore.sealActive, v.sealPrefix]
  dsimp only
  by_cases blank : (file.drop data.length).length = 0
  · rw [if_pos blank]
    have nothing := List.eq_nil_of_length_eq_zero blank
    rw [nothing, List.append_nil] at split
    rw [split, pwriteAll_end]
    exact ⟨_, _, rfl, .inr rfl⟩
  · rw [if_neg blank, if_neg short]
    by_cases complete : file.drop data.length = footer
    · rw [if_pos complete]
      rw [complete] at split
      exact ⟨_, _, rfl, .inl ⟨rfl, split⟩⟩
    · have front : file.take data.length = data := by
        conv_lhs => rw [split]
        exact List.take_left
      rw [if_neg complete, if_pos torn, front, pwriteAll_end]
      exact ⟨_, _, rfl, .inr rfl⟩

theorem sealActive_of_foreign
    (v : Vouched c keyring store identity expected lastSeq limits file data footer hi key)
    (foreign : ¬ file.drop data.length <+: footer) :
    ∃ reason, store.sealActive c keyring identity expected lastSeq limits =
      (.error (.refused .corrupt reason), store) := by
  have behind : (file.drop data.length).length ≠ 0 := by
    intro blank
    rw [List.eq_nil_of_length_eq_zero blank] at foreign
    exact foreign List.nil_prefix
  have other : file.drop data.length ≠ footer := by
    intro complete
    rw [complete] at foreign
    exact foreign List.prefix_rfl
  rw [WalStore.sealActive, v.sealPrefix]
  dsimp only
  rw [if_neg behind]
  split_ifs
  · exact ⟨_, rfl⟩
  · exact ⟨_, rfl⟩
  · exact ⟨_, rfl⟩

theorem sealActive_again
    (v : Vouched c keyring store identity expected lastSeq limits file data footer hi key)
    (present : store.active.get identity = some (data ++ footer)) (nonempty : footer ≠ []) :
    store.sealActive c keyring identity expected lastSeq limits =
      (.ok ⟨"idempotente", false, true⟩, store) := by
  have positive : footer.length ≠ 0 := fun blank => nonempty (List.eq_nil_of_length_eq_zero blank)
  rw [WalStore.sealActive, (v.behind present).sealPrefix]
  dsimp only
  rw [List.drop_left, if_neg positive, if_neg (Nat.lt_irrefl _), if_pos rfl]

theorem Vouched.scan_append
    (v : Vouched c keyring store identity expected lastSeq limits file data footer hi key) :
    scan c key true identity.scopeId identity.segmentId none (some (data ++ footer)) =
      { scan c key true identity.scopeId identity.segmentId none (some data) with
        consumedBytes := (data ++ footer).length, isSealed := true } := by
  have sealed := v.footer_eq
  rw [← v.last] at sealed
  exact scan_append_sealFooter v.clean v.notSealed sealed

theorem footer_ne_nil
    (v : Vouched c keyring store identity expected lastSeq limits file data footer hi key) :
    footer ≠ [] := by
  obtain ⟨-, length, -⟩ := scanHead_sealFooter lastSeq v.footer_eq
  intro blank
  rw [blank] at length
  cases length

theorem publishSealed_ok
    (v : Vouched c keyring store identity expected lastSeq limits file data footer hi key)
    (present : store.active.get identity = some (data ++ footer)) {limits' : WalStoreLimits}
    (small : ((data ++ footer).length : Int) ≤ limits'.maxSealedBytes)
    (free : ∀ object, store.objects.get (c.sha256 (data ++ footer)) = some object →
      object = data ++ footer) :
    ∃ objects, store.publishSealed c keyring identity limits' =
        (.ok ⟨c.sha256 (data ++ footer), (data ++ footer).length⟩, ⟨store.active, objects⟩) ∧
      objects.get (c.sha256 (data ++ footer)) = some (data ++ footer) := by
  have scanned := v.scan_append
  have header : authenticateHeader c keyring (data ++ footer) identity = .ok hi := by
    rw [authenticateHeader_append c keyring identity (length_of_authenticateHeader v.header)]
    exact v.header
  have content : store.sealedContent c keyring identity limits' = .ok (data ++ footer) := by
    simp only [WalStore.sealedContent, bind_eq_ok, require_eq_ok, orThrow_eq_ok, mapError_eq_ok,
      pure_eq_ok]
    refine ⟨(), v.identity_ok, _, present, (), small, hi, header, key, v.known, (), ?_, (), ?_,
      (), ?_, rfl⟩
    · rw [scanned]
      show (scan c key true identity.scopeId identity.segmentId none (some data)).classification ≠ _
      rw [v.clean]
      decide
    · rw [scanned]
      exact v.clean
    · rw [scanned]
  obtain ⟨objects, put⟩ : ∃ objects, store.objects.putObject c (data ++ footer) = .ok objects := by
    rw [ObjectStore.putObject]
    cases taken : store.objects.get (c.sha256 (data ++ footer)) with
    | none => exact ⟨_, rfl⟩
    | some object =>
      dsimp only
      rw [if_pos (free object taken)]
      exact ⟨_, rfl⟩
  refine ⟨objects, ?_, ObjectStore.get_self_of_putObject put⟩
  rw [WalStore.publishSealed, content]
  dsimp only
  rw [put]

end

/-- What a valid sealing did to the store. -/
structure Sealed (c : Crypto) (keyring : Keyring) (store store' : WalStore)
    (identity : WalIdentity) (expected : ActivePrefixExpectation) (lastSeq : Int)
    (limits : WalStoreLimits) (data footer key : Bytes) : Prop where
  vouched : (data.length : Int) = expected.byteLength ∧ c.sha256 data = expected.sha256
  footer_eq : sealFooter c key identity.scopeId identity.segmentId lastSeq data.length
    ((c.sha256 data).take 16) = .ok footer
  /-- What was behind the prefix is a part of the footer. -/
  before : ∃ torn, store.active.get identity = some (data ++ torn) ∧ torn <+: footer
  after : store'.active.get identity = some (data ++ footer)
  others : ∀ other, other ≠ identity → store'.active.get other = store.active.get other
  objects : store'.objects = store.objects
  again : store'.sealActive c keyring identity expected lastSeq limits =
    (.ok ⟨"idempotente", false, true⟩, store')
  last : (scan c key true identity.scopeId identity.segmentId none (some data)).lastSeq = lastSeq
  scanned : scan c key true identity.scopeId identity.segmentId none (some (data ++ footer)) =
    { scan c key true identity.scopeId identity.segmentId none (some data) with
      consumedBytes := (data ++ footer).length, isSealed := true }
  published : ∀ limits' : WalStoreLimits,
    ((data ++ footer).length : Int) ≤ limits'.maxSealedBytes →
    (∀ object, store.objects.get (c.sha256 (data ++ footer)) = some object →
      object = data ++ footer) →
    ∃ objects, store'.publishSealed c keyring identity limits' =
        (.ok ⟨c.sha256 (data ++ footer), (data ++ footer).length⟩, ⟨store'.active, objects⟩) ∧
      objects.get (c.sha256 (data ++ footer)) = some (data ++ footer)

/-- Sealing loses no frame: it is refused and nothing changes, or the file is the prefix that
was vouched for with its footer, at most a part of that footer was removed, and the file is
then published as the same frames. -/
theorem sealing_loses_no_frame (c : Crypto) (keyring : Keyring) (store : WalStore)
    (identity : WalIdentity) (expected : ActivePrefixExpectation) (lastSeq : Int)
    (limits : WalStoreLimits) (nonneg : 0 ≤ lastSeq)
    (sized : ∀ file, store.active.get identity = some file →
      (file.length : Int) < 18446744073709551616) :
    (∃ state reason, store.sealActive c keyring identity expected lastSeq limits =
      (.error (.refused state reason), store)) ∨
    ∃ result store' data footer key,
      store.sealActive c keyring identity expected lastSeq limits = (.ok result, store') ∧
      Sealed c keyring store store' identity expected lastSeq limits data footer key := by
  cases proven : store.sealPrefix c keyring identity expected lastSeq limits with
  | error stop =>
    left
    cases stop with
    | refused state reason => exact ⟨state, reason, by rw [WalStore.sealActive, proven]⟩
    | raised e => exact absurd proven (sealPrefix_not_raised nonneg sized)
  | ok found =>
    obtain ⟨file, data, footer⟩ := found
    obtain ⟨hi, key, v⟩ := vouched_of_sealPrefix proven
    by_cases torn : file.drop data.length <+: footer
    · right
      obtain ⟨result, store', called, changed⟩ := sealActive_of_torn v torn
      have after : store'.active.get identity = some (data ++ footer) := by
        rcases changed with ⟨rfl, same⟩ | rfl
        · rw [v.present, same]
        · exact Dict.get_set_self ..
      have objects : store'.objects = store.objects := by
        rcases changed with ⟨rfl, -⟩ | rfl <;> rfl
      refine ⟨result, store', data, footer, key, called, ⟨v.length_data, v.digest_eq⟩,
        v.footer_eq, ⟨_, v.file_eq ▸ v.present, torn⟩, after, ?_, objects,
        sealActive_again (v.behind after) after (footer_ne_nil v), v.last, ?_, ?_⟩
      · intro other ne
        rcases changed with ⟨rfl, -⟩ | rfl
        · rfl
        · exact Dict.get_set_ne _ _ (Ne.symm ne)
      · exact v.scan_append
      · intro limits' small free
        rw [← objects] at free
        exact publishSealed_ok (v.behind after) after small free
    · obtain ⟨reason, refused⟩ := sealActive_of_foreign v torn
      exact .inl ⟨_, reason, refused⟩

theorem authenticateHeader_of_scanHeader {c : Crypto} {keyring : Keyring} {identity : WalIdentity}
    {data key : Bytes} {header : WalHeaderInfo}
    (authentic : scanHeader c key identity.scopeId identity.segmentId data = .ok header)
    (known : keyring.get header.keyId = some key) :
    authenticateHeader c keyring data identity = .ok header := by
  have long := scanHeader_length authentic
  have size : Lib.Struct.size segHeaderFormat = segHeaderSize := by decide
  have front : (data.take (segHeaderSize + tagBytes)).length = segHeaderSize + tagBytes := by
    rw [List.length_take]
    omega
  have kid : (SegHeader.ofRecord (unpack segHeaderFormat data)).kid =
      header.keyId := by
    rw [← unpack_take, size]
    simp only [scanHeader, bind_eq_ok, require_eq_ok, pure_eq_ok] at authentic
    obtain ⟨-, -, -, -, -, -, -, -, -, -, -, -, rfl⟩ := authentic
    rfl
  have authentic' : scanHeader c key identity.scopeId identity.segmentId
      (data.take (segHeaderSize + tagBytes)) = .ok header := by
    rw [← scanHeader_append (by omega) (data.drop (segHeaderSize + tagBytes)),
      List.take_append_drop]
    exact authentic
  have frameless : Scans c key identity.scopeId identity.segmentId header.firstSeq
      ((data.take (segHeaderSize + tagBytes)).drop (segHeaderSize + tagBytes)) [] := by
    rw [List.drop_eq_nil_of_le (by omega)]
    exact .nil _
  have scanned : scan c key true identity.scopeId identity.segmentId none
      (some (data.take (segHeaderSize + tagBytes))) = _ :=
    scan_of_scans authentic' frameless
  rw [authenticateHeader, require_of long, ok_bind]
  simp only [kid, known, orThrow_some, ok_bind, scanned]
  rfl

theorem vouched_of_faithful {c : Crypto} {w : WalWriter} (faithful : Faithful c w)
    {keyring : Keyring} {store : WalStore} {limits : WalStoreLimits} {rest footer : Bytes}
    (identity_ok : (WalIdentity.mk w.scopeId w.segmentId).Ok)
    (present : store.active.get ⟨w.scopeId, w.segmentId⟩ = some (w.file ++ rest))
    (known : keyring.get w.keyId = some w.key)
    (limited : (w.file.length : Int) ≤ limits.maxActiveBytes)
    (footer_eq : sealFooter c w.key w.scopeId w.segmentId (w.nextSeq - 1) w.file.length
      ((c.sha256 w.file).take 16) = .ok footer) :
    ∃ hi, Vouched c keyring store ⟨w.scopeId, w.segmentId⟩ ⟨w.file.length, c.sha256 w.file⟩
      (w.nextSeq - 1) limits (w.file ++ rest) w.file footer hi w.key := by
  obtain ⟨head, body, fs, file, size, authentic, run, -, count, -⟩ := faithful.recorded
  have authentic' := (scanHeader_append (by omega) body).trans authentic
  rw [← file] at authentic'
  have long := scanHeader_length authentic'
  have scanned : scan c w.key true w.scopeId w.segmentId none (some w.file) = _ :=
    scan_of_scans authentic' (by rw [file, List.drop_left' size]; exact run)
  have header : authenticateHeader c keyring w.file ⟨w.scopeId, w.segmentId⟩ = .ok _ :=
    authenticateHeader_of_scanHeader authentic' known
  have whole : (w.file ++ rest).take (Int.toNat w.file.length) = w.file := by
    rw [Int.toNat_natCast, List.take_left]
  refine ⟨_, identity_ok, c.sha256_length _, ?_, limited, present, ?_, whole.symm, rfl, header,
    known, ?_, ?_, ?_, ?_, footer_eq⟩
  · unfold segHeaderSize tagBytes at long
    dsimp only
    omega
  · rw [List.length_append]
    dsimp only
    omega
  all_goals rw [scanned]
  rw [count]

def segmentKeyring : Keyring := ⟨Dict.empty.set 0 []⟩

def segmentStore (file : Bytes) : WalStore := ⟨Dict.empty.set ⟨1, 1⟩ file, .init⟩

theorem vouched_first (limits : WalStoreLimits) (limited : 67 ≤ limits.maxActiveBytes) :
    ∃ w footer hi, WalWriter.createNew stdCrypto [] 1 1 1 0 (zeros 16) = .ok w ∧
      w.file.length = 67 ∧
      Vouched stdCrypto segmentKeyring (segmentStore w.file) ⟨1, 1⟩ ⟨67, stdCrypto.sha256 w.file⟩ 0
        limits w.file w.file footer hi [] := by
  obtain ⟨w, created, first⟩ := createNew_first
  obtain ⟨keyEq, scopeEq, segmentEq, size⟩ : w.key = [] ∧ w.scopeId = 1 ∧ w.segmentId = 1 ∧
      w.file.length = segHeaderSize + tagBytes := createNew_identity created
  have keyIdEq : w.keyId = 0 := by
    simp only [WalWriter.createNew, bind_eq_ok, pure_eq_ok] at created
    obtain ⟨header, -, rfl⟩ := created
    rfl
  have fits : ∃ footer, sealFooter stdCrypto w.key w.scopeId w.segmentId (w.nextSeq - 1)
      w.file.length ((stdCrypto.sha256 w.file).take 16) = .ok footer :=
    exists_sealFooter stdCrypto w.key (by omega) (by rw [size]; decide) (by omega) (by omega)
  obtain ⟨footer, footer_eq⟩ := fits
  have present : (segmentStore w.file).active.get ⟨w.scopeId, w.segmentId⟩ =
      some (w.file ++ []) := by
    rw [scopeEq, segmentEq, List.append_nil]
    exact Dict.get_set_self ..
  have known : segmentKeyring.get w.keyId = some w.key := by
    rw [keyIdEq, keyEq]
    rfl
  have small : (w.file.length : Int) ≤ limits.maxActiveBytes := by
    rw [size]
    exact limited
  obtain ⟨hi, v⟩ := vouched_of_faithful (faithful_createNew created)
    (by rw [scopeEq, segmentEq]; decide) present known small footer_eq
  rw [keyEq, scopeEq, segmentEq, first, size, List.append_nil] at v
  exact ⟨w, footer, hi, created, size, v⟩

/-- A segment with no frames yet is sealed. -/
theorem sealing_loses_no_frame_first : ∃ file result store' data footer key,
    (segmentStore file).sealActive stdCrypto segmentKeyring ⟨1, 1⟩ ⟨67, stdCrypto.sha256 file⟩ 0
      defaultWalStoreLimits = (.ok result, store') ∧
    Sealed stdCrypto segmentKeyring (segmentStore file) store' ⟨1, 1⟩
      ⟨67, stdCrypto.sha256 file⟩ 0 defaultWalStoreLimits data footer key := by
  obtain ⟨w, footer, hi, -, size, v⟩ := vouched_first defaultWalStoreLimits (by decide)
  have behind : w.file.drop w.file.length <+: footer := by
    rw [List.drop_length]
    exact List.nil_prefix
  obtain ⟨result, store', called, -⟩ := sealActive_of_torn v behind
  rcases sealing_loses_no_frame stdCrypto segmentKeyring (segmentStore w.file) ⟨1, 1⟩
      ⟨67, stdCrypto.sha256 w.file⟩ 0 defaultWalStoreLimits (by decide) (by
        intro file present
        cases v.present.symm.trans present
        rw [size]
        decide) with ⟨state, reason, refused⟩ | sealed
  · rw [called] at refused
    cases refused
  · obtain ⟨result, store', data, footer, key, called, done⟩ := sealed
    exact ⟨w.file, result, store', data, footer, key, called, done⟩

/-- A segment that is sealed is not published when it is over the limit of a sealed one. -/
theorem sealed_not_published : ¬ ∀ (c : Crypto) (keyring : Keyring) (store store' : WalStore)
    (identity : WalIdentity) (expected : ActivePrefixExpectation) (lastSeq : Int)
    (limits : WalStoreLimits) (result : SealActiveResult),
    store.sealActive c keyring identity expected lastSeq limits = (.ok result, store') →
    ∃ descriptor store'', store'.publishSealed c keyring identity limits =
      (.ok descriptor, store'') := by
  intro claim
  obtain ⟨w, footer, hi, -, size, v⟩ := vouched_first ⟨100, 100⟩ (by decide)
  have behind : w.file.drop w.file.length <+: footer := by
    rw [List.drop_length]
    exact List.nil_prefix
  obtain ⟨result, store', called, changed⟩ := sealActive_of_torn v behind
  obtain ⟨-, length, -⟩ := scanHead_sealFooter 0 v.footer_eq
  have after : store'.active.get ⟨1, 1⟩ = some (w.file ++ footer) := by
    rcases changed with ⟨rfl, same⟩ | rfl
    · exact v.present.trans (congrArg some same)
    · exact Dict.get_set_self ..
  have large : ¬ (((w.file ++ footer).length : Int) ≤ 100) := by
    rw [List.length_append, size, length]
    decide
  obtain ⟨descriptor, store'', published⟩ := claim _ _ _ _ _ _ _ _ _ called
  have refused : store'.sealedContent stdCrypto segmentKeyring ⟨1, 1⟩ ⟨100, 100⟩ =
      .error (.refused .resourceLimit "excede o limite de tamanho") := by
    rw [WalStore.sealedContent, require_of v.identity_ok, ok_bind, after, orThrow_some, ok_bind,
      require, if_neg large]
    rfl
  rw [WalStore.publishSealed, refused] at published
  cases published

end ProofRay.Engine
