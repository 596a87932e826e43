/- The journal of a collection: what `run_gc` writes and what `recover_gc` reads back, up to
   the size the reader accepts. -/

import ProofRay.Engine.GcReach

namespace ProofRay.Engine

open Lib (Dict)
open Lib.Guard
open Lib.Struct (unpack)

variable {c : Crypto} {keyring : Keyring}

theorem length_hexText (b : Bytes) : (hexText b).length = 2 * b.length := by
  induction b with
  | nil => rfl
  | cons x xs ih =>
    show (hexText xs).length + 1 + 1 = 2 * (xs.length + 1)
    omega

private theorem hexDigit_ok : ∀ n < 16, isHexDigit (hexDigit n) = true ∧ hexDigit n < 0x80 := by
  decide

variable {journal : Option Bytes × Bytes} {planDigest blob : Bytes} {listed : List GcItem}
  {roots : GcRoots} {later : GcDisk} {plan : GcPlan} {keyId : Int} {b : Bytes}

theorem hexDigit_of_mem_hexText {x : UInt8} (member : x ∈ hexText b) :
    isHexDigit x = true ∧ x < 0x80 := by
  obtain ⟨y, -, digit⟩ := List.mem_flatMap.mp member
  have high : y.toNat / 16 < 16 := by
    have := y.toNat_lt
    omega
  have low : y.toNat % 16 < 16 := Nat.mod_lt _ (by decide)
  rcases List.mem_cons.mp digit with rfl | rest
  · exact hexDigit_ok _ high
  · rw [List.mem_singleton.mp rest]
    exact hexDigit_ok _ low

private theorem hexDigit_hexValue : ∀ n < 256, isHexDigit (UInt8.ofNat n) = true →
    hexValue (UInt8.ofNat n) < 16 ∧ hexDigit (hexValue (UInt8.ofNat n)) = UInt8.ofNat n := by
  decide +kernel

theorem hexText_unhexText : ∀ {key : Bytes}, key.length % 2 = 0 →
    (∀ x ∈ key, isHexDigit x = true) → hexText (unhexText key) = key
  | [], _, _ => rfl
  | [_], even, _ => by simp at even
  | hi :: lo :: rest, even, digits => by
    have digit (x : UInt8) (hex : isHexDigit x = true) :
        hexValue x < 16 ∧ hexDigit (hexValue x) = x := by
      have := hexDigit_hexValue x.toNat x.toNat_lt
      rw [UInt8.ofNat_toNat] at this
      exact this hex
    obtain ⟨high, first⟩ := digit hi (digits hi List.mem_cons_self)
    obtain ⟨low, second⟩ := digit lo (digits lo (List.mem_cons_of_mem _ List.mem_cons_self))
    have tail : hexText (unhexText rest) = rest := by
      apply hexText_unhexText
      · simp only [List.length_cons] at even
        omega
      · exact fun x member => digits x (List.mem_cons_of_mem _ (List.mem_cons_of_mem _ member))
    have value : (UInt8.ofNat (hexValue hi * 16 + hexValue lo)).toNat =
        hexValue hi * 16 + hexValue lo := by
      rw [UInt8.toNat_ofNat']
      omega
    have upper : (hexValue hi * 16 + hexValue lo) / 16 = hexValue hi := by omega
    have lower : (hexValue hi * 16 + hexValue lo) % 16 = hexValue lo := by omega
    show hexDigit ((UInt8.ofNat (hexValue hi * 16 + hexValue lo)).toNat / 16) ::
      hexDigit ((UInt8.ofNat (hexValue hi * 16 + hexValue lo)).toNat % 16) ::
        hexText (unhexText rest) = hi :: lo :: rest
    rw [value, upper, lower, first, second, tail]

theorem utf8Valid_of_ascii (ascii : ∀ x ∈ b, x < 0x80) : utf8Valid b = true := by
  induction b with
  | nil => rfl
  | cons x xs ih =>
    obtain ⟨first, rest⟩ := List.forall_mem_cons.mp ascii
    unfold utf8Valid
    rw [if_pos first]
    exact ih rest

def GcItem.Named (item : GcItem) : Prop := ∃ d : Bytes, d.length = 32 ∧ item = objItem d

variable {items : List GcItem} {item : GcItem} {disk : GcDisk}
  {journals : List (Option Bytes × Bytes)} {key : Option Bytes} {call : GcCall}

theorem GcItem.Named.kind (named : item.Named) : item.kind = .object := by
  obtain ⟨d, -, rfl⟩ := named
  rfl

theorem GcItem.Named.length_key (named : item.Named) : item.key.length = 64 := by
  obtain ⟨d, length, rfl⟩ := named
  show (hexText d).length = 64
  rw [length_hexText, length]

theorem GcItem.Named.key_ok (named : item.Named) :
    utf8Valid item.key = true ∧ item.key.all isHexDigit = true := by
  obtain ⟨d, -, rfl⟩ := named
  constructor
  · exact utf8Valid_of_ascii fun x member => (hexDigit_of_mem_hexText member).2
  · exact List.all_eq_true.mpr fun x member => (hexDigit_of_mem_hexText member).1

theorem sortItems_eq_self (nodup : items.Nodup) (sorted : items.Pairwise fun a b => a.rank ≤ b.rank)
    : sortItems items = items := by
  rw [sortItems, nodup.dedup]
  exact sorted.insertionSort_eq

theorem sortItems_movable (plan : GcPlan) : sortItems plan.movable = plan.movable := by
  apply sortItems_eq_self (nodup_movable plan)
  apply List.Pairwise.filter
  exact List.pairwise_insertionSort _ _

theorem length_journalItem {blob : Bytes} (encoded : journalItem item = .ok blob) :
    blob.length = 3 + item.key.length := by
  obtain ⟨head, packed, made⟩ := bind_eq_ok.mp encoded
  cases made
  rw [List.length_append, length_of_structPack packed]
  rfl

theorem parseJournalItems_journalItem (named : item.Named) :
    ∃ blob, journalItem item = .ok blob ∧ ∀ n rest,
      parseJournalItems (n + 1) (blob ++ rest) =
        (parseJournalItems n rest).map fun items => item :: items := by
  have fits : Lib.Struct.Fits [.u8, .u16]
      (item.kind.code, (item.key.length : Int), ()) := by
    rw [named.kind, named.length_key]
    decide
  obtain ⟨head, packed⟩ := structPack_of_fits [.u8, .u16] _ fits
  refine ⟨head ++ item.key, bind_eq_ok.mpr ⟨head, packed, rfl⟩, ?_⟩
  intro n rest
  have width : head.length = 3 := length_of_structPack packed
  have fields : unpack [.u8, .u16] (head ++ (item.key ++ rest)) =
      (item.kind.code, (item.key.length : Int), ()) := unpack_structPack packed trivial _
  have tail : (head ++ (item.key ++ rest)).drop 3 = item.key ++ rest := by
    rw [← width, List.drop_left]
  have room : 3 ≤ (head ++ (item.key ++ rest)).length := by
    rw [List.length_append, width]
    omega
  have inside : (item.key.length : Int) ≤ ((item.key ++ rest).length : Int) := by
    rw [List.length_append]
    omega
  have valid := named.key_ok.1
  have whole : (⟨.object, item.key⟩ : GcItem) = item := by
    rw [← named.kind]
  rw [List.append_assoc, parseJournalItems]
  simp only [fields, tail, named.kind, GcKind.code, Int.toNat_natCast, List.take_left,
    List.drop_left, valid, if_true, whole, guard, room, inside, true_or, true_and]
  cases parseJournalItems n rest <;> rfl

theorem parseJournalItems_journalItems (named : ∀ item ∈ items, item.Named) :
    ∃ blob, journalItems items = .ok blob ∧ blob.length = 67 * items.length ∧
      parseJournalItems items.length blob = some items := by
  induction items with
  | nil => exact ⟨[], rfl, rfl, rfl⟩
  | cons item items ih =>
    obtain ⟨here, others⟩ := List.forall_mem_cons.mp named
    obtain ⟨first, encoded, reads⟩ := parseJournalItems_journalItem here
    obtain ⟨rest, encodedRest, length, readsRest⟩ := ih others
    refine ⟨first ++ rest, ?_, ?_, ?_⟩
    · unfold journalItems
      rw [encoded, encodedRest]
      rfl
    · have := length_journalItem encoded
      rw [here.length_key] at this
      rw [List.length_append, List.length_cons]
      omega
    · rw [List.length_cons, reads, readsRest]
      rfl

/-- The bytes of a journal of `n` objects. -/
def journalLength (n : Nat) : Nat := jrnSize + 67 * n + tagBytes

/-- The largest number of objects whose journal `_read_record_limited` accepts. -/
def maxJournalItems : Nat := 977

theorem journalLength_le_iff (n : Nat) :
    journalLength n ≤ maxRecordBytes ↔ n ≤ maxJournalItems := by
  unfold journalLength maxRecordBytes maxJournalItems jrnSize tagBytes
  omega

theorem authenticatedJournal_spec (c : Crypto) (key : Bytes) {planDigest : Bytes}
    (digest : planDigest.length = 32) (named : ∀ item ∈ items, item.Named)
    (canonical : sortItems items = items) (few : items.length < 2 ^ 32) :
    ∃ blob, authenticatedJournal c planDigest items key = .ok blob ∧
      blob.length = journalLength items.length ∧
      (items.length ≤ 1000000 → parseJournal c blob key = some (planDigest, items)) := by
  obtain ⟨body, encoded, length, reads⟩ := parseJournalItems_journalItems named
  have version : (0 : Int) ≤ 1 ∧ (1 : Int) < 65536 := by decide
  obtain ⟨header, packed⟩ := structPack_of_fits jrnFormat
    (ascii "HGCJ", 1, planDigest, (items.length : Int), ())
    ⟨rfl, version, digest, ⟨Int.natCast_nonneg _, Int.ofNat_lt.mpr few⟩, trivial⟩
  have headerLength : header.length = jrnSize := length_of_structPack packed
  have size : (header ++ body ++ journalMac c key (header ++ body)).length =
      journalLength items.length := by
    rw [List.length_append, List.length_append, headerLength, length, journalMac, c.length_tag]
    rfl
  refine ⟨_, ?_, size, ?_⟩
  · unfold authenticatedJournal
    simp only [canonical, packed, encoded]
    rfl
  · intro bounded
    have fields : unpack jrnFormat (header ++ body ++ journalMac c key (header ++ body)) =
        (ascii "HGCJ", 1, planDigest, (items.length : Int), ()) := by
      rw [List.append_assoc]
      exact unpack_structPack packed ⟨rfl, digest, trivial⟩ _
    have cut : (header ++ body ++ journalMac c key (header ++ body)).length - tagBytes =
        (header ++ body).length := by
      rw [List.length_append, journalMac, c.length_tag, Nat.add_sub_cancel]
    have front : (header ++ body).drop jrnSize = body := by
      rw [← headerLength, List.drop_left]
    have long : jrnSize + tagBytes ≤
        (header ++ body ++ journalMac c key (header ++ body)).length := by
      rw [size]
      unfold journalLength
      omega
    have count : (items.length : Int) ≤ 1000000 := by exact_mod_cast bounded
    have shapes : ∀ item ∈ items, item.kind = .object →
        item.key.length = 64 ∧ item.key.all isHexDigit = true :=
      fun item member _ => ⟨(named item member).length_key, (named item member).key_ok.2⟩
    unfold parseJournal
    rw [fields, cut, List.take_left, List.drop_left]
    simp only [front, Int.toNat_natCast, reads, guard, long, if_true, true_and, count,
      Option.pure_def, Option.bind_eq_bind, Option.bind_some, canonical]
    rw [if_pos shapes]
    rfl

theorem named_of_parseJournal {blob key planDigest : Bytes}
    (parsed : parseJournal c blob key = some (planDigest, items)) :
    ∀ item ∈ items, item.kind = .object → item.Named := by
  simp only [parseJournal, Option.bind_eq_bind, Option.bind_eq_some_iff, Option.pure_def,
    Option.some.injEq, Prod.mk.injEq] at parsed
  obtain ⟨_, _, _, _, _, _, items', _, _, _, _, shapes, _, same⟩ := parsed
  subst same
  intro item member object
  have checked := (Option.guard_eq_some' _).mp shapes
  obtain ⟨length, digits⟩ := checked item member object
  refine ⟨unhexText item.key, ?_, ?_⟩
  · have spelled : hexText (unhexText item.key) = item.key :=
      hexText_unhexText (by rw [length]) (List.all_eq_true.mp digits)
    have := length_hexText (unhexText item.key)
    rw [spelled, length] at this
    omega
  · have spelled : hexText (unhexText item.key) = item.key :=
      hexText_unhexText (by rw [length]) (List.all_eq_true.mp digits)
    rw [objItem, spelled, ← object]

theorem named_of_openJournals (opened : openJournals c key journals = some listed) :
    ∀ item ∈ listed, item.kind = .object → item.Named := by
  induction journals generalizing listed with
  | nil =>
    cases opened
    simp
  | cons journal journals ih =>
    obtain ⟨name, blob⟩ := journal
    simp only [openJournals, openJournal, Option.bind_eq_bind, Option.bind_eq_some_iff,
      Option.pure_def, Option.some.injEq] at opened
    obtain ⟨items, ⟨k, -, data, -, ⟨digest, parsed⟩, found, -, -, same⟩, rest, others, rfl⟩ :=
      opened
    subst same
    intro item member
    rcases List.mem_append.mp member with here | later
    · exact named_of_parseJournal found item here
    · exact ih others item later

def digests (items : List GcItem) : List Bytes := items.map fun item => unhexText item.key

/-- The effect of a series of renames out of quarantine. -/
structure Restored (disk final : GcDisk) (names : List Bytes) : Prop where
  objects : ∀ d, final.objects.get d =
    if d ∈ names then (disk.quarantine.get d).or (disk.objects.get d) else disk.objects.get d
  quarantine : ∀ d, final.quarantine.get d = if d ∈ names then none else disk.quarantine.get d
  active : final.active = disk.active
  scopes : final.scopes = disk.scopes
  journals : final.journals = disk.journals
  legacyJournal : final.legacyJournal = disk.legacyJournal

theorem Restored.skip {disk final : GcDisk} {names : List Bytes} {d : Bytes}
    (absent : disk.quarantine.get d = none) (rest : Restored disk final names) :
    Restored disk final (d :: names) := by
  refine ⟨fun d' => ?_, fun d' => ?_, rest.active, rest.scopes, rest.journals, rest.legacyJournal⟩
  · rw [rest.objects]
    by_cases here : d' = d
    · subst here
      simp [absent]
    · simp [here]
  · rw [rest.quarantine]
    by_cases here : d' = d
    · subst here
      simp [absent]
    · simp [here]

theorem restoreItems_spec (items : List GcItem) (disk : GcDisk) :
    ∃ final names, GcDisk.restoreItems items disk = .ok (final, names) ∧
      Restored disk final (digests items) := by
  induction items generalizing disk with
  | nil => exact ⟨disk, [], rfl, by constructor <;> simp [digests]⟩
  | cons item items ih =>
    cases found : disk.quarantine.get (unhexText item.key) with
    | none =>
      obtain ⟨final, names, ran, rest⟩ := ih disk
      exact ⟨final, names, by simp [GcDisk.restoreItems, found, ran], rest.skip found⟩
    | some blob =>
      let mid : GcDisk :=
        { disk with
          objects := ⟨disk.objects.objects.set (unhexText item.key) blob⟩
          quarantine := disk.quarantine.erase (unhexText item.key) }
      obtain ⟨final, names, ran, rest⟩ := ih mid
      have objects (d : Bytes) : mid.objects.get d =
          if unhexText item.key = d then some blob else disk.objects.get d := Dict.get_set ..
      have quarantine (d : Bytes) : mid.quarantine.get d =
          if d = unhexText item.key then none else disk.quarantine.get d := Dict.get_erase ..
      refine ⟨final, item.key :: names, ?_, ?_⟩
      · simp only [GcDisk.restoreItems, found, Option.isSome_some, if_true, moveFile, ok_bind]
        show (GcDisk.restoreItems items mid >>= fun r => pure (r.1, item.key :: r.2)) = _
        rw [ran]
        rfl
      · refine ⟨fun d => ?_, fun d => ?_, rest.active, rest.scopes, rest.journals,
          rest.legacyJournal⟩
        · rw [rest.objects, objects, quarantine]
          by_cases here : unhexText item.key = d
          · subst here
            simp [digests, found]
          · simp [digests, here, Ne.symm here]
        · rw [rest.quarantine, quarantine]
          by_cases here : d = unhexText item.key
          · simp [digests, here]
          · simp [digests, here]

theorem keepItems_spec (reachable : List GcItem) (restored : List Bytes)
    (named : ∀ item ∈ items, item.Named) (disk : GcDisk) :
    ∃ final back kept, GcDisk.keepItems reachable restored items disk = .ok (final, back, kept) ∧
      Quarantined disk final (items.filter fun item => item ∉ reachable) := by
  induction items generalizing disk with
  | nil => exact ⟨disk, [], [], rfl, Quarantined.refl disk⟩
  | cons item items ih =>
    obtain ⟨⟨d, -, rfl⟩, others⟩ := List.forall_mem_cons.mp named
    have name : unhexText (objItem d).key = d := unhexText_hexText d
    by_cases member : objItem d ∈ reachable
    · obtain ⟨final, back, kept, ran, rest⟩ := ih others disk
      refine ⟨final, if (objItem d).key ∈ restored then (objItem d).key :: back else back, kept, ?_,
        ?_⟩
      · simp [GcDisk.keepItems, member, ran]
      · rwa [List.filter_cons_of_neg (by simpa using member)]
    · rw [List.filter_cons_of_pos (by simpa using member)]
      cases found : disk.objects.get d with
      | none =>
        obtain ⟨final, back, kept, ran, rest⟩ := ih others disk
        refine ⟨final, back, (objItem d).key :: kept, ?_, Quarantined.cons ?_ rest⟩
        · simp [GcDisk.keepItems, member, name, found, ran]
        · refine ⟨fun d' => ?_, fun d' => ?_, rfl, rfl, rfl, rfl⟩ <;>
            by_cases same : d' = d <;> simp [same, found]
      | some blob =>
        obtain ⟨mid, moved⟩ := quarantineItem_of_present found
        obtain ⟨final, back, kept, ran, rest⟩ := ih others mid
        refine ⟨final, back, (objItem d).key :: kept, ?_,
          (quarantined_of_quarantineItem moved).cons rest⟩
        simp [GcDisk.keepItems, member, name, found, moved, ran]

theorem mem_allJournals (found : disk.journals.get planDigest = some blob) :
    (some planDigest, blob) ∈ disk.allJournals := by
  apply List.mem_append_left
  refine List.mem_map.mpr ⟨(planDigest, blob), ?_, rfl⟩
  exact (List.mem_insertionSort _).mpr ((Dict.get_eq_some_iff _ _ _).mp found)

theorem openJournals_eq_none (member : journal ∈ journals)
    (refused : openJournal c key journal.1 journal.2 = none) :
    openJournals c key journals = none := by
  induction journals with
  | nil => cases member
  | cons first journals ih =>
    rcases List.mem_cons.mp member with rfl | later
    · simp [openJournals, refused]
    · cases opened : openJournal c key first.1 first.2 with
      | none => simp [openJournals, opened]
      | some items => simp [openJournals, opened, ih later]

theorem subset_of_openJournals {items listed : List GcItem} (member : journal ∈ journals)
    (opened : openJournal c key journal.1 journal.2 = some items)
    (all : openJournals c key journals = some listed) : items ⊆ listed := by
  induction journals generalizing listed with
  | nil => cases member
  | cons first journals ih =>
    simp only [openJournals, Option.bind_eq_bind, Option.bind_eq_some_iff, Option.pure_def,
      Option.some.injEq] at all
    obtain ⟨items', here, rest, others, rfl⟩ := all
    rcases List.mem_cons.mp member with rfl | later
    · rw [opened] at here
      cases here
      exact List.subset_append_left items rest
    · exact fun item inItems => List.mem_append_right items' (ih later others inItems)

def listedObjects (listed : List GcItem) : List GcItem :=
  (sortItems listed).filter fun item => item.kind = .object

theorem recoverGc_spec (journals : later.allJournals ≠ [])
    (opened : openJournals c (keyring.get keyId) later.allJournals = some listed) :
    ∃ restored names, GcDisk.restoreItems (listedObjects listed) later = .ok (restored, names) ∧
      ∀ scope retention limits roots plan,
        gatherRoots c keyring restored scope retention limits = .ok roots →
        planReachability c keyring restored.objects restored.walStore roots limits = .ok plan →
        plan.state = .planned →
        ∃ final r, recoverGc c keyring later scope retention keyId limits = .ok (final, r) ∧
          r.state = .ok ∧
          ∀ d content, objItem d ∈ listed → later.quarantine.get d = some content →
            objItem d ∈ plan.reachable → final.objects.get d = some content := by
  obtain ⟨restored, names, ran, back⟩ := restoreItems_spec (listedObjects listed) later
  refine ⟨restored, names, ran, ?_⟩
  intro scope retention limits roots plan gathered decided planned
  have named : ∀ item ∈ listedObjects listed, item.Named := by
    intro item member
    obtain ⟨inListed, object⟩ := List.mem_filter.mp member
    exact named_of_openJournals opened item (mem_sortItems.mp inListed) (of_decide_eq_true object)
  obtain ⟨final, answered, kept, ran', keeps⟩ :=
    keepItems_spec plan.reachable names named restored
  refine ⟨final, ⟨answered, kept, .ok⟩, ?_, rfl, ?_⟩
  · unfold listedObjects at ran ran'
    simp only [recoverGc, if_neg journals, opened, ran, gathered, decided, ok_bind, planned, ran']
    rfl
  · intro d content member stored reached
    have inListed : objItem d ∈ listedObjects listed :=
      List.mem_filter.mpr ⟨mem_sortItems.mpr member, rfl⟩
    have inNames : d ∈ digests (listedObjects listed) :=
      List.mem_map.mpr ⟨objItem d, inListed, unhexText_hexText d⟩
    rw [keeps.objects, if_neg (by simp [reached]), back.objects, if_pos inNames, stored]
    rfl

/-- A journal that is read and parsed to exactly the moved items, opens under the name of its
plan, and from which every quarantined object that is reachable again is restored. -/
structure Recoverable (c : Crypto) (keyring : Keyring) (keyId : Int) (planDigest blob : Bytes)
    (moved : List GcItem) : Prop where
  parsed : ∃ data key, readRecordLimited blob = .ok data ∧ keyring.get keyId = some key ∧
    parseJournal c data key = some (planDigest, moved)
  opened : openJournal c (keyring.get keyId) (some planDigest) blob = some moved
  restores : ∀ (later : GcDisk) listed, later.journals.get planDigest = some blob →
    openJournals c (keyring.get keyId) later.allJournals = some listed →
    ∃ restored names, GcDisk.restoreItems (listedObjects listed) later = .ok (restored, names) ∧
      ∀ scope retention limits roots plan,
        gatherRoots c keyring restored scope retention limits = .ok roots →
        planReachability c keyring restored.objects restored.walStore roots limits = .ok plan →
        plan.state = .planned →
        ∃ final r, recoverGc c keyring later scope retention keyId limits = .ok (final, r) ∧
          r.state = .ok ∧
          ∀ d content, objItem d ∈ moved → later.quarantine.get d = some content →
            objItem d ∈ plan.reachable → final.objects.get d = some content

theorem recoverable_of_parsed {planDigest blob key : Bytes} {moved : List GcItem}
    (fits : readRecordLimited blob = .ok blob) (known : keyring.get keyId = some key)
    (parsed : parseJournal c blob key = some (planDigest, moved)) :
    Recoverable c keyring keyId planDigest blob moved := by
  have opened : openJournal c (keyring.get keyId) (some planDigest) blob = some moved := by
    simp [openJournal, known, fits, Except.toOption, parsed, guard]
  refine ⟨⟨blob, key, fits, known, parsed⟩, opened, ?_⟩
  intro later listed held all
  have member := mem_allJournals held
  have listing := subset_of_openJournals member opened all
  obtain ⟨restored, names, ran, spec⟩ := recoverGc_spec (List.ne_nil_of_mem member) all
  refine ⟨restored, names, ran, ?_⟩
  intro scope retention limits roots plan gathered decided planned
  obtain ⟨final, r, recovered, state, back⟩ :=
    spec scope retention limits roots plan gathered decided planned
  exact ⟨final, r, recovered, state, fun d content inMoved => back d content (listing inMoved)⟩

/-- A journal over the size of a record makes `recover_gc` answer `fail_closed`, whatever else is
on the disk. -/
theorem recoverGc_failClosed (held : later.journals.get planDigest = some blob)
    (long : maxRecordBytes < blob.length) (scope retention keyId : Int) (limits : GcLimits) :
    recoverGc c keyring later scope retention keyId limits =
      .ok (later, ⟨[], [], .failClosed⟩) := by
  have member := mem_allJournals held
  have refused : openJournal c (keyring.get keyId) (some planDigest) blob = none := by
    cases keyring.get keyId <;> simp [openJournal, readRecordLimited, long, Except.toOption]
  have nothing := openJournals_eq_none member refused
  simp only [recoverGc, if_neg (List.ne_nil_of_mem member), nothing]

/-- What a run moves when no rename is refused: the objects that the roots of the scope do not
reach, as the state before the run has them. -/
def collectable (c : Crypto) (keyring : Keyring) (disk : GcDisk) (call : GcCall) : List GcItem :=
  match gatherRoots c keyring (disk.reap call.scope) call.scope call.retention call.limits with
  | .error _ => []
  | .ok roots =>
    match planReachability c keyring disk.objects disk.walStore roots call.limits with
    | .error _ => []
    | .ok plan => plan.movable

theorem collectable_of_plan {disk : GcDisk} {call : GcCall} {roots : GcRoots} {plan : GcPlan}
    (gathered : gatherRoots c keyring (disk.reap call.scope) call.scope call.retention call.limits =
      .ok roots)
    (decided : planReachability c keyring disk.objects disk.walStore roots call.limits = .ok plan) :
    collectable c keyring disk call = plan.movable := by
  simp only [collectable, gathered, decided]

/-- The journal of a run that is done: under its plan, about what the run has moved, as long as
the encoder makes it, and read back when it fits a record. -/
theorem journal_of_done {disk disk' : GcDisk} {result : GcRunResult} (named : disk.objects.Named)
    (ran : runGc c keyring disk call = .ok (disk', result)) (done : result.state = .done) :
    ∃ plan key blob, result.plan = some plan ∧ keyring.get call.journalKeyId = some key ∧
      disk'.journals.get plan.planDigest = some blob ∧
      result.quarantined = collectable c keyring disk call ∧
      blob.length = journalLength result.quarantined.length ∧
      (result.quarantined.length ≤ 1000000 →
        parseJournal c blob key = some (plan.planDigest, result.quarantined)) := by
  rcases runGc_cases ran with ⟨stopped, -⟩ | ⟨execution, ready, renames⟩
  · exact absurd done (state_ne_done_of_prepareRun stopped)
  · obtain ⟨roots, key, blob, prepared⟩ := prepared_of_prepareRun ready
    have present := present_of_mem_movable prepared.decided
    obtain ⟨effect, moved, plan, whole⟩ := executePlan_effect renames present
    rw [whole.mp done] at moved
    have items : ∀ item ∈ execution.plan.movable, item.Named := by
      intro item member
      obtain ⟨d, content, rfl, found⟩ := present item member
      exact ⟨d, named d ((Dict.mem_keys_iff _ d).mpr ⟨content, found⟩), rfl⟩
    have canonical := sortItems_movable execution.plan
    have journal := prepared.journal
    have few : execution.plan.movable.length < 2 ^ 32 := by
      unfold authenticatedJournal at journal
      simp only [canonical, bind_eq_ok] at journal
      obtain ⟨header, packed, -⟩ := journal
      have digest := length_planDigest prepared.decided prepared.movable_ne
      have fits := fits_of_structPack packed ⟨rfl, digest, trivial⟩
      have := fits.2.2.2.1.2
      exact Int.ofNat_lt.mp this
    obtain ⟨blob', written, size, parsed⟩ := authenticatedJournal_spec c key
      (length_planDigest prepared.decided prepared.movable_ne) items canonical few
    rw [journal] at written
    cases written
    refine ⟨execution.plan, key, blob, plan, prepared.key_found, ?_, ?_, ?_, ?_⟩
    · rw [effect.journals]
      exact get_of_publishJournalImmutable prepared.published
    · rw [moved, collectable_of_plan prepared.gathered prepared.decided]
    · rw [moved, size]
    · rw [moved]
      exact parsed

theorem exists_run_of_plan {disk : GcDisk} {call : GcCall} {roots : GcRoots} {plan : GcPlan}
    {key : Bytes}
    (gathered : gatherRoots c keyring (disk.reap call.scope) call.scope call.retention call.limits =
      .ok roots)
    (decided : planReachability c keyring disk.objects disk.walStore roots call.limits = .ok plan)
    (planned : plan.state = .planned) (movable : plan.movable ≠ [])
    (named : ∀ item ∈ plan.movable, item.Named) (few : plan.movable.length < 2 ^ 32)
    (signature : rootSignature c keyring (disk.reap call.scope) call.scope ≠ none)
    (quiet : call.meanwhile = id) (smooth : call.renameFault = none)
    (known : keyring.get call.journalKeyId = some key)
    (fresh : disk.journals.get plan.planDigest = none) :
    ∃ disk' result, runGc c keyring disk call = .ok (disk', result) ∧ result.state = .done := by
  obtain ⟨blob, written, -, -⟩ := authenticatedJournal_spec c key
    (length_planDigest decided movable) named (sortItems_movable plan) few
  have unchanged : (disk.reap call.scope).reread call = disk.reap call.scope := by
    unfold GcDisk.reread
    rw [quiet, id_eq, Function.update_eq_self]
  have published : publishJournalImmutable (disk.reap call.scope).journals plan.planDigest blob =
      .ok (disk.journals.set plan.planDigest blob) := by
    have absent : (disk.reap call.scope).journals.get plan.planDigest = none := fresh
    unfold publishJournalImmutable
    rw [absent]
    rfl
  have ready : prepareRun c keyring (disk.reap call.scope) call =
      .ok ⟨plan, disk.journals.set plan.planDigest blob⟩ := by
    have decided' : planReachability c keyring (disk.reap call.scope).objects
        (disk.reap call.scope).walStore roots call.limits = .ok plan := decided
    unfold prepareRun
    rw [unchanged]
    simp only [bind_eq_ok, mapError_eq_ok, require_eq_ok, orThrow_eq_ok, pure_eq_ok]
    exact ⟨roots, gathered, plan, decided', (), planned, (), ⟨signature, signature⟩, (), trivial,
      (), movable, key, known, blob, written, _, published, rfl⟩
  cases renames : executePlan call ⟨plan, disk.journals.set plan.planDigest blob⟩
      ((disk.reap call.scope).reread call) with
  | mk disk' result =>
    obtain ⟨-, -, -, whole⟩ := executePlan_effect renames (present_of_mem_movable decided)
    refine ⟨disk', result, ?_, whole.mpr ?_⟩
    · simp only [runGc, ready, renames]
    · simp only [smooth, renamed]

theorem rootSignature_ne_none {scope : Int} {pins : List Bytes} {prepared : PreparedRoots}
    (scanned : (disk.scopes scope).scanPins c keyring = .ok pins)
    (scanned' : (disk.scopes scope).scanPrepared c keyring = .ok prepared) :
    rootSignature c keyring disk scope ≠ none := by
  intro nothing
  simp [rootSignature, scanned, scanned', Except.toOption] at nothing

def firstGcCall : GcCall := ⟨7, 1, 0, defaultGcLimits, id, none⟩

theorem scanPins_first (objects : ObjectStore) :
    (((firstDisk objects).reap 7).scopes 7).scanPins stdCrypto firstKeyring = .ok [] := rfl

theorem scanPrepared_first (objects : ObjectStore) :
    (((firstDisk objects).reap 7).scopes 7).scanPrepared stdCrypto firstKeyring = .ok ⟨[], []⟩ :=
  rfl

theorem gatherRoots_first (objects : ObjectStore) :
    gatherRoots stdCrypto firstKeyring ((firstDisk objects).reap firstGcCall.scope)
      firstGcCall.scope firstGcCall.retention firstGcCall.limits = .ok firstRoots := by
  have pointer : readCurrent stdCrypto firstKeyring (((firstDisk objects).reap 7).publication 7)
      4096 = .ok ⟨firstPublication 7, 0⟩ := readCurrent_first 7 objects
  simp only [firstGcCall, gatherRoots, computeRoots, scanPins_first, scanPrepared_first, pointer]
  rfl

theorem exists_run_first {objects : ObjectStore} (ext : (firstObjects 7).Extends objects)
    (named : objects.Named) (few : objects.objects.keys.length < 2 ^ 31) {d₀ blob₀ : Bytes}
    (present : objects.get d₀ = some blob₀) (unreached : objItem d₀ ∉ firstClosure) :
    ∃ disk' result, runGc stdCrypto firstKeyring (firstDisk objects) firstGcCall =
        .ok (disk', result) ∧ result.state = .done ∧
      ∀ d blob, objects.get d = some blob → objItem d ∉ firstClosure →
        objItem d ∈ collectable stdCrypto firstKeyring (firstDisk objects) firstGcCall := by
  obtain ⟨plan, decided, planned, unreachable⟩ := exists_plan_first ext few
  have movable (d blob : Bytes) (found : objects.get d = some blob)
      (fresh : objItem d ∉ firstClosure) : objItem d ∈ plan.movable :=
    mem_movable.mpr ⟨unreachable d blob found fresh, rfl⟩
  have items : ∀ item ∈ plan.movable, item.Named := by
    intro item member
    obtain ⟨d, blob, rfl, found⟩ := present_of_mem_movable decided item member
    exact ⟨d, named d ((Dict.mem_keys_iff _ d).mpr ⟨blob, found⟩), rfl⟩
  have short : plan.movable.length < 2 ^ 32 := by
    have inside : plan.movable ⊆ enumerateObjects objects := by
      intro item member
      obtain ⟨d, blob, rfl, found⟩ := present_of_mem_movable decided item member
      exact List.mem_map.mpr ⟨d, (Dict.mem_keys_iff _ d).mpr ⟨blob, found⟩, rfl⟩
    have bound := (List.subperm_of_subset (nodup_movable plan) inside).length_le
    rw [enumerateObjects, List.length_map] at bound
    omega
  have known : firstKeyring.get firstGcCall.journalKeyId = some (zeros 32) := by decide
  have fresh : (firstDisk objects).journals.get plan.planDigest = none := Dict.get_empty _
  have signature : rootSignature stdCrypto firstKeyring
      ((firstDisk objects).reap firstGcCall.scope) firstGcCall.scope ≠ none :=
    rootSignature_ne_none (scanPins_first objects) (scanPrepared_first objects)
  have decided' : planReachability stdCrypto firstKeyring (firstDisk objects).objects
      (firstDisk objects).walStore firstRoots firstGcCall.limits = .ok plan := decided
  obtain ⟨disk', result, ran, done⟩ := exists_run_of_plan (gatherRoots_first objects) decided'
    planned
    (List.ne_nil_of_mem (movable d₀ blob₀ present unreached)) items short signature rfl rfl known
    fresh
  refine ⟨disk', result, ran, done, ?_⟩
  rw [collectable_of_plan (gatherRoots_first objects) decided']
  exact movable

theorem strayName_injective {i j : Nat} (below : i < 2 ^ 16) (below' : j < 2 ^ 16)
    (same : strayName i = strayName j) : i = j := by
  have tail := List.append_cancel_left same
  simp only [List.cons.injEq, and_true] at tail
  have high := congrArg UInt8.toNat tail.1
  have low := congrArg UInt8.toNat tail.2
  rw [UInt8.toNat_ofNat', UInt8.toNat_ofNat'] at high low
  omega

theorem named_strayObjects (n : Nat) : (strayObjects n).Named :=
  named_withStrays (named_firstObjects 7) n

/-- Scope 7 collects `n` stray objects. -/
theorem exists_run_stray (n : Nat) (pos : 0 < n) (few : n < 2 ^ 16) :
    ∃ disk' result, runGc stdCrypto firstKeyring (firstDisk (strayObjects n)) firstGcCall =
        .ok (disk', result) ∧ result.state = .done ∧
      n ≤ (collectable stdCrypto firstKeyring (firstDisk (strayObjects n)) firstGcCall).length := by
  have short := length_keys_strayObjects n
  obtain ⟨disk', result, ran, done, collected⟩ := exists_run_first (extends_strayObjects n)
    (named_strayObjects n) (by omega) (get_strayName pos) (strayName_not_mem_firstClosure 0)
  refine ⟨disk', result, ran, done, ?_⟩
  have distinct : ((List.range n).map fun i => objItem (strayName i)).Nodup := by
    apply List.Nodup.map_on _ List.nodup_range
    intro i inRange j inRange' same
    have below := List.mem_range.mp inRange
    have below' := List.mem_range.mp inRange'
    exact strayName_injective (by omega) (by omega) (objItem_inj.mp same)
  have inside : (List.range n).map (fun i => objItem (strayName i)) ⊆
      collectable stdCrypto firstKeyring (firstDisk (strayObjects n)) firstGcCall := by
    intro item member
    obtain ⟨i, inRange, rfl⟩ := List.mem_map.mp member
    exact collected (strayName i) [] (get_strayName (List.mem_range.mp inRange))
      (strayName_not_mem_firstClosure i)
  have counted := (List.subperm_of_subset distinct inside).length_le
  rwa [List.length_map, List.length_range] at counted

end ProofRay.Engine
