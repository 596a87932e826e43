/- The ledger of the bytes on the disk (`ledger.py`), and what a collection does to its total. -/

import ProofRay.Engine.GcScopes
import ProofRay.Lib.Weigh

namespace ProofRay.Memory

open Engine
open Lib (Dict)
open Lib.Guard

abbrev Path := List String

/-- A regular file: the directory it stands in, its name and its size. -/
structure File where
  dir : Path
  name : String
  size : Nat

/-- Where a store stands: `ws.root`, `pub.directory`, and every file below the two that is neither
an object, an active segment, a quarantined object, a journal nor `CURRENT`. -/
structure Layout where
  root : Path
  directory : Path
  others : List File

def fileName (b : Bytes) : String := String.ofList (b.map fun x => Char.ofNat x.toNat)

def placed (dir : Path) (extension : String) (d : Dict Bytes Bytes) : List File :=
  d.items.map fun e => ⟨dir, fileName (hexText e.1) ++ extension, e.2.length⟩

namespace Layout

/-- `objects/<sha>.hobj`. -/
def objectFiles (layout : Layout) (disk : GcDisk) : List File :=
  placed (layout.root ++ ["objects"]) ".hobj" disk.objects.objects

/-- `gc-quarantine/<sha>.hobj`. -/
def quarantineFiles (layout : Layout) (disk : GcDisk) : List File :=
  placed (layout.root ++ ["gc-quarantine"]) ".hobj" disk.quarantine

/-- `gc-quarantine/journals/<plan>.hgcj`. -/
def journalFiles (layout : Layout) (disk : GcDisk) : List File :=
  placed (layout.root ++ ["gc-quarantine", "journals"]) ".hgcj" disk.journals

/-- The files that no collection moves, adds or removes: the active segments, the old journal,
`CURRENT` and everything else. -/
def fixedFiles (layout : Layout) (scope : Int) (disk : GcDisk) : List File :=
  (disk.active.items.map fun e =>
    ⟨layout.root ++ ["wal", "active", fileName (hex08 e.1.scopeId)],
      fileName (hex08 e.1.segmentId) ++ ".hwal", e.2.length⟩) ++
  (disk.legacyJournal.toList.map fun blob =>
    ⟨layout.root ++ ["gc-quarantine"], "gc-journal.hgcj", blob.length⟩) ++
  ((disk.scopes scope).current.toList.map fun blob =>
    ⟨layout.directory, "CURRENT", blob.length⟩) ++
  layout.others

def files (layout : Layout) (scope : Int) (disk : GcDisk) : List File :=
  layout.objectFiles disk ++ (layout.quarantineFiles disk ++
    (layout.journalFiles disk ++ layout.fixedFiles scope disk))

end Layout

def byteCount (files : List File) : Nat := (files.map File.size).sum

/-- `_dir_file_bytes`: the files below a directory. -/
def dirFileBytes (path : Path) (files : List File) : List File :=
  files.filter fun f => path <+: f.dir

/-- `Path(p).stem`. -/
def stem (name : String) : String :=
  let cs := name.toList
  let tail := cs.reverse.takeWhile (· ≠ '.')
  let head := cs.take (cs.length - tail.length - 1)
  if '.' ∈ cs ∧ head ≠ [] ∧ tail ≠ [] then String.ofList head else name

/-- The categories of `totals`. -/
inductive Category where
  | registry
  | bulk
  | residual
  | tombstone
  | dedup
  | manifest
  | record
  | walSealed
  | orphan
  deriving DecidableEq, Repr

/-- `cat_of`. -/
def Category.ofKind : ArtifactKind → Category
  | .registry => .registry
  | .bulk => .bulk
  | .residual => .residual
  | .tombstone => .tombstone
  | .dedup => .dedup

/-- `kind_by_sha`: what the live generation says of an object. -/
def kindBySha : Option PublishedCursor → Dict String Category
  | none => Dict.empty
  | some cursor =>
    let base := baseKinds.foldl (fun kinds kind =>
      kinds.set (fileName (hexText (cursor.manifest.baseDescriptors kind).sha256)) (.ofKind kind))
      Dict.empty
    let manifest := base.set (fileName (hexText cursor.proof.manifestSha256)) .manifest
    let sealedToo := cursor.manifest.segments.foldl (fun kinds seg =>
      if seg.sealedObjectSha256 ≠ [] ∧ seg.sealedObjectSha256 ≠ zeros 32 then
        kinds.set (fileName (hexText seg.sealedObjectSha256)) .walSealed
      else kinds) manifest
    let record := fileName (hexText cursor.proof.publicationSha256)
    if (sealedToo.get record).isSome then sealedToo else sealedToo.set record .record

structure LedgerReport where
  scopeId : Int
  generationId : Option Int
  readSeq : Option Int
  registryBytes : Nat
  bulkBytes : Nat
  residualBytes : Nat
  tombstoneBytes : Nat
  dedupBytes : Nat
  manifestBytes : Nat
  recordBytes : Nat
  walActiveBytes : Nat
  walSealedBytes : Nat
  quarantineBytes : Nat
  orphanObjectBytes : Nat
  currentPointerBytes : Nat
  liveFacts : Nat
  deletedFacts : Nat
  objectCount : Nat
  orphanObjectCount : Nat

namespace LedgerReport

def baseBytes (report : LedgerReport) : Nat :=
  report.registryBytes + report.bulkBytes + report.residualBytes + report.tombstoneBytes +
    report.dedupBytes

def totalBytes (report : LedgerReport) : Nat :=
  report.baseBytes + report.manifestBytes + report.recordBytes + report.walActiveBytes +
    report.walSealedBytes + report.quarantineBytes + report.orphanObjectBytes +
    report.currentPointerBytes

end LedgerReport

/-- `totals[cat]`. -/
def totals (kinds : Dict String Category) (objects : List File) (cat : Category) : Nat :=
  byteCount (objects.filter fun f => (kinds.get (stem f.name)).getD .orphan = cat)

/-- The pointers of a scope directory: every file whose name begins with `CURRENT`, but for what
has `gc-quarantine` in its path. -/
def pointers (directory : Path) (files : List File) : List File :=
  (dirFileBytes directory files).filter fun f =>
    (¬ ∃ part ∈ f.dir ++ [f.name], "gc-quarantine".toList <:+: part.toList) ∧
      "CURRENT".toList <+: f.name.toList

/-- `compute_ledger`. -/
def computeLedger (layout : Layout) (scope : Int) (disk : GcDisk)
    (cursor : Option PublishedCursor) (liveFacts deletedFacts : Nat) : LedgerReport :=
  let files := layout.files scope disk
  let kinds := kindBySha cursor
  let objects := dirFileBytes (layout.root ++ ["objects"]) files
  { scopeId := scope
    generationId := cursor.map fun cur => cur.manifest.generationId
    readSeq := cursor.map fun cur => cur.manifest.readSeq
    registryBytes := totals kinds objects .registry
    bulkBytes := totals kinds objects .bulk
    residualBytes := totals kinds objects .residual
    tombstoneBytes := totals kinds objects .tombstone
    dedupBytes := totals kinds objects .dedup
    manifestBytes := totals kinds objects .manifest
    recordBytes := totals kinds objects .record
    walActiveBytes := byteCount (dirFileBytes (layout.root ++ ["wal", "active"]) files)
    walSealedBytes := totals kinds objects .walSealed
    quarantineBytes := byteCount (dirFileBytes (layout.directory ++ ["gc-quarantine"]) files)
    orphanObjectBytes := totals kinds objects .orphan
    currentPointerBytes := byteCount (pointers layout.directory files)
    liveFacts
    deletedFacts
    objectCount := objects.length
    orphanObjectCount := (objects.filter fun f => (kinds.get (stem f.name)).isNone).length }

def counted (layout : Layout) (files : List File) : Nat :=
  byteCount (dirFileBytes (layout.root ++ ["objects"]) files) +
    byteCount (dirFileBytes (layout.root ++ ["wal", "active"]) files) +
    byteCount (dirFileBytes (layout.directory ++ ["gc-quarantine"]) files) +
    byteCount (pointers layout.directory files)

@[simp] theorem byteCount_append (files files' : List File) :
    byteCount (files ++ files') = byteCount files + byteCount files' := by
  simp [byteCount]

theorem counted_append (layout : Layout) (files files' : List File) :
    counted layout (files ++ files') = counted layout files + counted layout files' := by
  simp only [counted, pointers, dirFileBytes, List.filter_append, byteCount_append]
  omega

theorem totals_sum (kinds : Dict String Category) (objects : List File) :
    totals kinds objects .registry + totals kinds objects .bulk + totals kinds objects .residual +
      totals kinds objects .tombstone + totals kinds objects .dedup +
      totals kinds objects .manifest + totals kinds objects .record +
      totals kinds objects .walSealed + totals kinds objects .orphan = byteCount objects := by
  induction objects with
  | nil => rfl
  | cons f objects ih =>
    have step (cat : Category) : totals kinds (f :: objects) cat =
        (if (kinds.get (stem f.name)).getD .orphan = cat then f.size else 0) +
          totals kinds objects cat := by
      unfold totals
      by_cases here : (kinds.get (stem f.name)).getD .orphan = cat
      · rw [List.filter_cons_of_pos (by simpa using here), if_pos here]
        simp [byteCount]
      · rw [List.filter_cons_of_neg (by simpa using here), if_neg here, Nat.zero_add]
    have whole : byteCount (f :: objects) = f.size + byteCount objects := by simp [byteCount]
    simp only [step, whole]
    cases (kinds.get (stem f.name)).getD .orphan <;> simp <;> omega

theorem totalBytes_computeLedger (layout : Layout) (scope : Int) (disk : GcDisk)
    (cursor : Option PublishedCursor) (liveFacts deletedFacts : Nat) :
    (computeLedger layout scope disk cursor liveFacts deletedFacts).totalBytes =
      counted layout (layout.files scope disk) := by
  have objects := totals_sum (kindBySha cursor)
    (dirFileBytes (layout.root ++ ["objects"]) (layout.files scope disk))
  simp only [LedgerReport.totalBytes, LedgerReport.baseBytes, computeLedger, counted]
  omega

variable {layout : Layout}

def Layout.Joined (layout : Layout) : Prop := layout.directory = layout.root

def Layout.Enclosed (layout : Layout) : Prop :=
  layout.directory ++ ["gc-quarantine"] <+: layout.root

instance : Decidable layout.Joined := inferInstanceAs (Decidable (_ = _))

instance : Decidable layout.Enclosed := inferInstanceAs (Decidable (_ <+: _))

theorem Layout.Enclosed.not_joined (enclosed : layout.Enclosed) : ¬ layout.Joined := by
  intro joined
  have longer := enclosed.length_le
  rw [joined, List.length_append, List.length_singleton] at longer
  omega

theorem byteCount_placed (dir : Path) (extension : String) (d : Dict Bytes Bytes) :
    byteCount (placed dir extension d) = d.weigh List.length := by
  simp [byteCount, placed, Dict.weigh, Function.comp_def]

theorem dirFileBytes_placed (path dir : Path) (extension : String) (d : Dict Bytes Bytes) :
    byteCount (dirFileBytes path (placed dir extension d)) =
      if path <+: dir then d.weigh List.length else 0 := by
  by_cases below : path <+: dir
  · have all : dirFileBytes path (placed dir extension d) = placed dir extension d := by
      refine List.filter_eq_self.mpr fun f member => ?_
      obtain ⟨e, -, rfl⟩ := List.mem_map.mp member
      exact decide_eq_true below
    rw [all, if_pos below, byteCount_placed]
  · have nothing : dirFileBytes path (placed dir extension d) = [] := by
      refine List.filter_eq_nil_iff.mpr fun f member => ?_
      obtain ⟨e, -, rfl⟩ := List.mem_map.mp member
      simpa using below
    rw [nothing, if_neg below]
    rfl

private theorem hexDigit_ne_C : ∀ n < 16, Char.ofNat (hexDigit n).toNat ≠ 'C' := by decide

variable {result : RecoverGcResult} {kept : GcItem → Bool} {extension : String}

/-- No name made of a digest begins with `CURRENT`. -/
theorem not_current_fileName (b : Bytes) (dotted : extension.toList.head? = some '.') :
    ¬ "CURRENT".toList <+: (fileName (hexText b) ++ extension).toList := by
  have literal : "CURRENT".toList = 'C' :: "URRENT".toList := by decide +kernel
  rw [literal]
  rintro ⟨rest, same⟩
  have first := congrArg List.head? same
  rw [String.toList_append] at first
  cases b with
  | nil =>
    rw [show (fileName (hexText [])).toList = [] from rfl, List.nil_append, dotted] at first
    cases first
  | cons x b =>
    have digit : (fileName (hexText (x :: b))).toList =
        Char.ofNat (hexDigit (x.toNat / 16)).toNat ::
          (fileName (hexDigit (x.toNat % 16) :: hexText b)).toList := by
      simp [fileName, hexText]
    rw [digit] at first
    have high : x.toNat / 16 < 16 := by
      have := x.toNat_lt
      omega
    exact hexDigit_ne_C _ high (Option.some.inj first).symm

theorem pointers_placed (directory dir : Path) (d : Dict Bytes Bytes)
    (dotted : extension.toList.head? = some '.') :
    pointers directory (placed dir extension d) = [] := by
  refine List.filter_eq_nil_iff.mpr fun f member => ?_
  obtain ⟨e, -, rfl⟩ := List.mem_map.mp (List.mem_filter.mp member).1
  have other := not_current_fileName e.1 dotted
  simp only [decide_eq_true_eq, not_and]
  exact fun _ => other

theorem quarantine_below (parent : Path) (last : String) :
    layout.directory ++ ["gc-quarantine"] <+: parent ++ [last] ↔
      (layout.directory = parent ∧ last = "gc-quarantine") ∨
        layout.directory ++ ["gc-quarantine"] <+: parent := by
  rw [List.prefix_concat_iff]
  constructor
  · rintro (same | below)
    · obtain ⟨rfl, named⟩ := List.append_inj' same rfl
      exact .inl ⟨rfl, (List.singleton_inj.mp named).symm⟩
    · exact .inr below
  · rintro (⟨rfl, rfl⟩ | below)
    · exact .inl rfl
    · exact .inr below

theorem counted_objectFiles (layout : Layout) (disk : GcDisk) :
    counted layout (layout.objectFiles disk) =
      disk.objects.objects.weigh List.length +
        if layout.Enclosed then disk.objects.objects.weigh List.length else 0 := by
  have apart : ¬ layout.root ++ ["wal", "active"] <+: layout.root ++ ["objects"] := by
    rw [List.prefix_append_right_inj]
    decide
  have inside : layout.directory ++ ["gc-quarantine"] <+: layout.root ++ ["objects"] ↔
      layout.Enclosed := by
    rw [quarantine_below]
    simp [Layout.Enclosed]
  simp only [counted, Layout.objectFiles, dirFileBytes_placed, List.prefix_rfl, if_true,
    if_neg apart, inside, pointers_placed _ _ _ (show ".hobj".toList.head? = some '.' by decide)]
  simp [byteCount]

theorem counted_quarantine (layout : Layout) (tail : Path) (extension : String)
    (d : Dict Bytes Bytes) (dotted : extension.toList.head? = some '.')
    (below : tail = ["gc-quarantine"] ∨ tail = ["gc-quarantine", "journals"]) :
    counted layout (placed (layout.root ++ tail) extension d) =
      if layout.Joined ∨ layout.Enclosed then d.weigh List.length else 0 := by
  have objects : ¬ layout.root ++ ["objects"] <+: layout.root ++ tail := by
    rw [List.prefix_append_right_inj]
    rcases below with rfl | rfl <;> decide
  have active : ¬ layout.root ++ ["wal", "active"] <+: layout.root ++ tail := by
    rw [List.prefix_append_right_inj]
    rcases below with rfl | rfl <;> decide
  have first : layout.directory ++ ["gc-quarantine"] <+: layout.root ++ ["gc-quarantine"] ↔
      layout.Joined ∨ layout.Enclosed := by
    rw [quarantine_below]
    simp [Layout.Joined, Layout.Enclosed]
  have inside : layout.directory ++ ["gc-quarantine"] <+: layout.root ++ tail ↔
      layout.Joined ∨ layout.Enclosed := by
    rcases below with rfl | rfl
    · exact first
    · have parent : layout.root ++ ["gc-quarantine", "journals"] =
          (layout.root ++ ["gc-quarantine"]) ++ ["journals"] := by simp
      rw [parent, quarantine_below, first]
      simp
  simp only [counted, dirFileBytes_placed, if_neg objects, if_neg active, inside,
    pointers_placed _ _ _ dotted]
  simp [byteCount]

/-- The total: the objects, once more where the ledger's quarantine holds the root; what collections
moved and their journals, where it is seen; and what no collection touches. -/
theorem counted_files (layout : Layout) (scope : Int) (disk : GcDisk) :
    counted layout (layout.files scope disk) =
      disk.objects.objects.weigh List.length +
        (if layout.Enclosed then disk.objects.objects.weigh List.length else 0) +
        (if layout.Joined ∨ layout.Enclosed then
          disk.quarantine.weigh List.length + disk.journals.weigh List.length else 0) +
        counted layout (layout.fixedFiles scope disk) := by
  rw [Layout.files, counted_append, counted_append, counted_append, counted_objectFiles,
    Layout.quarantineFiles, Layout.journalFiles,
    counted_quarantine layout _ _ _ (by decide) (.inl rfl),
    counted_quarantine layout _ _ _ (by decide) (.inr rfl)]
  by_cases seen : layout.Joined ∨ layout.Enclosed
  · simp only [if_pos seen]
    omega
  · simp only [if_neg seen]
    omega

/-- The total changes by exactly the size of the journals added, whatever the generations the two
ledgers are taken of. -/
def Conserves (layout : Layout) (scope : Int) (before after : GcDisk) : Prop :=
  ∀ (cursor cursor' : Option PublishedCursor) (live deleted live' deleted' : Nat),
    (computeLedger layout scope after cursor' live' deleted').totalBytes +
        byteCount (layout.journalFiles before) =
      (computeLedger layout scope before cursor live deleted).totalBytes +
        byteCount (layout.journalFiles after)

def objectBytes (disk : GcDisk) (d : Bytes) : Nat := disk.objects.objects.weightAt List.length d

def quarantineBytes (disk : GcDisk) (d : Bytes) : Nat := disk.quarantine.weightAt List.length d

/-- Only some names move between the objects and the quarantine, and journals may be added. -/
structure Shifted (before after : GcDisk) (names : List Bytes) : Prop where
  nodup : names.Nodup
  objects : ∀ d, d ∉ names → after.objects.get d = before.objects.get d
  quarantine : ∀ d, d ∉ names → after.quarantine.get d = before.quarantine.get d
  active : after.active = before.active
  scopes : after.scopes = before.scopes
  legacyJournal : after.legacyJournal = before.legacyJournal

theorem conserves_iff_of_shifted {scope : Int} {before after : GcDisk} {names : List Bytes}
    (shifted : Shifted before after names) :
    Conserves layout scope before after ↔
      (layout.Joined →
        (names.map (objectBytes after)).sum + (names.map (quarantineBytes after)).sum =
          (names.map (objectBytes before)).sum + (names.map (quarantineBytes before)).sum) ∧
      (layout.Enclosed →
        2 * (names.map (objectBytes after)).sum + (names.map (quarantineBytes after)).sum =
          2 * (names.map (objectBytes before)).sum + (names.map (quarantineBytes before)).sum) ∧
      (¬ layout.Joined → ¬ layout.Enclosed →
        (names.map (objectBytes after)).sum + before.journals.weigh List.length =
          (names.map (objectBytes before)).sum + after.journals.weigh List.length) := by
  have objects : after.objects.objects.weigh List.length + (names.map (objectBytes before)).sum =
      before.objects.objects.weigh List.length + (names.map (objectBytes after)).sum :=
    Dict.weigh_differ shifted.nodup shifted.objects
  have quarantine : after.quarantine.weigh List.length +
        (names.map (quarantineBytes before)).sum =
      before.quarantine.weigh List.length + (names.map (quarantineBytes after)).sum :=
    Dict.weigh_differ shifted.nodup shifted.quarantine
  have fixed : layout.fixedFiles scope after = layout.fixedFiles scope before := by
    unfold Layout.fixedFiles
    rw [shifted.active, shifted.scopes, shifted.legacyJournal]
  have once : Conserves layout scope before after ↔
      counted layout (layout.files scope after) + before.journals.weigh List.length =
        counted layout (layout.files scope before) + after.journals.weigh List.length := by
    simp only [Conserves, totalBytes_computeLedger, Layout.journalFiles, byteCount_placed,
      forall_const]
  rw [once, counted_files, counted_files, fixed]
  by_cases joined : layout.Joined
  · have open' : ¬ layout.Enclosed := fun enclosed => enclosed.not_joined joined
    simp only [joined, open', if_true, if_false, true_or, not_true, not_false_eq_true,
      forall_const, false_imp_iff, and_true]
    omega
  · by_cases enclosed : layout.Enclosed
    · simp only [joined, enclosed, if_true, or_true, not_true, not_false_eq_true, false_imp_iff,
        true_imp_iff, true_and, and_true]
      omega
    · simp only [joined, enclosed, if_false, or_self, not_false_eq_true, false_imp_iff,
        true_imp_iff, true_and]
      omega

variable {c : Crypto} {keyring : Keyring}

def taken (c : Crypto) (keyring : Keyring) (disk : GcDisk) (call : GcCall) : List GcItem :=
  renamed call.renameFault 0 (collectable c keyring disk call)

def Announced (c : Crypto) (keyring : Keyring) (disk : GcDisk) (call : GcCall) : Prop :=
  ∃ roots plan, gatherRoots c keyring (disk.reap call.scope) call.scope call.retention call.limits =
      .ok roots ∧
    planReachability c keyring disk.objects disk.walStore roots call.limits = .ok plan ∧
    (disk.journals.get plan.planDigest).isSome

/-- When a run that executes leaves the total to its journal. -/
structure RunBalanced (c : Crypto) (keyring : Keyring) (layout : Layout) (disk : GcDisk)
    (call : GcCall) : Prop where
  joined : layout.Joined → ∀ d, objItem d ∈ taken c keyring disk call → quarantineBytes disk d = 0
  enclosed : layout.Enclosed → ∀ d, objItem d ∈ taken c keyring disk call →
    objectBytes disk d = 0 ∧ quarantineBytes disk d = 0
  apart : ¬ layout.Joined → ¬ layout.Enclosed →
    (∀ d, objItem d ∈ taken c keyring disk call → objectBytes disk d = 0) ∧
      Announced c keyring disk call

variable {items : List GcItem} {disk disk' : GcDisk} {call : GcCall}

theorem mem_digests (objects : ∀ item ∈ items, ∃ d, item = objItem d) {d : Bytes} :
    d ∈ digests items ↔ objItem d ∈ items := by
  constructor
  · intro member
    obtain ⟨item, inItems, rfl⟩ := List.mem_map.mp member
    obtain ⟨d, rfl⟩ := objects item inItems
    rwa [show unhexText (objItem d).key = d from unhexText_hexText d]
  · exact fun member => List.mem_map.mpr ⟨objItem d, member, unhexText_hexText d⟩

theorem nodup_digests (objects : ∀ item ∈ items, ∃ d, item = objItem d) (nodup : items.Nodup) :
    (digests items).Nodup := by
  refine List.Nodup.map_on (fun x inX y inY same => ?_) nodup
  obtain ⟨d, rfl⟩ := objects x inX
  obtain ⟨d', rfl⟩ := objects y inY
  rw [show unhexText (objItem d).key = d from unhexText_hexText d,
    show unhexText (objItem d').key = d' from unhexText_hexText d'] at same
  rw [same]

theorem weigh_set_of_absent {journals : Dict Bytes Bytes} {planDigest : Bytes} (blob : Bytes)
    (absent : journals.get planDigest = none) :
    (journals.set planDigest blob).weigh List.length =
      journals.weigh List.length + blob.length := by
  have others (k : Bytes) (other : k ∉ [planDigest]) :
      (journals.set planDigest blob).get k = journals.get k := by
    rw [Dict.get_set, if_neg fun same => other (List.mem_singleton.mpr same.symm)]
  have differ := Dict.weigh_differ (w := List.length) (List.nodup_singleton planDigest) others
  simpa [Dict.weightAt, absent, Dict.get_set_self] using differ

theorem journal_ne_nil {planDigest key blob : Bytes}
    (written : authenticatedJournal c planDigest items key = .ok blob) : 0 < blob.length := by
  unfold authenticatedJournal at written
  simp only [bind_eq_ok, pure_eq_ok] at written
  obtain ⟨header, -, body, -, rfl⟩ := written
  have tag : (journalMac c key (header ++ body)).length = tagBytes := Crypto.length_tag ..
  simp only [List.length_append, tag, tagBytes]
  omega

theorem weigh_journals_eq_iff {journals journals' : Dict Bytes Bytes} {planDigest blob : Bytes}
    (nonempty : 0 < blob.length)
    (published : publishJournalImmutable journals planDigest blob = .ok journals') :
    journals.weigh List.length ≤ journals'.weigh List.length ∧
      (journals'.weigh List.length = journals.weigh List.length ↔
        (journals.get planDigest).isSome) := by
  unfold publishJournalImmutable at published
  cases found : journals.get planDigest with
  | none =>
    rw [found] at published
    cases published
    rw [weigh_set_of_absent blob found]
    constructor
    · omega
    · simp only [Option.isSome_none, Bool.false_eq_true, iff_false]
      omega
  | some old =>
    rw [found] at published
    simp only at published
    split at published
    · split at published
      · cases published
        simp
      · cases published
    · cases published

theorem sum_digests_eq_zero (objects : ∀ item ∈ items, ∃ d, item = objItem d) (w : Bytes → Nat) :
    ((digests items).map w).sum = 0 ↔ ∀ d, objItem d ∈ items → w d = 0 := by
  rw [List.sum_eq_zero_iff_forall_eq_nat, List.forall_mem_map]
  exact forall_congr' fun d => by rw [mem_digests objects]

/-- What a run that executes does, in terms of the state before it. -/
structure Executed (c : Crypto) (keyring : Keyring) (disk disk' : GcDisk) (call : GcCall) :
    Prop where
  shifted : Shifted ((disk.reap call.scope).reread call) disk' (digests (taken c keyring disk call))
  items : ∀ item ∈ taken c keyring disk call, ∃ d, item = objItem d
  gone : ∀ d, objItem d ∈ taken c keyring disk call → objectBytes disk' d = 0
  arrived : ∀ d, objItem d ∈ taken c keyring disk call →
    quarantineBytes disk' d = objectBytes disk d
  grows : disk.journals.weigh List.length ≤ disk'.journals.weigh List.length
  announced : disk'.journals.weigh List.length = disk.journals.weigh List.length ↔
    Announced c keyring disk call

theorem announced_iff {disk : GcDisk} {call : GcCall} {roots : GcRoots} {plan : GcPlan}
    (gathered : gatherRoots c keyring (disk.reap call.scope) call.scope call.retention call.limits =
      .ok roots)
    (decided : planReachability c keyring disk.objects disk.walStore roots call.limits = .ok plan) :
    Announced c keyring disk call ↔ (disk.journals.get plan.planDigest).isSome := by
  constructor
  · rintro ⟨roots', plan', gathered', decided', found⟩
    rw [gathered] at gathered'
    cases gathered'
    rw [decided] at decided'
    cases decided'
    exact found
  · exact fun found => ⟨roots, plan, gathered, decided, found⟩

theorem executed_of_prepared {result : GcRunResult} {execution : GcExecution}
    (ready : prepareRun c keyring (disk.reap call.scope) call = .ok execution)
    (renames : executePlan call execution ((disk.reap call.scope).reread call) = (disk', result)) :
    Executed c keyring disk disk' call := by
  obtain ⟨roots, key, blob, prepared⟩ := prepared_of_prepareRun ready
  have present := present_of_mem_movable prepared.decided
  obtain ⟨effect, moved, -, -⟩ := executePlan_effect renames present
  have decided : planReachability c keyring disk.objects disk.walStore roots call.limits =
      .ok execution.plan := prepared.decided
  have listed : taken c keyring disk call = result.quarantined := by
    rw [taken, collectable_of_plan prepared.gathered decided, moved]
  have sublist : result.quarantined.Sublist execution.plan.movable := by
    rw [moved]
    cases call.renameFault with
    | none => exact List.Sublist.refl _
    | some fault => exact List.take_sublist _ _
  have items : ∀ item ∈ result.quarantined, ∃ d, item = objItem d := fun item member =>
    (present item (sublist.subset member)).imp fun d found => found.choose_spec.1
  have inNames {d : Bytes} : d ∈ digests result.quarantined ↔ objItem d ∈ result.quarantined :=
    mem_digests items
  obtain ⟨grows, added⟩ := weigh_journals_eq_iff (journal_ne_nil prepared.journal)
    prepared.published
  have journals : disk'.journals = execution.journals := effect.journals
  rw [← journals] at grows added
  refine ⟨?_, listed ▸ items, ?_, ?_, grows, ?_⟩
  · rw [listed]
    refine ⟨nodup_digests items (sublist.nodup (nodup_movable _)), fun d outside => ?_,
      fun d outside => ?_, effect.active, effect.scopes, effect.legacyJournal⟩
    · exact (effect.objects d).trans (if_neg fun member => outside (inNames.mpr member))
    · exact (effect.quarantine d).trans (if_neg fun member => outside (inNames.mpr member))
  · intro d member
    rw [listed] at member
    have nothing : disk'.objects.objects.get d = none := (effect.objects d).trans (if_pos member)
    simp [objectBytes, Dict.weightAt, nothing]
  · intro d member
    rw [listed] at member
    obtain ⟨d', blob', same, found⟩ := present _ (sublist.subset member)
    obtain rfl := objItem_inj.mp same
    have stored : disk'.quarantine.get d = disk.objects.objects.get d := by
      rw [effect.quarantine, if_pos member]
      show (disk.objects.get d).or _ = disk.objects.get d
      rw [show disk.objects.get d = some blob' from found]
      rfl
    rw [quarantineBytes, objectBytes, Dict.weightAt, Dict.weightAt, stored]
  · rw [announced_iff prepared.gathered decided]
    exact added

theorem runGc_conserves {result : GcRunResult}
    (ran : runGc c keyring disk call = .ok (disk', result)) :
    Conserves layout call.scope ((disk.reap call.scope).reread call) disk' ↔
      (Executes c keyring disk call → RunBalanced c keyring layout disk call) := by
  rcases runGc_cases ran with ⟨stopped, rfl⟩ | ⟨execution, ready, renames⟩
  · have still : ¬ Executes c keyring disk call := by
      rintro ⟨execution, ready⟩
      rw [stopped] at ready
      cases ready
    refine iff_of_true (fun _ _ _ _ _ _ => ?_) fun executes => absurd executes still
    rw [totalBytes_computeLedger, totalBytes_computeLedger]
  · have executes : Executes c keyring disk call := ⟨execution, ready⟩
    have run := executed_of_prepared ready renames
    have empty := sum_digests_eq_zero run.items (objectBytes disk)
    have kept := sum_digests_eq_zero run.items (quarantineBytes disk)
    have gone : ((digests (taken c keyring disk call)).map (objectBytes disk')).sum = 0 :=
      (sum_digests_eq_zero run.items _).mpr run.gone
    have arrived : (digests (taken c keyring disk call)).map (quarantineBytes disk') =
        (digests (taken c keyring disk call)).map (objectBytes disk) :=
      List.map_congr_left fun d member => run.arrived d ((mem_digests run.items).mp member)
    have grows := run.grows
    have announced := run.announced
    rw [conserves_iff_of_shifted run.shifted, gone, arrived]
    show (layout.Joined → _ + _ = ((digests (taken c keyring disk call)).map
        (objectBytes disk)).sum + ((digests (taken c keyring disk call)).map
        (quarantineBytes disk)).sum) ∧
      (layout.Enclosed → _ = 2 * ((digests (taken c keyring disk call)).map
        (objectBytes disk)).sum + ((digests (taken c keyring disk call)).map
        (quarantineBytes disk)).sum) ∧
      (¬ layout.Joined → ¬ layout.Enclosed → 0 + disk.journals.weigh List.length =
        ((digests (taken c keyring disk call)).map (objectBytes disk)).sum + _) ↔ _
    constructor
    · rintro ⟨joined, enclosed, apart⟩ -
      refine ⟨fun j => ?_, fun e => ?_, fun j e => ?_⟩
      · have := joined j
        exact kept.mp (by omega)
      · have := enclosed e
        exact fun d member => ⟨empty.mp (by omega) d member, kept.mp (by omega) d member⟩
      · have := apart j e
        exact ⟨empty.mp (by omega), announced.mp (by omega)⟩
    · intro balanced
      have balanced := balanced executes
      refine ⟨fun j => ?_, fun e => ?_, fun j e => ?_⟩
      · have := kept.mpr (balanced.joined j)
        omega
      · have := empty.mpr fun d member => (balanced.enclosed e d member).1
        have := kept.mpr fun d member => (balanced.enclosed e d member).2
        omega
      · have := empty.mpr (balanced.apart j e).1
        have := announced.mpr (balanced.apart j e).2
        omega

/-- The arguments of `recover_gc`. -/
structure RecoverCall where
  scope : Int
  retention : Int
  journalKeyId : Int
  limits : GcLimits

def recoveryItems (c : Crypto) (keyring : Keyring) (disk : GcDisk) (call : RecoverCall) :
    List GcItem :=
  if disk.allJournals = [] then []
  else ((openJournals c (keyring.get call.journalKeyId) disk.allJournals).map listedObjects).getD []

/-- A listed object ends among the objects when it is reachable once everything listed is back, and
wherever that cannot be told. -/
def stays (c : Crypto) (keyring : Keyring) (disk : GcDisk) (call : RecoverCall) (item : GcItem) :
    Bool :=
  match GcDisk.restoreItems (recoveryItems c keyring disk call) disk with
  | .error _ => true
  | .ok (restoredDisk, _) =>
    match gatherRoots c keyring restoredDisk call.scope call.retention call.limits with
    | .error _ => true
    | .ok roots =>
      match planReachability c keyring restoredDisk.objects restoredDisk.walStore roots
          call.limits with
      | .error _ => true
      | .ok plan => plan.state ≠ .planned ∨ item ∈ plan.reachable

/-- What a listed name holds during a recovery: the quarantined file, or else the object. -/
def held (disk : GcDisk) (d : Bytes) : Option Bytes :=
  (disk.quarantine.get d).or (disk.objects.get d)

def heldBytes (disk : GcDisk) (d : Bytes) : Nat := ((held disk d).map List.length).getD 0

/-- The effect of a recovery. -/
structure Recovered (disk final : GcDisk) (items : List GcItem) (kept : GcItem → Bool) : Prop where
  objects : ∀ d, final.objects.get d =
    if objItem d ∈ items then (if kept (objItem d) then held disk d else none)
    else disk.objects.get d
  quarantine : ∀ d, final.quarantine.get d =
    if objItem d ∈ items then (if kept (objItem d) then none else held disk d)
    else disk.quarantine.get d
  active : final.active = disk.active
  scopes : final.scopes = disk.scopes
  journals : final.journals = disk.journals
  legacyJournal : final.legacyJournal = disk.legacyJournal

theorem Recovered.refl (disk : GcDisk) (kept : GcItem → Bool) : Recovered disk disk [] kept := by
  constructor <;> simp

theorem recovered_of_restored {disk final : GcDisk}
    (objects : ∀ item ∈ items, ∃ d, item = objItem d)
    (restored : Restored disk final (digests items)) (all : ∀ item ∈ items, kept item = true) :
    Recovered disk final items kept := by
  refine ⟨fun d => ?_, fun d => ?_, restored.active, restored.scopes, restored.journals,
    restored.legacyJournal⟩
  · rw [restored.objects]
    by_cases member : objItem d ∈ items
    · rw [if_pos ((mem_digests objects).mpr member), if_pos member, if_pos (all _ member), held]
    · rw [if_neg fun inside => member ((mem_digests objects).mp inside), if_neg member]
  · rw [restored.quarantine]
    by_cases member : objItem d ∈ items
    · rw [if_pos ((mem_digests objects).mpr member), if_pos member, if_pos (all _ member)]
    · rw [if_neg fun inside => member ((mem_digests objects).mp inside), if_neg member]

theorem recovered_of_quarantined {disk mid final : GcDisk} {items reachable : List GcItem}
    (objects : ∀ item ∈ items, ∃ d, item = objItem d) (restored : Restored disk mid (digests items))
    (moved : Quarantined mid final (items.filter fun item => item ∉ reachable))
    (decided : ∀ item ∈ items, kept item = decide (item ∈ reachable)) :
    Recovered disk final items kept := by
  have inNames {d : Bytes} : d ∈ digests items ↔ objItem d ∈ items := mem_digests objects
  refine ⟨fun d => ?_, fun d => ?_, moved.active.trans restored.active,
    moved.scopes.trans restored.scopes, moved.journals.trans restored.journals,
    moved.legacyJournal.trans restored.legacyJournal⟩
  · rw [moved.objects, restored.objects]
    by_cases member : objItem d ∈ items
    · by_cases reached : objItem d ∈ reachable <;>
        simp [inNames, member, reached, decided _ member, held]
    · simp [inNames, member]
  · rw [moved.quarantine, restored.objects, restored.quarantine]
    by_cases member : objItem d ∈ items
    · by_cases reached : objItem d ∈ reachable <;>
        simp [inNames, member, reached, decided _ member, held]
    · simp [inNames, member]

theorem named_of_listed (c : Crypto) (keyring : Keyring) (disk : GcDisk) (call : RecoverCall) :
    ∀ item ∈ recoveryItems c keyring disk call, item.Named := by
  intro item member
  unfold recoveryItems at member
  split at member
  · cases member
  · cases opened : openJournals c (keyring.get call.journalKeyId) disk.allJournals with
    | none => simp [opened] at member
    | some listed =>
      rw [opened] at member
      obtain ⟨inListed, object⟩ := List.mem_filter.mp member
      exact named_of_openJournals opened item (mem_sortItems.mp inListed) (of_decide_eq_true object)

theorem nodup_recoveryItems (disk : GcDisk) (call : RecoverCall) :
    (recoveryItems c keyring disk call).Nodup := by
  unfold recoveryItems
  split
  · exact List.nodup_nil
  · cases openJournals c (keyring.get call.journalKeyId) disk.allJournals with
    | none => exact List.nodup_nil
    | some listed =>
      apply List.Nodup.filter
      exact (List.perm_insertionSort _ _).nodup_iff.mpr (List.nodup_dedup _)

theorem recoverGc_effect {disk disk' : GcDisk} {call : RecoverCall} {result : RecoverGcResult}
    (ran : recoverGc c keyring disk call.scope call.retention call.journalKeyId call.limits =
      .ok (disk', result)) :
    Recovered disk disk' (recoveryItems c keyring disk call) (stays c keyring disk call) := by
  have named := named_of_listed c keyring disk call
  have objects : ∀ item ∈ recoveryItems c keyring disk call, ∃ d, item = objItem d :=
    fun item member => (named item member).imp fun d found => found.2
  obtain ⟨restoredDisk, names, restoring, restored⟩ :=
    restoreItems_spec (recoveryItems c keyring disk call) disk
  unfold recoverGc at ran
  by_cases nothing : disk.allJournals = []
  · have items : recoveryItems c keyring disk call = [] := if_pos nothing
    rw [if_pos nothing] at ran
    cases ran
    rw [items]
    exact Recovered.refl _ _
  · rw [if_neg nothing] at ran
    cases opened : openJournals c (keyring.get call.journalKeyId) disk.allJournals with
    | none =>
      have items : recoveryItems c keyring disk call = [] := by
        rw [recoveryItems, if_neg nothing, opened]
        rfl
      rw [opened] at ran
      cases ran
      rw [items]
      exact Recovered.refl _ _
    | some listed =>
      have items : recoveryItems c keyring disk call = listedObjects listed := by
        rw [recoveryItems, if_neg nothing, opened]
        rfl
      have listing : GcDisk.restoreItems ((sortItems listed).filter fun item =>
          item.kind = .object) disk = .ok (restoredDisk, names) := by
        rw [items] at restoring
        exact restoring
      simp only [opened, listing] at ran
      have verdict (item : GcItem) : stays c keyring disk call item =
          match gatherRoots c keyring restoredDisk call.scope call.retention call.limits with
          | .error _ => true
          | .ok roots =>
            match planReachability c keyring restoredDisk.objects restoredDisk.walStore roots
                call.limits with
            | .error _ => true
            | .ok plan => decide (plan.state ≠ .planned ∨ item ∈ plan.reachable) := by
        unfold stays
        rw [restoring]
      cases gathered : gatherRoots c keyring restoredDisk call.scope call.retention call.limits with
      | error why =>
        rw [gathered] at ran
        cases ran
        refine recovered_of_restored objects restored fun item _ => ?_
        rw [verdict, gathered]
      | ok roots =>
        simp only [gathered] at ran
        cases decided : planReachability c keyring restoredDisk.objects restoredDisk.walStore roots
            call.limits with
        | error e =>
          rw [decided] at ran
          cases ran
        | ok plan =>
          simp only [decided, ok_bind] at ran
          by_cases planned : plan.state = .planned
          · rw [if_neg (not_not.mpr planned)] at ran
            obtain ⟨final, back, kept, keeping, moved⟩ :=
              keepItems_spec plan.reachable names named restoredDisk
            rw [items] at keeping
            unfold listedObjects at keeping
            rw [keeping] at ran
            cases ran
            refine recovered_of_quarantined objects restored moved fun item _ => ?_
            rw [verdict, gathered]
            simp only [decided, planned, ne_eq, not_true, false_or]
          · rw [if_pos planned] at ran
            cases ran
            refine recovered_of_restored objects restored fun item _ => ?_
            rw [verdict, gathered]
            simp only [decided, planned, ne_eq, not_false_eq_true, true_or, decide_true]

/-- When a recovery leaves the total as it was. -/
structure RecoveryBalanced (c : Crypto) (keyring : Keyring) (layout : Layout) (disk : GcDisk)
    (call : RecoverCall) : Prop where
  joined : layout.Joined → ∀ d, objItem d ∈ recoveryItems c keyring disk call →
    (disk.quarantine.get d).isSome → objectBytes disk d = 0
  enclosed : layout.Enclosed →
    let names := digests (recoveryItems c keyring disk call)
    (names.map fun d => if stays c keyring disk call (objItem d) then 2 * heldBytes disk d
      else heldBytes disk d).sum =
    (names.map fun d => 2 * objectBytes disk d + quarantineBytes disk d).sum
  apart : ¬ layout.Joined → ¬ layout.Enclosed →
    let names := digests (recoveryItems c keyring disk call)
    (names.map fun d => if stays c keyring disk call (objItem d) then heldBytes disk d
      else 0).sum = (names.map (objectBytes disk)).sum

/-- A name holds one of its two files during a recovery, and loses the object it had when the
quarantined file comes back over it. -/
theorem heldBytes_add (disk : GcDisk) (d : Bytes) :
    heldBytes disk d + (if (disk.quarantine.get d).isSome then objectBytes disk d else 0) =
      objectBytes disk d + quarantineBytes disk d := by
  unfold heldBytes held objectBytes quarantineBytes Dict.weightAt
  cases disk.quarantine.get d with
  | none =>
    show ((disk.objects.objects.get d).map List.length).getD 0 + 0 = _
    simp
  | some blob => simp [Nat.add_comm]

theorem recoverGc_conserves {disk disk' : GcDisk} {call : RecoverCall} {result : RecoverGcResult}
    (ran : recoverGc c keyring disk call.scope call.retention call.journalKeyId call.limits =
      .ok (disk', result)) :
    Conserves layout call.scope disk disk' ↔ RecoveryBalanced c keyring layout disk call := by
  have effect := recoverGc_effect ran
  have named := named_of_listed c keyring disk call
  have objects : ∀ item ∈ recoveryItems c keyring disk call, ∃ d, item = objItem d :=
    fun item member => (named item member).imp fun d found => found.2
  have inNames {d : Bytes} : d ∈ digests (recoveryItems c keyring disk call) ↔
      objItem d ∈ recoveryItems c keyring disk call := mem_digests objects
  have shifted : Shifted disk disk' (digests (recoveryItems c keyring disk call)) := by
    refine ⟨nodup_digests objects (nodup_recoveryItems disk call), fun d outside => ?_,
      fun d outside => ?_, effect.active, effect.scopes, effect.legacyJournal⟩
    · exact (effect.objects d).trans (if_neg fun member => outside (inNames.mpr member))
    · exact (effect.quarantine d).trans (if_neg fun member => outside (inNames.mpr member))
  have back : (digests (recoveryItems c keyring disk call)).map (objectBytes disk') =
      (digests (recoveryItems c keyring disk call)).map fun d =>
        if stays c keyring disk call (objItem d) then heldBytes disk d else 0 := by
    refine List.map_congr_left fun d member => ?_
    have found : disk'.objects.objects.get d = _ :=
      (effect.objects d).trans (if_pos (inNames.mp member))
    rw [objectBytes, Dict.weightAt, found]
    cases stays c keyring disk call (objItem d) <;> rfl
  have away : (digests (recoveryItems c keyring disk call)).map (quarantineBytes disk') =
      (digests (recoveryItems c keyring disk call)).map fun d =>
        if stays c keyring disk call (objItem d) then 0 else heldBytes disk d := by
    refine List.map_congr_left fun d member => ?_
    rw [quarantineBytes, Dict.weightAt, effect.quarantine, if_pos (inNames.mp member)]
    cases stays c keyring disk call (objItem d) <;> rfl
  -- One of the two files of a name is what is held, and the other is lost.
  have whole : ((digests (recoveryItems c keyring disk call)).map (objectBytes disk')).sum +
        ((digests (recoveryItems c keyring disk call)).map (quarantineBytes disk')).sum =
      ((digests (recoveryItems c keyring disk call)).map (heldBytes disk)).sum := by
    rw [back, away, ← List.sum_map_add]
    refine congrArg List.sum (List.map_congr_left fun d _ => ?_)
    cases stays c keyring disk call (objItem d) <;> simp
  have lost : ((digests (recoveryItems c keyring disk call)).map (heldBytes disk)).sum +
        ((digests (recoveryItems c keyring disk call)).map fun d =>
          if (disk.quarantine.get d).isSome then objectBytes disk d else 0).sum =
      ((digests (recoveryItems c keyring disk call)).map (objectBytes disk)).sum +
        ((digests (recoveryItems c keyring disk call)).map (quarantineBytes disk)).sum := by
    rw [← List.sum_map_add, ← List.sum_map_add]
    exact congrArg List.sum (List.map_congr_left fun d _ => heldBytes_add disk d)
  have nothing := sum_digests_eq_zero objects fun d =>
    if (disk.quarantine.get d).isSome then objectBytes disk d else 0
  have twiceAfter : ((digests (recoveryItems c keyring disk call)).map fun d =>
        if stays c keyring disk call (objItem d) then 2 * heldBytes disk d
        else heldBytes disk d).sum =
      2 * ((digests (recoveryItems c keyring disk call)).map (objectBytes disk')).sum +
        ((digests (recoveryItems c keyring disk call)).map (quarantineBytes disk')).sum := by
    rw [back, away, Nat.two_mul, ← List.sum_map_add, ← List.sum_map_add]
    refine congrArg List.sum (List.map_congr_left fun d _ => ?_)
    cases stays c keyring disk call (objItem d) <;> simp [Nat.two_mul]
  have twiceBefore : ((digests (recoveryItems c keyring disk call)).map fun d =>
        2 * objectBytes disk d + quarantineBytes disk d).sum =
      2 * ((digests (recoveryItems c keyring disk call)).map (objectBytes disk)).sum +
        ((digests (recoveryItems c keyring disk call)).map (quarantineBytes disk)).sum := by
    rw [Nat.two_mul, ← List.sum_map_add, ← List.sum_map_add]
    exact congrArg List.sum (List.map_congr_left fun d _ => by rw [Nat.two_mul])
  rw [conserves_iff_of_shifted shifted, effect.journals, Nat.add_right_cancel_iff, whole,
    ← twiceAfter, ← twiceBefore, ← lost, back]
  have kept : ((digests (recoveryItems c keyring disk call)).map (heldBytes disk)).sum =
        ((digests (recoveryItems c keyring disk call)).map (heldBytes disk)).sum +
          ((digests (recoveryItems c keyring disk call)).map fun d =>
            if (disk.quarantine.get d).isSome then objectBytes disk d else 0).sum ↔
      ∀ d, objItem d ∈ recoveryItems c keyring disk call →
        (disk.quarantine.get d).isSome → objectBytes disk d = 0 := by
    rw [left_eq_add, nothing]
    exact forall₂_congr fun d _ => ite_eq_right_iff
  rw [kept]
  exact ⟨fun held => ⟨held.1, held.2.1, held.2.2⟩,
    fun balanced => ⟨balanced.joined, balanced.enclosed, balanced.apart⟩⟩

def storeLayout : Layout := ⟨["store", "wal"], ["store", "pub", "scopes", "00000007"], []⟩

end ProofRay.Memory
