/- The compact lexicon answers like the table: what the builder keeps of the rows, and the search
   that finds the mask of a surface again. -/

import ProofRay.Engine.Primitives
import ProofRay.Lexicon.Compact

namespace ProofRay.Lexicon

open Engine (Bytes Crypto PyError ascii structPack structPack_eq_ok length_of_structPack)
open Lib (rank bisectRight_eq)
open Lib.Guard
open Lib.Struct (unpackFrom size Fits pack_of_fits unpackFrom_pack_append)
open Lib.CodePoints
open Lib.FrontCoded
open Sidecar (hexText)

variable {table : List (Text × Nat)} {casefold : Text → Text} {b : Builder}
  {previous surface : Text} {entry : Bytes} {mask : Nat}

private theorem entryBytes_eq_ok :
    entryBytes previous surface mask = .ok entry ↔ ∃ suffix fields,
      encodeText (surface.drop (shared 0xFFFF previous surface)) = .ok suffix ∧
      suffix.length ≤ 0xFFFF ∧ mask ≤ 0xFFFF ∧
      structPack entryFields ((shared 0xFFFF previous surface : Nat), (suffix.length : Nat),
        (mask : Nat), ()) = .ok fields ∧
      entry = fields ++ suffix := by
  simp only [entryBytes, bind_eq_ok, require_eq_ok, pure_eq_ok, not_or, Nat.not_lt]
  constructor
  · rintro ⟨suffix, encoded, -, ⟨short, small⟩, fields, packed, rfl⟩
    exact ⟨suffix, fields, encoded, short, small, packed, rfl⟩
  · rintro ⟨suffix, fields, encoded, short, small, packed, rfl⟩
    exact ⟨suffix, encoded, (), ⟨short, small⟩, fields, packed, rfl⟩

private theorem fits_entry {beginning suffix mask : Nat} (low : beginning ≤ 0xFFFF)
    (short : suffix ≤ 0xFFFF) (small : mask ≤ 0xFFFF) :
    Fits entryFields ((beginning : Int), (suffix : Int), (mask : Int), ()) := by
  refine ⟨⟨?_, ?_⟩, ⟨?_, ?_⟩, ⟨?_, ?_⟩, trivial⟩ <;> simp only <;> omega

private theorem slice_append (before raw after : Bytes) :
    slice (before ++ (raw ++ after)) before.length (before.length + raw.length) = raw := by
  rw [slice, List.take_append, Nat.add_sub_cancel_left, List.take_of_length_le (by omega),
    List.take_left', List.drop_left']
  all_goals rfl

private theorem walk_entry (written : entryBytes previous surface mask = .ok entry)
    (before after : Bytes) (target : Text) {stop : Nat} (inside : before.length < stop)
    (fuel : Nat) :
    walk (before ++ (entry ++ after)) target stop (fuel + 1) before.length previous =
      if surface = target then pure mask
      else if target < surface then pure 0
      else walk (before ++ (entry ++ after)) target stop fuel (before.length + entry.length)
        surface := by
  obtain ⟨suffix, fields, encoded, short, small, packed, rfl⟩ := entryBytes_eq_ok.mp written
  have fits := fits_entry (shared_le 0xFFFF previous surface) short small
  have fieldsLength : fields.length = size entryFields := length_of_structPack packed
  have read : readEntry (before ++ (fields ++ suffix ++ after)) before.length =
      .ok (shared 0xFFFF previous surface, suffix.length, mask) := by
    rw [List.append_assoc fields, readEntry,
      unpackFrom_pack_append fits (structPack_eq_ok.mp packed) before (suffix ++ after)]
    rfl
  have cut : slice (before ++ (fields ++ suffix ++ after)) (before.length + size entryFields)
      (before.length + size entryFields + suffix.length) = suffix := by
    have there := slice_append (before ++ fields) suffix after
    rw [List.length_append, fieldsLength] at there
    simpa only [List.append_assoc] using there
  rw [walk, if_pos inside, read]
  simp only [ok_bind, cut, decodeText_of_encodeText encoded,
    take_shared_append_drop, List.length_append, fieldsLength, ← Nat.add_assoc]

def encodeEntries (previous : Text) : List (Text × Nat) → Except PyError Bytes
  | [] => pure []
  | item :: rest => do
    let entry ← entryBytes previous item.1 item.2
    let others ← encodeEntries item.1 rest
    pure (entry ++ others)

private theorem encodeEntries_concat {items : List (Text × Nat)} {item : Text × Nat}
    {previous : Text} {bytes entry : Bytes} (encoded : encodeEntries previous items = .ok bytes)
    (last : entryBytes (items.foldl (fun _ i => i.1) previous) item.1 item.2 = .ok entry) :
    encodeEntries previous (items ++ [item]) = .ok (bytes ++ entry) := by
  induction items generalizing previous bytes with
  | nil =>
    cases encoded
    simp only [List.foldl_nil] at last
    simp [encodeEntries, last]
  | cons first items ih =>
    simp only [encodeEntries, bind_eq_ok, pure_eq_ok] at encoded
    obtain ⟨start, written, others, encoded, rfl⟩ := encoded
    have rest := ih encoded last
    simp [encodeEntries, written, rest, List.append_assoc]

private theorem walk_block {items : List (Text × Nat)} (target : Text) (after : Bytes) :
    ∀ {previous : Text} {bytes : Bytes} (before : Bytes) {fuel : Nat},
      encodeEntries previous items = .ok bytes → bytes.length ≤ fuel →
      walk (before ++ (bytes ++ after)) target (before.length + bytes.length) fuel before.length
        previous = pure ((seek target items).getD 0) := by
  induction items with
  | nil =>
    intro previous bytes before fuel encoded _
    cases encoded
    cases fuel with
    | zero => rfl
    | succ fuel =>
      rw [walk, if_neg (by simp)]
      rfl
  | cons item items ih =>
    intro previous bytes before fuel encoded enough
    obtain ⟨surface, mask⟩ := item
    simp only [encodeEntries, bind_eq_ok, pure_eq_ok] at encoded
    obtain ⟨entry, written, others, encoded, rfl⟩ := encoded
    have positive : size entryFields ≤ entry.length := by
      obtain ⟨suffix, fields, -, -, -, packed, rfl⟩ := entryBytes_eq_ok.mp written
      have := length_of_structPack packed
      rw [List.length_append]
      omega
    have six : size entryFields = 6 := rfl
    rw [List.length_append] at enough
    cases fuel with
    | zero => omega
    | succ fuel =>
      rw [List.append_assoc entry, walk_entry written before (others ++ after) target
        (by rw [List.length_append]; omega), seek]
      by_cases here : surface = target
      · rw [if_pos here, if_pos here]
        rfl
      · rw [if_neg here, if_neg here]
        by_cases beyond : target < surface
        · rw [if_pos beyond, if_pos beyond]
          rfl
        · rw [if_neg beyond, if_neg beyond]
          have rest := @ih _ _ (before ++ entry) fuel encoded (by omega)
          simpa only [List.length_append, List.append_assoc, Nat.add_assoc] using rest

abbrev Chunk := List (Text × Nat) × Bytes

def Chunk.key (chunk : Chunk) : Text := (chunk.1.head?.map Prod.fst).getD []

def Chunk.last (chunk : Chunk) : Text := chunk.1.foldl (fun _ item => item.1) []

def dataOf (chunks : List Chunk) : Bytes := (chunks.map Prod.snd).flatten

def starts (offset : Nat) : List Chunk → List (Text × Nat)
  | [] => []
  | chunk :: rest => (chunk.key, offset) :: starts (offset + chunk.2.length) rest

@[simp] theorem dataOf_append (chunks others : List Chunk) :
    dataOf (chunks ++ others) = dataOf chunks ++ dataOf others := by
  simp [dataOf]

@[simp] theorem dataOf_cons (chunk : Chunk) (chunks : List Chunk) :
    dataOf (chunk :: chunks) = chunk.2 ++ dataOf chunks := by
  simp [dataOf]

@[simp] theorem dataOf_nil : dataOf [] = [] := rfl

@[simp] theorem length_starts (offset : Nat) (chunks : List Chunk) :
    (starts offset chunks).length = chunks.length := by
  induction chunks generalizing offset with
  | nil => rfl
  | cons chunk rest ih => simp [starts, ih]

theorem starts_append (offset : Nat) (chunks others : List Chunk) :
    starts offset (chunks ++ others) =
      starts offset chunks ++ starts (offset + (dataOf chunks).length) others := by
  induction chunks generalizing offset with
  | nil => rfl
  | cons chunk rest ih =>
    simp only [List.cons_append, starts, ih, dataOf_cons, List.length_append, Nat.add_assoc]

/-- The offset of block `i`, or the end of the data past the last one. -/
theorem getD_starts (offset i : Nat) (chunks : List Chunk) :
    ((starts offset chunks).map Prod.snd).getD i (offset + (dataOf chunks).length) =
      offset + (dataOf (chunks.take i)).length := by
  induction chunks generalizing offset i with
  | nil => simp [starts]
  | cons chunk rest ih =>
    cases i with
    | zero => simp [starts]
    | succ i =>
      have later := ih (offset + chunk.2.length) i
      simp only [dataOf_cons, List.length_append, ← Nat.add_assoc, starts, List.map_cons,
        List.getD_cons_succ, List.take_succ_cons]
      exact later

variable {chunks : List Chunk}

theorem le_of_mem_starts {offset : Nat} {block : Text × Nat}
    (member : block ∈ starts offset chunks) : block.2 ≤ offset + (dataOf chunks).length := by
  induction chunks generalizing offset with
  | nil => cases member
  | cons chunk rest ih =>
    rw [dataOf_cons, List.length_append]
    rcases List.mem_cons.mp member with rfl | later
    · exact Nat.le_add_right _ _
    · have := ih later
      omega

theorem pairwise_starts (offset : Nat) (chunks : List Chunk) :
    ((starts offset chunks).map Prod.snd).Pairwise (· ≤ ·) ∧
      ∀ other ∈ (starts offset chunks).map Prod.snd, offset ≤ other := by
  induction chunks generalizing offset with
  | nil => exact ⟨List.Pairwise.nil, nofun⟩
  | cons chunk rest ih =>
    obtain ⟨sorted, above⟩ := ih (offset + chunk.2.length)
    have beyond : ∀ other ∈ (starts (offset + chunk.2.length) rest).map Prod.snd,
        offset ≤ other := fun other member =>
      (Nat.le_add_right _ _).trans (above other member)
    rw [starts, List.map_cons]
    refine ⟨List.pairwise_cons.mpr ⟨beyond, sorted⟩, fun other member => ?_⟩
    rcases List.mem_cons.mp member with rfl | later
    · exact Nat.le_refl _
    · exact beyond other later

/-- The entries the builder was given, cut into its blocks, and how large its data can be. -/
structure Laid (b : Builder) (table : List (Text × Nat)) (chunks : List Chunk) : Prop where
  table_eq : (chunks.map Prod.fst).flatten = table
  data_eq : b.data = dataOf chunks
  blocks_eq : b.blocks = starts 0 chunks
  encoded : ∀ chunk ∈ chunks, encodeEntries [] chunk.1 = .ok chunk.2
  filled : ∀ chunk ∈ chunks, chunk.1 ≠ []
  previous_eq : ∀ chunk ∈ chunks.getLast?, b.previous = chunk.last
  capacity : b.entryCount ≤ blockSize * chunks.length
  narrow : b.data.length ≤ (size entryFields + 0xFFFF) * b.entryCount

theorem laid_empty : Laid .empty [] [] where
  table_eq := rfl
  data_eq := rfl
  blocks_eq := rfl
  encoded := nofun
  filled := nofun
  previous_eq := nofun
  capacity := Nat.le_refl 0
  narrow := Nat.le_refl 0

private theorem length_entryBytes (written : entryBytes previous surface mask = .ok entry) :
    entry.length ≤ size entryFields + 0xFFFF := by
  obtain ⟨suffix, fields, -, short, -, packed, rfl⟩ := entryBytes_eq_ok.mp written
  rw [List.length_append, length_of_structPack packed]
  omega

theorem Laid.put {b b' : Builder} (laid : Laid b table chunks) {item : Text × Nat}
    (done : b.put item = .ok b') : ∃ chunks', Laid b' (table ++ [item]) chunks' := by
  simp only [Builder.put, bind_eq_ok, pure_eq_ok] at done
  obtain ⟨entry, written, rfl⟩ := done
  have short := length_entryBytes written
  have narrow : b.data.length + entry.length ≤
      (size entryFields + 0xFFFF) * (b.entryCount + 1) := by
    rw [Nat.mul_succ]
    exact Nat.add_le_add laid.narrow short
  by_cases fresh : b.entryCount % blockSize = 0
  · simp only [if_pos fresh] at written ⊢
    have one : encodeEntries [] [item] = .ok entry := by
      simp [encodeEntries, written]
    refine ⟨chunks ++ [([item], entry)], ?_, ?_, ?_, ?_, ?_, ?_, ?_, ?_⟩
    · simp [← laid.table_eq]
    · simp [laid.data_eq]
    · simp [starts_append, ← laid.blocks_eq, laid.data_eq, starts, Chunk.key]
    · exact fun chunk member => (List.mem_append.mp member).elim (laid.encoded chunk)
        fun here => by rw [List.mem_singleton.mp here]; exact one
    · exact fun chunk member => (List.mem_append.mp member).elim (laid.filled chunk)
        fun here => by rw [List.mem_singleton.mp here]; exact List.cons_ne_nil _ _
    · intro chunk last
      rw [List.getLast?_concat] at last
      cases last
      rfl
    · have := laid.capacity
      simp only [blockSize, List.length_append, List.length_singleton] at this ⊢
      omega
    · simpa using narrow
  · simp only [if_neg fresh] at written ⊢
    rcases List.eq_nil_or_concat' chunks with rfl | ⟨others, ⟨items, bytes⟩, rfl⟩
    · have empty := laid.capacity
      rw [List.length_nil, Nat.mul_zero, Nat.le_zero] at empty
      exact absurd (by rw [empty, Nat.zero_mod]) fresh
    · have there : (items, bytes) ∈ others ++ [(items, bytes)] := by simp
      have nonempty : items ≠ [] := laid.filled (items, bytes) there
      have previous : b.previous = Chunk.last (items, bytes) :=
        laid.previous_eq _ (by simp)
      rw [previous] at written
      have more := encodeEntries_concat (laid.encoded _ there) written
      have key : Chunk.key (items ++ [item], bytes ++ entry) = Chunk.key (items, bytes) := by
        cases items with
        | nil => exact absurd rfl nonempty
        | cons first rest => rfl
      refine ⟨others ++ [(items ++ [item], bytes ++ entry)], ?_, ?_, ?_, ?_, ?_, ?_, ?_, ?_⟩
      · simp [← laid.table_eq]
      · simp [laid.data_eq]
      · rw [laid.blocks_eq, starts_append, starts_append]
        simp [starts, key]
      · intro chunk member
        rcases List.mem_append.mp member with before | here
        · exact laid.encoded chunk (List.mem_append_left _ before)
        · rw [List.mem_singleton.mp here]
          exact more
      · intro chunk member
        rcases List.mem_append.mp member with before | here
        · exact laid.filled chunk (List.mem_append_left _ before)
        · rw [List.mem_singleton.mp here]
          exact List.append_ne_nil_of_left_ne_nil nonempty _
      · intro chunk last
        rw [List.getLast?_concat] at last
        cases last
        simp [Chunk.last]
      · have := laid.capacity
        simp only [blockSize, List.length_append, List.length_singleton] at this fresh ⊢
        omega
      · simpa using narrow

/-- `union |= _mask(..)` along the rows, from nothing. -/
def unionMask (rows : List Row) : Nat := rows.foldl (fun union r => union ||| r.mask) 0

def rowsOf (casefold : Text → Text) (rows : List Row) (surface : Text) : List Row :=
  rows.filter fun r => casefold r.surface = surface

/-- A table that lists the surfaces of the rows in order, each once, with the union of its masks. -/
structure Grouped (casefold : Text → Text) (table : List (Text × Nat)) (rows : List Row) :
    Prop where
  increasing : Increasing table
  union : ∀ item ∈ table, item.2 = unionMask (rowsOf casefold rows item.1)
  complete : ∀ r ∈ rows, ∃ union, (casefold r.surface, union) ∈ table

private theorem unionMask_concat (rows : List Row) (r : Row) :
    unionMask (rows ++ [r]) = unionMask rows ||| r.mask := by
  simp [unionMask]

private theorem rowsOf_concat (casefold : Text → Text) (rows : List Row) (r : Row) (k : Text) :
    rowsOf casefold (rows ++ [r]) k =
      if casefold r.surface = k then rowsOf casefold rows k ++ [r] else rowsOf casefold rows k := by
  unfold rowsOf
  rw [List.filter_append]
  by_cases here : casefold r.surface = k
  · rw [if_pos here]
    simp [here]
  · rw [if_neg here]
    simp [here]

private theorem Grouped.join {rows : List Row} {surface : Text} {union : Nat}
    (grouped : Grouped casefold (table ++ [(surface, union)]) rows) {r : Row}
    (same : casefold r.surface = surface) :
    Grouped casefold (table ++ [(surface, union ||| r.mask)]) (rows ++ [r]) where
  increasing := by
    have before := List.pairwise_append.mp grouped.increasing
    exact List.pairwise_append.mpr ⟨before.1, List.pairwise_singleton _ _, fun a member b last => by
      rw [List.mem_singleton.mp last]
      exact before.2.2 a member (surface, union) (List.mem_singleton_self _)⟩
  union := by
    intro item member
    have last := grouped.union (surface, union) (by simp)
    rcases List.mem_append.mp member with before | here
    · have below := (List.pairwise_append.mp grouped.increasing).2.2 item before (surface, union)
        (List.mem_singleton_self _)
      have other : casefold r.surface ≠ item.1 := fun equal =>
        lt_irrefl _ (same ▸ equal ▸ below)
      rw [rowsOf_concat, if_neg other]
      exact grouped.union item (List.mem_append_left _ before)
    · rw [List.mem_singleton.mp here, rowsOf_concat, if_pos same, unionMask_concat, ← last]
  complete := by
    intro r' member
    rcases List.mem_append.mp member with before | here
    · obtain ⟨union', there⟩ := grouped.complete r' before
      rcases List.mem_append.mp there with earlier | last
      · exact ⟨union', List.mem_append_left _ earlier⟩
      · have equal : casefold r'.surface = surface :=
          congrArg Prod.fst (List.mem_singleton.mp last)
        exact ⟨union ||| r.mask, by simp [equal]⟩
    · exact ⟨union ||| r.mask, by simp [List.mem_singleton.mp here, same]⟩

private theorem Grouped.start {rows : List Row} (grouped : Grouped casefold table rows) {r : Row}
    (beyond : ∀ item ∈ table, item.1 < casefold r.surface) :
    Grouped casefold (table ++ [(casefold r.surface, 0 ||| r.mask)]) (rows ++ [r]) where
  increasing := List.pairwise_append.mpr
    ⟨grouped.increasing, List.pairwise_singleton _ _, fun a member b last => by
      rw [List.mem_singleton.mp last]
      exact beyond a member⟩
  union := by
    intro item member
    rcases List.mem_append.mp member with before | here
    · have other : casefold r.surface ≠ item.1 := (beyond item before).ne'
      rw [rowsOf_concat, if_neg other]
      exact grouped.union item before
    · have none_before : rowsOf casefold rows (casefold r.surface) = [] := by
        rw [rowsOf, List.filter_eq_nil_iff]
        intro r' member equal
        obtain ⟨union, there⟩ := grouped.complete r' member
        have below := beyond _ there
        rw [of_decide_eq_true equal] at below
        exact lt_irrefl _ below
      rw [List.mem_singleton.mp here, rowsOf_concat, if_pos rfl, none_before]
      rfl
  complete := by
    intro r' member
    rcases List.mem_append.mp member with before | here
    · obtain ⟨union, there⟩ := grouped.complete r' before
      exact ⟨union, List.mem_append_left _ there⟩
    · exact ⟨0 ||| r.mask, by simp [List.mem_singleton.mp here]⟩

private theorem Grouped.feed {done : List Row} {g g' : Group} {yielded : Option (Text × Nat)}
    {lineNumber : Nat} {line : Text} (grouped : Grouped casefold (table ++ g.pair.toList) done)
    (first : g.current = none → table = [])
    (fed : g.feed casefold lineNumber line = .ok (g', yielded)) :
    ∃ r, row lineNumber line = .ok r ∧ g'.current ≠ none ∧
      Grouped casefold (table ++ yielded.toList ++ g'.pair.toList) (done ++ [r]) := by
  simp only [Group.feed, bind_eq_ok, require_eq_ok] at fed
  obtain ⟨r, read, -, ordered, fed⟩ := fed
  refine ⟨r, read, ?_⟩
  by_cases same : g.current = some (casefold r.surface)
  · rw [if_pos same, pure_eq_ok, Prod.mk.injEq] at fed
    obtain ⟨rfl, rfl⟩ := fed
    simp only [Group.pair, same, Option.map_some, Option.toList_some, Option.toList_none,
      List.append_nil] at grouped ⊢
    exact ⟨by simp, grouped.join rfl⟩
  · rw [if_neg same, pure_eq_ok, Prod.mk.injEq] at fed
    obtain ⟨rfl, rfl⟩ := fed
    refine ⟨by simp, ?_⟩
    have beyond : ∀ item ∈ table ++ g.pair.toList, item.1 < casefold r.surface := by
      intro item member
      cases current : g.current with
      | none => simp [first current, Group.pair, current] at member
      | some last =>
        have above : last < casefold r.surface := by
          refine lt_of_le_of_ne (le_of_not_gt (ordered last current)) fun equal => same ?_
          rw [current, equal]
        simp only [Group.pair, current, Option.map_some, Option.toList_some] at member grouped
        rcases List.mem_append.mp member with before | here
        · exact ((List.pairwise_append.mp grouped.increasing).2.2 item before _
            (List.mem_singleton_self _)).trans above
        · rw [List.mem_singleton.mp here]
          exact above
    exact grouped.start beyond

theorem Laid.putYielded {b b' : Builder} (laid : Laid b table chunks)
    {yielded : Option (Text × Nat)} (done : b.putYielded yielded = .ok b') :
    ∃ chunks', Laid b' (table ++ yielded.toList) chunks' := by
  cases yielded with
  | none =>
    cases done
    exact ⟨chunks, by simpa using laid⟩
  | some item => exact laid.put done

private theorem consume_spec {b' : Builder} :
    ∀ {lineNumber : Nat} {texts : List Text} {g : Group} {b : Builder}
      {table : List (Text × Nat)} {chunks : List Chunk} {done : List Row},
      Laid b table chunks → Grouped casefold (table ++ g.pair.toList) done →
      (g.current = none → table = []) → consume casefold g b lineNumber texts = .ok b' →
      ∃ found table' chunks', rows lineNumber texts = .ok found ∧ Laid b' table' chunks' ∧
        Grouped casefold table' (done ++ found) := by
  intro lineNumber texts
  induction texts generalizing lineNumber with
  | nil =>
    intro g b table chunks done laid grouped _ consumed
    obtain ⟨chunks', laid'⟩ := laid.putYielded consumed
    exact ⟨[], _, chunks', rfl, laid', by simpa using grouped⟩
  | cons line rest ih =>
    intro g b table chunks done laid grouped first consumed
    simp only [consume, bind_eq_ok] at consumed
    obtain ⟨⟨g₁, yielded⟩, fed, b₁, put, consumed⟩ := consumed
    obtain ⟨r, read, opened, grouped₁⟩ := grouped.feed first fed
    obtain ⟨chunks₁, laid₁⟩ := laid.putYielded put
    obtain ⟨found, table', chunks', others, laid', grouped'⟩ :=
      ih laid₁ grouped₁ (fun none => absurd none opened) consumed
    refine ⟨r :: found, table', chunks', ?_, laid', by simpa using grouped'⟩
    simp [rows, read, others]

/-- A line of the table can be written: the key has its bytes, and both numbers fit. -/
def Writable (block : Text × Nat) : Prop :=
  ∃ raw, encodeText block.1 = .ok raw ∧ raw.length ≤ 0xFFFF ∧ block.2 < 256 ^ 8

private theorem fits_block {offset length : Nat} (low : offset < 256 ^ 8)
    (short : length ≤ 0xFFFF) : Fits blockFields ((offset : Int), (length : Int), ()) := by
  refine ⟨⟨?_, ?_⟩, ⟨?_, ?_⟩, trivial⟩ <;> simp only <;> omega

private theorem readBlock_of_unpack {file : Bytes} {cursor offset length : Nat}
    (read : unpackFrom blockFields file cursor = some ((offset : Int), (length : Int), ())) :
    readBlock file cursor = .ok (offset, length) := by
  rw [readBlock, read]
  rfl

private theorem table_spec (blocks : List (Text × Nat))
    (writable : ∀ block ∈ blocks, Writable block) :
    ∃ image, tableBytes blocks = .ok image.length ∧
      (∀ later, writeAll (blocks.flatMap blockWrites ++ later) =
        (image ++ (writeAll later).1, (writeAll later).2)) ∧
      ∀ (before after : Bytes) (dataStart : Nat),
        readTable (before ++ (image ++ after)) dataStart blocks.length before.length =
          .ok (blocks.map Prod.fst, blocks.map fun block => dataStart + block.2,
            before.length + image.length) := by
  induction blocks with
  | nil =>
    refine ⟨[], rfl, fun later => rfl, fun before after dataStart => ?_⟩
    simp [readTable]
  | cons block rest ih =>
    obtain ⟨raw, encoded, short, low⟩ := writable block List.mem_cons_self
    obtain ⟨image, sized, written, read⟩ := ih fun other member =>
      writable other (List.mem_cons_of_mem _ member)
    have fits := fits_block low short
    obtain ⟨fields, packed⟩ := pack_of_fits fits
    have packed' : structPack blockFields ((block.2 : Int), (raw.length : Int), ()) = .ok fields :=
      structPack_eq_ok.mpr packed
    have fieldsLength : fields.length = size blockFields := length_of_structPack packed'
    refine ⟨fields ++ raw ++ image, ?_, fun later => ?_, fun before after dataStart => ?_⟩
    · simp only [tableBytes, bind_eq_ok, pure_eq_ok] at sized
      obtain ⟨keys, keysEncoded, total⟩ := sized
      simp only [tableBytes, List.mapM_cons, encoded, keysEncoded, ok_bind, pure_bind,
        pure_eq_ok, List.map_cons, List.sum_cons, List.length_append, fieldsLength, total]
    · have both : blockWrites block = [.ok fields, .ok raw] := by
        rw [blockWrites, encoded, ok_bind, packed']
      rw [List.flatMap_cons, both, List.append_assoc, List.cons_append, List.cons_append,
        List.nil_append, writeAll, writeAll, written, List.append_assoc, List.append_assoc]
    · have head : readBlock (before ++ (fields ++ raw ++ image ++ after)) before.length =
          .ok (block.2, raw.length) := by
        have read := unpackFrom_pack_append fits packed before (raw ++ (image ++ after))
        simpa only [List.append_assoc] using readBlock_of_unpack read
      have key : slice (before ++ (fields ++ raw ++ image ++ after))
          (before.length + size blockFields)
          (before.length + size blockFields + raw.length) = raw := by
        have there := slice_append (before ++ fields) raw (image ++ after)
        rw [List.length_append, fieldsLength] at there
        simpa only [List.append_assoc] using there
      have later := read (before ++ fields ++ raw) after dataStart
      simp only [List.length_append, fieldsLength, List.append_assoc, Nat.add_assoc] at later
      simp only [List.append_assoc, Nat.add_assoc] at head key
      simp only [readTable, List.length_cons, List.append_assoc, head, ok_bind, key,
        decodeText_of_encodeText encoded, later, List.map_cons, List.length_append, fieldsLength,
        Nat.add_assoc]
      rfl

theorem map_fst_starts (offset : Nat) (chunks : List Chunk) :
    (starts offset chunks).map Prod.fst = chunks.map Chunk.key := by
  induction chunks generalizing offset with
  | nil => rfl
  | cons chunk rest ih => simp [starts, ih]

theorem map_add_starts (dataStart offset : Nat) (chunks : List Chunk) :
    ((starts offset chunks).map fun block => dataStart + block.2) =
      (starts (dataStart + offset) chunks).map Prod.snd := by
  induction chunks generalizing offset with
  | nil => rfl
  | cons chunk rest ih => simp [starts, ih, Nat.add_assoc]

private theorem heads_of_filled (filled : ∀ chunk ∈ chunks, chunk.1 ≠ []) :
    Heads (chunks.map Chunk.key) (chunks.map Prod.fst) := by
  induction chunks with
  | nil => exact List.Forall₂.nil
  | cons chunk rest ih =>
    refine List.Forall₂.cons ?_ (ih fun other member =>
      filled other (List.mem_cons_of_mem _ member))
    obtain ⟨items, bytes⟩ := chunk
    cases items with
    | nil => exact absurd rfl (filled ([], bytes) List.mem_cons_self)
    | cons item items => exact ⟨item.2, items, rfl⟩

private theorem Laid.writable (laid : Laid b table chunks) (few : b.blocks.length < 256 ^ 4) :
    ∀ block ∈ b.blocks, Writable block := by
  intro block member
  rw [laid.blocks_eq] at member few
  have key : block.1 ∈ chunks.map Chunk.key := by
    rw [← map_fst_starts 0]
    exact List.mem_map_of_mem member
  obtain ⟨⟨items, bytes⟩, there, same⟩ := List.mem_map.mp key
  have low := le_of_mem_starts member
  rw [Nat.zero_add, ← laid.data_eq] at low
  have narrow := laid.narrow
  have capacity := laid.capacity
  have sizes : size entryFields = 6 := rfl
  rw [length_starts] at few
  rw [sizes] at narrow
  simp only [blockSize] at capacity
  cases items with
  | nil => exact absurd rfl (laid.filled _ there)
  | cons item items =>
    have encoded := laid.encoded _ there
    simp only [encodeEntries, bind_eq_ok] at encoded
    obtain ⟨entry, written, -⟩ := encoded
    obtain ⟨suffix, fields, whole, short, -⟩ := entryBytes_eq_ok.mp written
    have keyed : item.1 = block.1 := same
    have nothing : shared 0xFFFF [] item.1 = 0 := rfl
    rw [nothing, List.drop_zero, keyed] at whole
    exact ⟨suffix, whole, short, by omega⟩

private theorem header_spec (b : Builder) (sourceSha : Bytes) (table : Nat)
    (sha : sourceSha.length = 32) {header : Bytes}
    (packed : structPack headerFields (magic, (version : Int), (blockSize : Int),
      (b.blocks.length : Int), (b.entryCount : Int), sourceSha, (table : Int), ()) = .ok header) :
    header.length = size headerFields ∧ b.blocks.length < 256 ^ 4 ∧
      ∀ rest, readHeader (header ++ rest) =
        .ok ⟨magic, version, blockSize, b.blocks.length, b.entryCount, sourceSha, table⟩ := by
  have exact : Lib.Struct.Exact headerFields (magic, (version : Int), (blockSize : Int),
      (b.blocks.length : Int), (b.entryCount : Int), sourceSha, (table : Int), ()) :=
    ⟨rfl, sha, trivial⟩
  have fits := Engine.fits_of_structPack packed exact
  refine ⟨length_of_structPack packed, ?_, fun rest => ?_⟩
  · have few : ((b.blocks.length : Nat) : Int) < 256 ^ 4 := fits.2.2.2.1.2
    omega
  · have read := unpackFrom_pack_append fits (structPack_eq_ok.mp packed) [] rest
    rw [List.nil_append, List.length_nil] at read
    rw [readHeader, read]
    rfl

/-- A file that holds what a builder laid down. -/
structure Stored (sourceSha : Bytes) (b : Builder) (file header image : Bytes) : Prop where
  file_eq : file = header ++ (image ++ b.data)
  header_length : header.length = size headerFields
  header_read : readHeader file =
    .ok ⟨magic, version, blockSize, b.blocks.length, b.entryCount, sourceSha, image.length⟩
  table_read : ∀ dataStart, readTable file dataStart b.blocks.length header.length =
    .ok (b.blocks.map Prod.fst, b.blocks.map fun block => dataStart + block.2,
      header.length + image.length)

/-- Where the output is opened, either the header cannot be packed and nothing is written, or the
file holds everything. -/
private theorem written_spec (laid : Laid b table chunks) {sourceSha : Bytes}
    (sha : sourceSha.length = 32) {bytes : Nat} (sized : tableBytes b.blocks = .ok bytes) :
    (∃ e, writeAll (writes b sourceSha bytes) = ([], .error e)) ∨
      ∃ file header image, writeAll (writes b sourceSha bytes) = (file, .ok ()) ∧
        Stored sourceSha b file header image := by
  cases packed : structPack headerFields (magic, (version : Int), (blockSize : Int),
      (b.blocks.length : Int), (b.entryCount : Int), sourceSha, (bytes : Int), ()) with
  | error e =>
    left
    exact ⟨e, by rw [writes, packed, List.cons_append, writeAll]⟩
  | ok header =>
    right
    obtain ⟨length, few, read⟩ := header_spec b sourceSha bytes sha packed
    obtain ⟨image, sized', written, back⟩ := table_spec b.blocks (laid.writable few)
    rw [sized] at sized'
    cases sized'
    refine ⟨header ++ (image ++ b.data), header, image, ?_, rfl, length, read _, back header b.data⟩
    rw [writes, packed, List.cons_append, writeAll, written]
    simp [writeAll]

def Expected (c : Crypto) (tsv : Bytes) (expected : Option String) : Prop :=
  ∀ digest ∈ expected, digest = "" ∨ digest = hexText (c.sha256 tsv)

private theorem make_stored (c : Crypto) {tsv file header image : Bytes}
    (laid : Laid b table chunks) (stored : Stored (c.sha256 tsv) b file header image)
    {expected : Option String} (allowed : Expected c tsv expected) :
    CompactPortiLexicon.make c file expected =
      .ok ⟨file, b.entryCount, hexText (c.sha256 file), hexText (c.sha256 tsv),
        chunks.map Chunk.key, (starts (header.length + image.length) chunks).map Prod.snd⟩ := by
  have long : header.length ≤ file.length := by
    rw [stored.file_eq, List.length_append]
    exact Nat.le_add_right _ _
  have nonempty : file ≠ [] := by
    rintro rfl
    rw [stored.header_length] at long
    exact absurd long (by decide)
  have offsets : (b.blocks.map fun block => header.length + image.length + block.2) =
      (starts (header.length + image.length) chunks).map Prod.snd := by
    rw [laid.blocks_eq, map_add_starts, Nat.add_zero]
  have keys : b.blocks.map Prod.fst = chunks.map Chunk.key := by
    rw [laid.blocks_eq, map_fst_starts]
  have sorted := (pairwise_starts (header.length + image.length) chunks).1
  have inOrder : (starts (header.length + image.length) chunks).map Prod.snd =
      ((starts (header.length + image.length) chunks).map Prod.snd).insertionSort (· ≤ ·) :=
    (List.Pairwise.insertionSort_eq sorted).symm
  have read := stored.table_read (header.length + image.length)
  rw [keys, offsets] at read
  have known : ∀ digest ∈ expected, ¬ (digest ≠ "" ∧ hexText (c.sha256 tsv) ≠ digest) :=
    fun digest asked both => (allowed digest asked).elim both.1 fun same => both.2 same.symm
  have found : ¬ (header.length + image.length ≠ header.length + image.length ∨
      (starts (header.length + image.length) chunks).map Prod.snd ≠
        ((starts (header.length + image.length) chunks).map Prod.snd).insertionSort (· ≤ ·)) :=
    fun either => either.elim (fun moved => moved rfl) fun unsorted => unsorted inOrder
  have same : ¬ (magic ≠ magic ∨ version ≠ version ∨ blockSize ≠ blockSize) :=
    fun either => either.elim (· rfl) fun others => others.elim (· rfl) (· rfl)
  simp only [CompactPortiLexicon.make, ← stored.header_length, require_of nonempty,
    require_of (Nat.not_lt.mpr long), ok_bind, stored.header_read, require_of same,
    require_of known, read, require_of found]
  rfl

private theorem lookupMask_stored (c : Crypto) {tsv file header image : Bytes}
    (laid : Laid b table chunks) (stored : Stored (c.sha256 tsv) b file header image)
    (increasing : Increasing table) {lexicon : CompactPortiLexicon} (sameFile : lexicon.file = file)
    (sameKeys : lexicon.keys = chunks.map Chunk.key)
    (sameOffsets : lexicon.offsets = (starts (header.length + image.length) chunks).map Prod.snd)
    (query : Text) :
    lexicon.lookupMask casefold query = .ok ((seek (casefold query) table).getD 0) := by
  have heads := heads_of_filled laid.filled
  have ordered : Increasing (chunks.map Prod.fst).flatten := by
    rw [laid.table_eq]
    exact increasing
  have sorted := (pairwise_heads heads ordered).imp fun below => le_of_lt below
  have whole : file.length = header.length + image.length + (dataOf chunks).length := by
    rw [stored.file_eq, laid.data_eq, List.length_append, List.length_append, Nat.add_assoc]
  rw [CompactPortiLexicon.lookupMask, sameKeys, sameOffsets, sameFile, bisectRight_eq sorted]
  cases position : rank (chunks.map Chunk.key) (casefold query) with
  | zero =>
    have absent : seek (casefold query) table = none := by
      rw [← laid.table_eq, seek_eq_none_iff ordered]
      exact notMem_of_rank_eq_zero heads ordered position
    rw [absent]
    rfl
  | succ i =>
    have inside : i < chunks.length := by
      have bound := Lib.rank_le_length (chunks.map Chunk.key) (casefold query)
      rw [position, List.length_map] at bound
      exact bound
    have there : chunks[i]? = some chunks[i] := List.getElem?_eq_getElem inside
    have block : (chunks.map Prod.fst)[i]? = some chunks[i].1 := by
      rw [List.getElem?_map, there]
      rfl
    have same : seek (casefold query) table = seek (casefold query) chunks[i].1 := by
      have part : Increasing chunks[i].1 :=
        (List.pairwise_flatten.mp ordered).1 _ (List.mem_of_getElem? block)
      rw [← laid.table_eq]
      refine Option.ext fun value => ?_
      rw [seek_eq_some_iff ordered, seek_eq_some_iff part]
      exact mem_flatten_iff_of_rank heads ordered position block value
    have begins : ((starts (header.length + image.length) chunks).map Prod.snd).getD i 0 =
        header.length + image.length + (dataOf (chunks.take i)).length := by
      rw [← getD_starts, List.getD_eq_getElem?_getD, List.getD_eq_getElem?_getD,
        List.getElem?_eq_getElem (by simpa using inside), Option.getD_some, Option.getD_some]
    have ends : ((starts (header.length + image.length) chunks).map Prod.snd).getD (i + 1)
        file.length = header.length + image.length + (dataOf (chunks.take i)).length +
          chunks[i].2.length := by
      rw [whole, getD_starts, List.take_succ_eq_append_getElem inside, dataOf_append, dataOf_cons,
        dataOf_nil, List.append_nil, List.length_append, ← Nat.add_assoc]
    have split : file = (header ++ image ++ dataOf (chunks.take i)) ++
        (chunks[i].2 ++ dataOf (chunks.drop (i + 1))) := by
      have parts : chunks = chunks.take i ++ chunks[i] :: chunks.drop (i + 1) := by
        rw [← List.drop_eq_getElem_cons inside, List.take_append_drop]
      have cut : dataOf chunks =
          dataOf (chunks.take i) ++ (chunks[i].2 ++ dataOf (chunks.drop (i + 1))) := by
        rw [← dataOf_cons, ← dataOf_append, ← parts]
      rw [stored.file_eq, laid.data_eq, cut]
      simp only [List.append_assoc]
    have found := walk_block (casefold query) (dataOf (chunks.drop (i + 1)))
      (header ++ image ++ dataOf (chunks.take i)) (laid.encoded _ (List.mem_of_getElem? there))
      (Nat.le_refl _)
    rw [← split, List.length_append, List.length_append] at found
    simp only [begins, ends, Nat.add_sub_cancel_left, same]
    exact found

private theorem build_of_error (c : Crypto) {tsv : Bytes} {e : PyError}
    (failed : prepare casefold tsv = .error e) :
    buildCompactPortilexicon c casefold tsv = ⟨none, .error e⟩ := by
  rw [buildCompactPortilexicon, failed]

private theorem build_of_prepared (c : Crypto) {tsv : Bytes} {table : Nat}
    (prepared : prepare casefold tsv = .ok (b, table)) {file : Bytes} {ended : Except PyError Unit}
    (written : writeAll (writes b (c.sha256 tsv) table) = (file, ended)) :
    buildCompactPortilexicon c casefold tsv = ⟨some file, do
      ended
      pure ⟨b.entryCount, b.blocks.length, b.data.length, file.length, hexText (c.sha256 tsv),
        hexText (c.sha256 file)⟩⟩ := by
  rw [buildCompactPortilexicon, prepared]
  simp only [written]

/-- A call of the builder fails before it opens the output, or fails with nothing written, or stores
the groups of the rows. -/
private theorem build_cases (c : Crypto) (casefold : Text → Text) (tsv : Bytes) :
    (∃ e, buildCompactPortilexicon c casefold tsv = ⟨none, .error e⟩) ∨
      (∃ e, buildCompactPortilexicon c casefold tsv = ⟨some [], .error e⟩) ∨
      ∃ file report text found b table chunks header image,
        buildCompactPortilexicon c casefold tsv = ⟨some file, .ok report⟩ ∧
        decodeText tsv = .ok text ∧ rows 1 (lines [] text) = .ok found ∧ Laid b table chunks ∧
        Grouped casefold table found ∧ Stored (c.sha256 tsv) b file header image := by
  cases prepared : prepare casefold tsv with
  | error e => exact .inl ⟨e, build_of_error c prepared⟩
  | ok result =>
    right
    obtain ⟨b, bytes⟩ := result
    have steps := prepared
    simp only [prepare, bind_eq_ok, pure_eq_ok, Prod.mk.injEq] at steps
    obtain ⟨text, decoded, b', consumed, bytes', sized, rfl, rfl⟩ := steps
    have fresh : Grouped casefold ([] ++ (Group.pair ⟨none, 0⟩).toList) [] :=
      ⟨List.Pairwise.nil, List.forall_mem_nil _, List.forall_mem_nil _⟩
    obtain ⟨found, table, chunks, parsed, laid, grouped⟩ :=
      consume_spec laid_empty fresh (fun _ => rfl) consumed
    rw [List.nil_append] at grouped
    rcases written_spec laid (c.sha256_length tsv) sized with ⟨e, failed⟩ |
      ⟨file, header, image, written, stored⟩
    · exact .inl ⟨e, build_of_prepared c prepared failed⟩
    · exact .inr ⟨file, _, text, found, b', table, chunks, header, image,
        build_of_prepared c prepared written, decoded, parsed, laid, grouped, stored⟩

private theorem Grouped.seek_eq {found : List Row} (grouped : Grouped casefold table found)
    (surface : Text) : (seek surface table).getD 0 = unionMask (rowsOf casefold found surface) := by
  cases listed : seek surface table with
  | some union =>
    exact grouped.union _ ((seek_eq_some_iff grouped.increasing).mp listed)
  | none =>
    have absent : rowsOf casefold found surface = [] := by
      rw [rowsOf, List.filter_eq_nil_iff]
      intro r member same
      obtain ⟨union, there⟩ := grouped.complete r member
      rw [of_decide_eq_true same] at there
      exact (seek_eq_none_iff grouped.increasing).mp listed union there
    rw [absent]
    rfl

/-- For every table the builder accepts, the reader opens the file it writes and answers each query
with the union of the masks of the rows that match it, with `0` where none does; and a call that
opens the output and fails has written nothing to it. -/
theorem compact_lexicon_answers (c : Crypto) (casefold : Text → Text) (tsv : Bytes) :
    (∀ report, (buildCompactPortilexicon c casefold tsv).result = .ok report →
      ∃ file text found,
        (buildCompactPortilexicon c casefold tsv).written = some file ∧
        decodeText tsv = .ok text ∧ rows 1 (lines [] text) = .ok found ∧
        ∀ expected, Expected c tsv expected →
          ∃ lexicon, CompactPortiLexicon.make c file expected = .ok lexicon ∧
            ∀ query,
              lexicon.lookupMask casefold query =
                .ok (unionMask (rowsOf casefold found (casefold query))) ∧
              ((∀ r ∈ found, casefold r.surface ≠ casefold query) →
                lexicon.lookupMask casefold query = .ok 0)) ∧
    ∀ file, (buildCompactPortilexicon c casefold tsv).written = some file →
      (file = [] ∧ ∃ e, (buildCompactPortilexicon c casefold tsv).result = .error e) ∨
        ∃ lexicon, CompactPortiLexicon.make c file none = .ok lexicon := by
  rcases build_cases c casefold tsv with ⟨e, failed⟩ | ⟨e, failed⟩ |
    ⟨stored_file, report, text, found, b, table, chunks, header, image, built, decoded, parsed,
      laid, grouped, stored⟩
  · rw [failed]
    exact ⟨nofun, nofun⟩
  · rw [failed]
    refine ⟨nofun, fun file written => ?_⟩
    cases written
    exact .inl ⟨rfl, e, rfl⟩
  · rw [built]
    constructor
    · intro _ _
      refine ⟨stored_file, text, found, rfl, decoded, parsed, fun expected allowed =>
        ⟨_, make_stored c laid stored allowed, fun query => ?_⟩⟩
      have answer : (CompactPortiLexicon.mk stored_file b.entryCount (hexText (c.sha256 stored_file))
          (hexText (c.sha256 tsv)) (chunks.map Chunk.key)
          ((starts (header.length + image.length) chunks).map Prod.snd)).lookupMask casefold query =
            _ :=
        lookupMask_stored c laid stored grouped.increasing rfl rfl rfl query
      rw [grouped.seek_eq] at answer
      refine ⟨answer, fun absent => ?_⟩
      have nothing : rowsOf casefold found (casefold query) = [] := by
        rw [rowsOf, List.filter_eq_nil_iff]
        exact fun r member same => absent r member (of_decide_eq_true same)
      rw [answer, nothing]
      rfl
    · intro file written
      cases written
      exact .inr ⟨_, make_stored c laid stored nofun⟩

def houseTable : Bytes := ascii "Casa\tcasa\tNOUN\t_\ncasa\tcasar\tVERB\tMood=Ind\n"

def lowercase (text : Text) : Text := text.map fun c => if 65 ≤ c ∧ c ≤ 90 then c + 32 else c

private theorem houseTable_prepared : prepare lowercase houseTable =
    .ok (⟨[(literal "casa", 0)], 1, [0, 0, 4, 0, 12, 0, 99, 97, 115, 97], literal "casa"⟩, 14) := by
  decide

private theorem houseTable_decoded : decodeText houseTable = .ok (houseTable.map UInt8.toNat) := by
  decide

private theorem houseTable_rows : rows 1 (lines [] (houseTable.map UInt8.toNat)) =
    .ok [⟨literal "Casa", literal "NOUN", literal "_"⟩,
      ⟨literal "casa", literal "VERB", literal "Mood=Ind"⟩] := by
  decide

private theorem houseTable_accepted : ∃ report,
    (buildCompactPortilexicon Engine.stdCrypto lowercase houseTable).result = .ok report := by
  obtain ⟨header, packed⟩ := Engine.structPack_of_fits headerFields
    (magic, (version : Int), (blockSize : Int), 1, 1, Engine.stdCrypto.sha256 houseTable, 14, ())
    ⟨rfl, by decide, by decide, by decide, by decide,
      Engine.stdCrypto.sha256_length houseTable, by decide, trivial⟩
  have written : ∃ file, writeAll (writes ⟨[(literal "casa", 0)], 1,
      [0, 0, 4, 0, 12, 0, 99, 97, 115, 97], literal "casa"⟩
      (Engine.stdCrypto.sha256 houseTable) 14) = (file, .ok ()) := by
    have later : (writeAll ([(literal "casa", 0)].flatMap blockWrites ++
        [.ok [0, 0, 4, 0, 12, 0, 99, 97, 115, 97]])).2 = .ok () := by
      decide
    refine ⟨header ++ (writeAll ([(literal "casa", 0)].flatMap blockWrites ++
        [.ok [0, 0, 4, 0, 12, 0, 99, 97, 115, 97]])).1, ?_⟩
    rw [writes, List.cons_append]
    simp only [List.length_singleton, Nat.cast_one, Nat.cast_ofNat, packed, writeAll]
    rw [later]
  obtain ⟨file, written⟩ := written
  exact ⟨_, congrArg Build.result (build_of_prepared _ houseTable_prepared written)⟩

theorem compact_lexicon_answers_house : ∃ file lexicon,
    (buildCompactPortilexicon Engine.stdCrypto lowercase houseTable).written = some file ∧
    CompactPortiLexicon.make Engine.stdCrypto file none = .ok lexicon ∧
    lexicon.lookupMask lowercase (literal "CASA") = .ok 12 ∧
    lexicon.lookupMask lowercase (literal "caso") = .ok 0 := by
  obtain ⟨report, accepted⟩ := houseTable_accepted
  obtain ⟨file, text, found, written, decoded, parsed, opens⟩ :=
    (compact_lexicon_answers Engine.stdCrypto lowercase houseTable).1 report accepted
  obtain ⟨lexicon, opened, answers⟩ := opens none nofun
  rw [houseTable_decoded] at decoded
  cases decoded
  rw [houseTable_rows] at parsed
  cases parsed
  refine ⟨file, lexicon, written, opened, ?_, ?_⟩
  · rw [(answers (literal "CASA")).1]
    decide +kernel
  · exact (answers (literal "caso")).2 (by decide +kernel)

end ProofRay.Lexicon
