/- Values that a style writes as they are spelled. Two styles write such a value alike. -/

import Mathlib.Order.Lattice
import ProofRay.Lib.Guard
import ProofRay.Lib.SpelledReading

namespace ProofRay.Lib

open Guard
open Option (bind_eq_bind bind_eq_some_iff getD_some map_eq_some_iff map_some pure_def)

namespace Spelled

variable {s : Style}

/-- What holds of a list when it holds of its items, and of an object when it holds of the values
of its fields, holds of every value. -/
theorem by_parts {P : Spelled → Prop} (null : P .null) (bool : ∀ b, P (.bool b))
    (number : ∀ l, P (.number l)) (str : ∀ t, P (.str t))
    (arr : ∀ items, (∀ v ∈ items, P v) → P (.arr items))
    (obj : ∀ fields : List (Text × Spelled), (∀ p ∈ fields, P p.2) → P (.obj fields))
    (v : Spelled) : P v :=
  @Spelled.rec P (fun items => ∀ v ∈ items, P v) (fun fields => ∀ p ∈ fields, P p.2)
    (fun p => P p.2)
    null bool number str arr obj nofun
    (fun _ _ first later => List.forall_mem_cons.mpr ⟨first, later⟩) nofun
    (fun _ _ first later => List.forall_mem_cons.mpr ⟨first, later⟩) (fun _ _ inside => inside) v

def Style.writeField (s : Style) (p : Text × Spelled) : Option (Text × List Char) := do
  let key ← s.quote p.1
  let text ← s.write p.2
  return (p.1, key ++ ':' :: text)

theorem Style.writeItems_eq (items : List Spelled) : s.writeItems items = items.mapM s.write := by
  induction items with
  | nil => rfl
  | cons v rest ih => simp [Style.writeItems, ih]

theorem Style.writeFields_eq (fields : List (Text × Spelled)) :
    s.writeFields fields = fields.mapM s.writeField := by
  induction fields with
  | nil => rfl
  | cons p rest ih =>
    obtain ⟨k, v⟩ := p
    simp [Style.writeFields, Style.writeField, ih, Option.bind_assoc]

theorem Style.settledItems_eq (items : List Spelled) :
    s.settledItems items = items.map s.settled := by
  induction items with
  | nil => rfl
  | cons v rest ih => simp [Style.settledItems, ih]

theorem Style.settledFields_eq (fields : List (Text × Spelled)) :
    s.settledFields fields = fields.map fun p => (p.1, s.settled p.2) := by
  induction fields with
  | nil => rfl
  | cons p rest ih =>
    obtain ⟨k, v⟩ := p
    simp [Style.settledFields, ih]

theorem fineItems_iff (items : List Spelled) : FineItems items ↔ ∀ v ∈ items, v.Fine := by
  induction items with
  | nil => simp [FineItems]
  | cons v rest ih => simp [FineItems, ih]

theorem fineFields_iff (fields : List (Text × Spelled)) :
    FineFields fields ↔ ∀ p ∈ fields, Plain p.1 ∧ p.2.Fine := by
  induction fields with
  | nil => simp [FineFields]
  | cons p rest ih =>
    obtain ⟨k, v⟩ := p
    rw [FineFields, ih, List.forall_mem_cons, and_assoc]

mutual

/-- Literals are as the style writes them, texts are plain, and the keys of an object are different
and in order. -/
def Settled (s : Style) : Spelled → Prop
  | .null => True
  | .bool _ => True
  | .number l => s.number l = some l
  | .str t => Plain t
  | .arr items => SettledItems s items
  | .obj fields => (fields.map Prod.fst).Nodup ∧
      (fields.Pairwise fun a b => s.key a.1 ≤ s.key b.1) ∧ SettledFields s fields

def SettledItems (s : Style) : List Spelled → Prop
  | [] => True
  | v :: rest => Settled s v ∧ SettledItems s rest

def SettledFields (s : Style) : List (Text × Spelled) → Prop
  | [] => True
  | (k, v) :: rest => Plain k ∧ Settled s v ∧ SettledFields s rest

end

theorem settledItems_iff (items : List Spelled) :
    SettledItems s items ↔ ∀ v ∈ items, Settled s v := by
  induction items with
  | nil => simp [SettledItems]
  | cons v rest ih => simp [SettledItems, ih]

theorem settledFields_iff (fields : List (Text × Spelled)) :
    SettledFields s fields ↔ ∀ p ∈ fields, Plain p.1 ∧ Settled s p.2 := by
  induction fields with
  | nil => simp [SettledFields]
  | cons p rest ih =>
    obtain ⟨k, v⟩ := p
    rw [SettledFields, ih, List.forall_mem_cons, and_assoc]

variable {text : List Char} {v : Spelled}

theorem Settled.fine : Settled s v → v.Fine := by
  induction v using by_parts with
  | null => exact id
  | bool b => exact id
  | number l => exact fun _ => trivial
  | str t => exact id
  | arr items ih =>
    intro settled
    exact (fineItems_iff items).mpr fun v member =>
      ih v member ((settledItems_iff items).mp settled v member)
  | obj fields ih =>
    rintro ⟨once, -, inside⟩
    refine ⟨once, (fineFields_iff fields).mpr fun p member => ?_⟩
    have both := (settledFields_iff fields).mp inside p member
    exact ⟨both.1, ih p member both.2⟩

theorem Style.perm_ordered {α : Type} (l : List (Text × α)) : (s.ordered l).Perm l :=
  List.perm_insertionSort _ l

theorem Style.pairwise_ordered {α : Type} (l : List (Text × α)) :
    (s.ordered l).Pairwise fun a b => s.key a.1 ≤ s.key b.1 :=
  List.pairwise_insertionSort (fun a b : Text × α => s.key a.1 ≤ s.key b.1) l

theorem Style.ordered_of_pairwise {α : Type} {l : List (Text × α)}
    (sorted : l.Pairwise fun a b => s.key a.1 ≤ s.key b.1) : s.ordered l = l :=
  sorted.insertionSort_eq

private theorem map_eq_self {α : Type} {f : α → α} {l : List α} :
    l.map f = l ↔ ∀ a ∈ l, f a = a := by
  induction l with
  | nil => simp
  | cons a l ih => simp [ih]

theorem Settled.settled : Settled s v → s.settled v = v := by
  induction v using by_parts with
  | null => exact fun _ => rfl
  | bool b => exact fun _ => rfl
  | number l =>
    intro same
    have written : s.number l = some l := same
    rw [Style.settled, written, getD_some]
  | str t => exact fun _ => rfl
  | arr items ih =>
    intro inside
    rw [Style.settled, Style.settledItems_eq, map_eq_self.mpr fun v member =>
      ih v member ((settledItems_iff items).mp inside v member)]
  | obj fields ih =>
    rintro ⟨-, sorted, inside⟩
    have same : s.settledFields fields = fields := by
      rw [Style.settledFields_eq]
      refine map_eq_self.mpr fun p member => ?_
      rw [ih p member ((settledFields_iff fields).mp inside p member).2]
    rw [Style.settled, same, Style.ordered_of_pairwise sorted]

variable {fields : List (Text × Spelled)}

private theorem keys_of_mapM {texts : List (Text × List Char)}
    (all : fields.mapM s.writeField = some texts) : texts.map Prod.fst = fields.map Prod.fst := by
  induction fields generalizing texts with
  | nil =>
    cases all
    rfl
  | cons p rest ih =>
    simp only [List.mapM_cons, bind_eq_bind, bind_eq_some_iff, pure_def, Option.some.injEq] at all
    obtain ⟨field, first, later, others, rfl⟩ := all
    simp only [Style.writeField, bind_eq_bind, bind_eq_some_iff, pure_def,
      Option.some.injEq] at first
    obtain ⟨key, -, text, -, rfl⟩ := first
    rw [List.map_cons, List.map_cons, ih others]

theorem Settled.write_eq {t : Style} (lawful : s.Lawful) (lawful' : t.Lawful) :
    Settled s v → Settled t v → s.write v = t.write v := by
  induction v using by_parts with
  | null => exact fun _ _ => rfl
  | bool b => cases b <;> exact fun _ _ => rfl
  | number l =>
    intro same same'
    exact (show s.number l = some l from same).trans (show t.number l = some l from same').symm
  | str u =>
    intro plain _
    obtain ⟨u, rfl⟩ := Plain.exists_ofString plain
    exact (lawful.quote_ofString u).trans (lawful'.quote_ofString u).symm
  | arr items ih =>
    intro inside inside'
    rw [Style.write, Style.write, Style.writeItems_eq, Style.writeItems_eq,
      mapM_congr fun v member => ih v member ((settledItems_iff items).mp inside v member)
        ((settledItems_iff items).mp inside' v member)]
  | obj fields ih =>
    intro settled settled'
    have each : ∀ p ∈ fields, s.writeField p = t.writeField p := by
      intro p member
      have both := (settledFields_iff fields).mp settled.2.2 p member
      have same := ih p member both.2 ((settledFields_iff fields).mp settled'.2.2 p member).2
      obtain ⟨u, key⟩ := Plain.exists_ofString both.1
      rw [Style.writeField, Style.writeField, same, key, lawful.quote_ofString,
        lawful'.quote_ofString]
    rw [Style.write, Style.write, Style.writeFields_eq, Style.writeFields_eq, ← mapM_congr each]
    cases all : fields.mapM s.writeField with
    | none => rfl
    | some texts =>
      have sorted {r : Style} (settled : Settled r (.obj fields)) :
          texts.Pairwise fun a b => r.key a.1 ≤ r.key b.1 := by
        have keys : (fields.map Prod.fst).Pairwise fun j k => r.key j ≤ r.key k :=
          List.pairwise_map.mpr settled.2.1
        rw [← keys_of_mapM all, List.pairwise_map] at keys
        exact keys
      rw [map_some, map_some, Style.ordered_of_pairwise (sorted settled),
        Style.ordered_of_pairwise (sorted settled')]

theorem settled_of_write (fine : v.Fine) (written : s.write v = some text) :
    s.settled v = v → Settled s v := by
  induction v using by_parts generalizing text with
  | null => exact fun _ => trivial
  | bool b => exact fun _ => trivial
  | number l =>
    intro same
    have spelled : s.number l = some text := written
    rw [Style.settled, spelled, getD_some] at same
    cases same
    exact spelled
  | str t => exact fun _ => fine
  | arr items ih =>
    intro same
    rw [Style.settled, Style.settledItems_eq, arr.injEq] at same
    rw [Style.write, Style.writeItems_eq, map_eq_some_iff] at written
    obtain ⟨texts, all, -⟩ := written
    refine (settledItems_iff items).mpr fun v member => ?_
    obtain ⟨text, there⟩ := isSome_of_mapM all member
    exact ih v member ((fineItems_iff items).mp fine v member) there (map_eq_self.mp same v member)
  | obj fields ih =>
    intro same
    rw [Style.settled, Style.settledFields_eq, obj.injEq] at same
    rw [Style.write, Style.writeFields_eq, map_eq_some_iff] at written
    obtain ⟨texts, all, -⟩ := written
    have sorted : fields.Pairwise fun a b => s.key a.1 ≤ s.key b.1 := by
      rw [← same]
      exact Style.pairwise_ordered _
    refine ⟨fine.1, sorted, (settledFields_iff fields).mpr fun p member => ?_⟩
    have both := (fineFields_iff fields).mp fine.2 p member
    have there : (p.1, s.settled p.2) ∈ fields := by
      rw [← same]
      exact (Style.perm_ordered _).mem_iff.mpr (List.mem_map_of_mem member)
    have value : s.settled p.2 = p.2 :=
      congrArg Prod.snd (List.inj_on_of_nodup_map fine.1 there member rfl)
    obtain ⟨field, written⟩ := isSome_of_mapM all member
    simp only [Style.writeField, bind_eq_bind, bind_eq_some_iff] at written
    obtain ⟨_, -, text, inside, -⟩ := written
    exact ⟨both.1, ih p member both.2 inside value⟩

theorem Style.write_of_field (written : s.write (.obj fields) = some text) {p : Text × Spelled}
    (member : p ∈ fields) : ∃ text', s.write p.2 = some text' := by
  rw [Style.write, Style.writeFields_eq, map_eq_some_iff] at written
  obtain ⟨texts, all, -⟩ := written
  obtain ⟨field, there⟩ := isSome_of_mapM all member
  simp only [Style.writeField, bind_eq_bind, bind_eq_some_iff] at there
  obtain ⟨_, -, text', inside, -⟩ := there
  exact ⟨text', inside⟩

private theorem mapM_perm {α β : Type} {f : α → Option β} {l l' : List α} (perm : l.Perm l') :
    ∀ {r : List β}, l.mapM f = some r → ∃ r', l'.mapM f = some r' ∧ r.Perm r' := by
  induction perm with
  | nil => exact fun all => ⟨_, all, .refl _⟩
  | cons a perm ih =>
    intro r all
    simp only [List.mapM_cons, bind_eq_bind, bind_eq_some_iff, pure_def, Option.some.injEq] at all
    obtain ⟨b, first, r, later, rfl⟩ := all
    obtain ⟨r', later', same⟩ := ih later
    exact ⟨b :: r', by simp [first, later'], same.cons b⟩
  | swap a b l =>
    intro r all
    simp only [List.mapM_cons, bind_eq_bind, bind_eq_some_iff, pure_def, Option.some.injEq] at all
    obtain ⟨x, first, _, ⟨y, second, r, later, rfl⟩, rfl⟩ := all
    exact ⟨y :: x :: r, by simp [first, second, later], .swap y x r⟩
  | trans perm perm' ih ih' =>
    intro r all
    obtain ⟨r', all', same⟩ := ih all
    obtain ⟨r'', all'', same'⟩ := ih' all'
    exact ⟨r'', all'', same.trans same'⟩

/-- An object is written the same when its fields come in another order, if no two keys count as
one in the order of the style. -/
theorem write_obj_perm {fields fields' : List (Text × Spelled)} (perm : fields.Perm fields')
    (apart : (fields.map fun p => s.key p.1).Nodup) (written : s.write (.obj fields) = some text) :
    s.write (.obj fields') = some text := by
  rw [Style.write, Style.writeFields_eq, map_eq_some_iff] at written
  obtain ⟨texts, all, rfl⟩ := written
  obtain ⟨texts', all', same⟩ := mapM_perm perm all
  have keys : (texts.map fun p => s.key p.1).Nodup := by
    have through : texts.map (fun p => s.key p.1) = fields.map fun p => s.key p.1 := by
      have names := congrArg (List.map s.key) (keys_of_mapM all)
      rwa [List.map_map, List.map_map] at names
    rwa [through]
  have ordered : s.ordered texts = s.ordered texts' := by
    have both : (s.ordered texts).Perm (s.ordered texts') :=
      ((Style.perm_ordered texts).trans same).trans (Style.perm_ordered texts').symm
    have alike : ∀ a b, a ∈ s.ordered texts → b ∈ s.ordered texts' → s.key a.1 ≤ s.key b.1 →
        s.key b.1 ≤ s.key a.1 → a = b := by
      intro a b left right below above
      have left' : a ∈ texts := (Style.perm_ordered texts).mem_iff.mp left
      have right' : b ∈ texts := same.mem_iff.mpr ((Style.perm_ordered texts').mem_iff.mp right)
      exact List.inj_on_of_nodup_map keys left' right' (le_antisymm below above)
    exact List.Perm.eq_of_pairwise alike (Style.pairwise_ordered texts)
      (Style.pairwise_ordered texts') both
  rw [Style.write, Style.writeFields_eq, all', map_some, ordered]

mutual

def Once : Spelled → Prop
  | .null => True
  | .bool _ => True
  | .number _ => True
  | .str _ => True
  | .arr items => OnceItems items
  | .obj fields => (fields.map Prod.fst).Nodup ∧ OnceFields fields

def OnceItems : List Spelled → Prop
  | [] => True
  | v :: rest => Once v ∧ OnceItems rest

def OnceFields : List (Text × Spelled) → Prop
  | [] => True
  | (_, v) :: rest => Once v ∧ OnceFields rest

end

theorem onceItems_iff (items : List Spelled) : OnceItems items ↔ ∀ v ∈ items, v.Once := by
  induction items with
  | nil => simp [OnceItems]
  | cons v rest ih => simp [OnceItems, ih]

theorem onceFields_iff (fields : List (Text × Spelled)) :
    OnceFields fields ↔ ∀ p ∈ fields, p.2.Once := by
  induction fields with
  | nil => simp [OnceFields]
  | cons p rest ih =>
    obtain ⟨k, v⟩ := p
    rw [OnceFields, ih, List.forall_mem_cons]

private theorem collect_eq_update (pairs : List (Text × Spelled)) :
    collect pairs = (Dict.empty.update pairs).items := by
  have fold : ∀ (l : List (Text × Spelled)) (d : Dict Text Spelled),
      l.foldl (fun fields p => Dict.putEntry p.1 p.2 fields) d.items = (d.update l).items := by
    intro l
    induction l with
    | nil => exact fun _ => rfl
    | cons p l ih => exact fun d => ih (d.set p.1 p.2)
  exact fold pairs .empty

private theorem once_collect {pairs : List (Text × Spelled)} (each : ∀ p ∈ pairs, p.2.Once) :
    (obj (collect pairs)).Once := by
  rw [collect_eq_update]
  refine ⟨(Dict.empty.update pairs).nodup, (onceFields_iff _).mpr fun p member => ?_⟩
  have found := (Dict.get_eq_some_iff (Dict.empty.update pairs) p.1 p.2).mpr member
  rcases Dict.get_update_eq_some found with there | before
  · exact each _ there
  · cases before

private def OnceAt (fuel : Nat) : Prop :=
  (∀ text v rest, readValue fuel text = some (v, rest) → v.Once) ∧
  (∀ text items rest, readItems fuel text = some (items, rest) → ∀ v ∈ items, v.Once) ∧
  ∀ text pairs rest, readPairs fuel text = some (pairs, rest) → ∀ p ∈ pairs, p.2.Once

private theorem onceAt (fuel : Nat) : OnceAt fuel := by
  induction fuel with
  | zero => exact ⟨nofun, nofun, nofun⟩
  | succ fuel ih =>
    obtain ⟨value, items, pairs⟩ := ih
    refine ⟨fun text v rest read => ?_, fun text vs rest read => ?_, fun text ps rest read => ?_⟩
    · rw [readValue] at read
      split at read
      all_goals simp only [bind_eq_bind, bind_eq_some_iff, pure_def,
        Option.some.injEq, Prod.mk.injEq, Prod.exists] at read
      · obtain ⟨_, _, -, rfl, -⟩ := read
        trivial
      · split at read
        · cases read
          trivial
        · simp only [bind_eq_some_iff, Option.some.injEq, Prod.mk.injEq,
            Prod.exists] at read
          obtain ⟨vs, _, inside, rfl, -⟩ := read
          exact (onceItems_iff vs).mpr (items _ _ _ inside)
      · split at read
        · cases read
          exact ⟨List.nodup_nil, trivial⟩
        · simp only [bind_eq_some_iff, Option.some.injEq, Prod.mk.injEq,
            Prod.exists] at read
          obtain ⟨ps, _, inside, rfl, -⟩ := read
          exact once_collect (pairs _ _ _ inside)
      · obtain ⟨_, _, -, rfl, -⟩ := read
        trivial
      · obtain ⟨_, -, rfl, -⟩ := read
        trivial
      · obtain ⟨_, -, rfl, -⟩ := read
        trivial
      · obtain ⟨_, -, rfl, -⟩ := read
        trivial
      · obtain ⟨_, _, -, rfl, -⟩ := read
        trivial
    · rw [readItems] at read
      simp only [bind_eq_bind, bind_eq_some_iff, Prod.exists] at read
      obtain ⟨v, behind, first, read⟩ := read
      have once := value _ _ _ first
      split at read
      · cases read
        exact List.forall_mem_singleton.mpr once
      · simp only [bind_eq_some_iff, Prod.exists] at read
        obtain ⟨later, _, more, read⟩ := read
        cases read
        exact List.forall_mem_cons.mpr ⟨once, items _ _ _ more⟩
      · cases read
    · rw [readPairs] at read
      split at read
      · simp only [bind_eq_bind, bind_eq_some_iff, Prod.exists] at read
        obtain ⟨k, behind, -, read⟩ := read
        split at read
        · simp only [bind_eq_some_iff, Prod.exists] at read
          obtain ⟨v, behind, first, read⟩ := read
          have once := value _ _ _ first
          split at read
          · cases read
            exact List.forall_mem_singleton.mpr once
          · simp only [bind_eq_some_iff, Prod.exists] at read
            obtain ⟨later, _, more, read⟩ := read
            cases read
            exact List.forall_mem_cons.mpr ⟨once, pairs _ _ _ more⟩
          · cases read
        · cases read
      · cases read

theorem once_of_read (reads : read text = some v) : v.Once := by
  unfold read at reads
  split at reads
  · rename_i behind there
    split_ifs at reads
    cases reads
    exact (onceAt _).1 _ _ _ there
  · cases reads

def Style.RefusesLone (s : Style) : Prop := ∀ unit, s.point (.lone unit) = none

theorem Style.RefusesLone.plain (refuses : s.RefusesLone) {t : Text}
    (quoted : s.quote t = some text) : Plain t := by
  obtain ⟨parts, all, -⟩ := Option.map_eq_some_iff.mp quoted
  intro p member
  obtain ⟨part, written⟩ := isSome_of_mapM all member
  cases p with
  | char c => exact ⟨c, rfl⟩
  | lone unit =>
    rw [refuses unit] at written
    cases written

theorem Style.RefusesLone.fine (refuses : s.RefusesLone) :
    v.Once → s.write v = some text → v.Fine := by
  induction v using by_parts generalizing text with
  | null => exact fun _ _ => trivial
  | bool b => exact fun _ _ => trivial
  | number l => exact fun _ _ => trivial
  | str t => exact fun _ quoted => refuses.plain quoted
  | arr items ih =>
    intro once written
    rw [Style.write, Style.writeItems_eq, map_eq_some_iff] at written
    obtain ⟨texts, all, -⟩ := written
    refine (fineItems_iff items).mpr fun v member => ?_
    obtain ⟨text, there⟩ := isSome_of_mapM all member
    exact ih v member ((onceItems_iff items).mp once v member) there
  | obj fields ih =>
    intro once written
    rw [Style.write, Style.writeFields_eq, map_eq_some_iff] at written
    obtain ⟨texts, all, -⟩ := written
    refine ⟨once.1, (fineFields_iff fields).mpr fun p member => ?_⟩
    obtain ⟨field, there⟩ := isSome_of_mapM all member
    simp only [Style.writeField, bind_eq_bind, bind_eq_some_iff] at there
    obtain ⟨_, quoted, text, inside, -⟩ := there
    exact ⟨refuses.plain quoted, ih p member ((onceFields_iff fields).mp once.2 p member) inside⟩

end Spelled

end ProofRay.Lib
