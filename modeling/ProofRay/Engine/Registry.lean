/- The fact registry: the authenticated map from fact ids to ordinals and versions
   (`horizon_store.py`). -/

import Mathlib.Data.Finset.Dedup
import ProofRay.Engine.Basis
import ProofRay.Lib.Dict
import ProofRay.Lib.Search

namespace ProofRay.Engine

open Lib (Dict)
open Lib.Guard
open Lib.Search (Increasing search)
open Lib.Struct (Field Record unpack unpackMany)

def regMagic : Bytes := ascii "HRG1"
def regFormatVersion : Int := 2
def maxRegistryEntries : Int := 1 <<< 24
def maxRegistryFactCount : Int := 1 <<< 30

/-- `<4sHIIII`: magic, version, scope, generation, fact count, entries. -/
abbrev regHeaderFormat : List Field := [.bytes 4, .u16, .u32, .u32, .u32, .u32]

/-- `<QII`: fact id, ordinal, fact version. -/
abbrev regEntryFormat : List Field := [.u64, .u32, .u32]

def regHeaderSize : Nat := 22
def regEntrySize : Nat := 16

example : regHeaderSize = Lib.Struct.size regHeaderFormat ∧
    regEntrySize = Lib.Struct.size regEntryFormat := by decide

structure RegistryEntry where
  factId : Int
  ordinal : Nat
  factVersion : Int
  deriving DecidableEq, Repr

def RegistryEntry.ofRecord (r : Record regEntryFormat) : RegistryEntry :=
  ⟨r.1, r.2.1.toNat, r.2.2.1⟩

def RegistryEntry.toRecord (e : RegistryEntry) : Record regEntryFormat :=
  (e.factId, (e.ordinal : Int), e.factVersion, ())

def checkEntries (factCount : Nat) : List RegistryEntry → Int → List Nat → Option String
  | [], _, _ => none
  | e :: es, prevFid, seenOrdinals =>
    if e.factId ≤ prevFid then some "fact_ids não estritamente crescentes"
    else if factCount ≤ e.ordinal then some "ordinal fora de [0, fact_count)"
    else if e.ordinal ∈ seenOrdinals then some "alias de ordinal (dois FactId → mesmo ordinal)"
    else if e.factVersion < 1 then some "fact_version inválida (<1)"
    else checkEntries factCount es e.factId (e.ordinal :: seenOrdinals)

/-- What the loop establishes of the entries it has passed. -/
structure EntriesOk (factCount : Nat) (es : List RegistryEntry) : Prop where
  increasing : Increasing es RegistryEntry.factId
  ordinals_nodup : (es.map RegistryEntry.ordinal).Nodup
  ordinal_lt : ∀ e ∈ es, e.ordinal < factCount
  version_pos : ∀ e ∈ es, 1 ≤ e.factVersion

theorem checkEntries_eq_none_iff {factCount : Nat} {es : List RegistryEntry} {prevFid : Int}
    {seen : List Nat} : checkEntries factCount es prevFid seen = none ↔
      EntriesOk factCount es ∧ (∀ e ∈ es, prevFid < e.factId) ∧ ∀ e ∈ es, e.ordinal ∉ seen := by
  induction es generalizing prevFid seen with
  | nil =>
    simp only [checkEntries, List.not_mem_nil, false_implies, implies_true, and_true, true_iff]
    exact ⟨List.Pairwise.nil, List.nodup_nil, by simp, by simp⟩
  | cons e es ih =>
    simp only [checkEntries, ite_some_eq_none, ih, List.forall_mem_cons]
    constructor
    · rintro ⟨above, inside, fresh, version, ⟨inc, nodup, range, pos⟩, later, unseen⟩
      refine ⟨⟨?_, ?_, ?_, ?_⟩, ⟨?_, ?_⟩, fresh, ?_⟩
      · exact List.pairwise_cons.mpr ⟨later, inc⟩
      · rw [List.map_cons, List.nodup_cons]
        refine ⟨?_, nodup⟩
        intro member
        obtain ⟨e', inList, same⟩ := List.mem_map.mp member
        exact unseen e' inList (by rw [same]; exact List.mem_cons_self)
      · exact List.forall_mem_cons.mpr ⟨by omega, range⟩
      · exact List.forall_mem_cons.mpr ⟨by omega, pos⟩
      · omega
      · intro e' inList
        have := later e' inList
        omega
      · exact fun e' inList seen' => unseen e' inList (List.mem_cons_of_mem _ seen')
    · rintro ⟨⟨inc, nodup, range, pos⟩, ⟨above, -⟩, fresh, unseen⟩
      obtain ⟨later, inc'⟩ := List.pairwise_cons.mp inc
      rw [List.map_cons, List.nodup_cons] at nodup
      have inside := range e List.mem_cons_self
      have version := pos e List.mem_cons_self
      refine ⟨by omega, by omega, fresh, by omega, ⟨inc', nodup.2, ?_, ?_⟩, later, ?_⟩
      · exact fun e' inList => range e' (List.mem_cons_of_mem _ inList)
      · exact fun e' inList => pos e' (List.mem_cons_of_mem _ inList)
      · intro e' inList seen'
        rcases List.mem_cons.mp seen' with same | old
        · exact nodup.1 (List.mem_map.mpr ⟨e', inList, same⟩)
        · exact unseen e' inList old

/-- An open registry: no two facts share an id or an ordinal. -/
structure FactRegistry where
  blob : Bytes
  scopeId : Int
  generationId : Int
  factCount : Nat
  entries : List RegistryEntry
  entries_ok : EntriesOk factCount entries

namespace FactRegistry

def mac (c : Crypto) (key header body : Bytes) : Bytes :=
  c.tag key (ascii "REGISTRY" ++ header ++ body)

def init (c : Crypto) (blob key : Bytes) : Except PyError FactRegistry := do
  require (regHeaderSize ≤ blob.length) (.integrityError "registro menor que o header")
  let (magic, ver, scope, gen, factCount, n, _) := unpack regHeaderFormat blob
  require (magic = regMagic) (.integrityError "magic de registro inválido")
  require (ver = regFormatVersion) (.incompatibleError s!"versão de registro não suportada: {ver}")
  require (n ≤ maxRegistryEntries) (.integrityError "n_entries acima do limite")
  require (factCount ≤ maxRegistryFactCount) (.integrityError "fact_count acima do limite")
  let tagOff := regHeaderSize + n.toNat * regEntrySize
  require (blob.length = tagOff + tagBytes)
    (.integrityError s!"comprimento de registro não canônico: {blob.length} != {tagOff + tagBytes}")
  let body := (blob.drop regHeaderSize).take (n.toNat * regEntrySize)
  require (mac c key (blob.take regHeaderSize) body = blob.drop tagOff)
    (.integrityError "MAC de registro inválido")
  let entries := (unpackMany regEntryFormat n.toNat body).map RegistryEntry.ofRecord
  match ok : checkEntries factCount.toNat entries (-1) [] with
  | some message => .error (.integrityError message)
  | none => .ok ⟨blob, scope, gen, factCount.toNat, entries, (checkEntries_eq_none_iff.mp ok).1⟩

/-- `sorted(mapping.items())` as entries. -/
def sortedEntries (mapping : Dict Int (Nat × Int)) : List RegistryEntry :=
  (mapping.items.map fun item => (⟨item.1, item.2.1, item.2.2⟩ : RegistryEntry)).insertionSort
    fun a b => a.factId ≤ b.factId

def build (c : Crypto) (mapping : Dict Int (Nat × Int)) (scopeId generationId : Int)
    (factCount : Nat) (key : Bytes) : Except PyError FactRegistry := do
  let items := sortedEntries mapping
  let header ← structPack regHeaderFormat
    (regMagic, regFormatVersion, scopeId, generationId, (factCount : Int), (items.length : Int), ())
  let body ← structPackMany regEntryFormat (items.map RegistryEntry.toRecord)
  init c (header ++ body ++ mac c key header body) key

def lookup (r : FactRegistry) (factId : Int) : Option RegistryEntry :=
  search r.entries RegistryEntry.factId factId

def ordinals (r : FactRegistry) : Finset Nat := (r.entries.map RegistryEntry.ordinal).toFinset

end FactRegistry
end ProofRay.Engine
