/- The rate limiter: a bucket of tokens for each of the callers seen last, filled up with the time
   that goes by. -/

import Mathlib.Algebra.Order.Field.Basic
import Mathlib.Algebra.Order.Ring.Rat
import Mathlib.Tactic.Linarith
import Mathlib.Tactic.Ring
import ProofRay.Lib.Recency

namespace ProofRay.Api

open Lib

universe u v

structure TokenBucket (𝕜 : Type u) where
  capacity : 𝕜
  refillPerSecond : 𝕜
  tokens : 𝕜
  lastCheck : 𝕜

/-- One call, with what the clock shows when a bucket is made for it and when it is let through. -/
structure Call (κ : Type v) (𝕜 : Type u) where
  key : κ
  made : 𝕜
  now : 𝕜

def maxTrackedKeys : Nat := 10000

section

variable {κ : Type v} {𝕜 : Type u} [LinearOrder 𝕜] {c : Call κ 𝕜} {calls : List (Call κ 𝕜)}

/-- Calls at times that do not decrease. -/
def Timely (calls : List (Call κ 𝕜)) : Prop :=
  (∀ c ∈ calls, c.made ≤ c.now) ∧ calls.Pairwise fun c d => c.now ≤ d.made

theorem Timely.tail (timely : Timely (c :: calls)) : Timely calls :=
  ⟨fun d member => timely.1 d (List.mem_cons_of_mem c member), timely.2.of_cons⟩

theorem Timely.late (timely : Timely (c :: calls)) : ∀ d ∈ calls, c.now ≤ d.now :=
  fun d member => (List.rel_of_pairwise_cons timely.2 member).trans
    (timely.1 d (List.mem_cons_of_mem c member))

end

section

variable {κ : Type v} {𝕜 : Type u} [DecidableEq κ] [Field 𝕜] [LinearOrder 𝕜]

def TokenBucket.make (capacity refillPerSecond now : 𝕜) : TokenBucket 𝕜 :=
  ⟨capacity, refillPerSecond, capacity, now⟩

def TokenBucket.allow (b : TokenBucket 𝕜) (now : 𝕜) : Bool × TokenBucket 𝕜 :=
  let elapsed := now - b.lastCheck
  let tokens := min b.capacity (b.tokens + elapsed * b.refillPerSecond)
  if tokens < 1 then (false, { b with tokens, lastCheck := now })
  else (true, { b with tokens := tokens - 1, lastCheck := now })

/-- `RateLimiter.allow`, with the buckets of the limiter. -/
def allow (capacity : Nat) (buckets : Dict κ (TokenBucket 𝕜)) (call : Call κ 𝕜) :
    Bool × Dict κ (TokenBucket 𝕜) :=
  match buckets.get call.key with
  | none =>
    let answer := (TokenBucket.make (capacity : 𝕜) (capacity / 60) call.made).allow call.now
    (answer.1, (buckets.set call.key answer.2).popTo maxTrackedKeys)
  | some bucket =>
    let answer := bucket.allow call.now
    (answer.1, buckets.toEnd call.key answer.2)

/-- The calls in turn, each with its answer. -/
def outcomes (capacity : Nat) : Dict κ (TokenBucket 𝕜) → List (Call κ 𝕜) → List (Call κ 𝕜 × Bool)
  | _, [] => []
  | buckets, call :: calls =>
    (call, (allow capacity buckets call).1) ::
      outcomes capacity (allow capacity buckets call).2 calls

/-- How many calls of a key from one time to another are let through. -/
def admitted (capacity : Nat) (buckets : Dict κ (TokenBucket 𝕜)) (calls : List (Call κ 𝕜)) (key : κ)
    (start stop : 𝕜) : Nat :=
  (outcomes capacity buckets calls).countP fun o =>
    o.1.key = key ∧ o.2 = true ∧ start ≤ o.1.now ∧ o.1.now ≤ stop

/-- One call comes at least so long after another. -/
def Spaced (gap : 𝕜) (c d : Call κ 𝕜) : Prop := c.now + gap ≤ d.now

/-- Between two calls of a key in a row, from one time to another, call fewer other keys than the
limiter tracks. -/
def Tracked (calls : List (Call κ 𝕜)) (key : κ) (start stop : 𝕜) : Prop :=
  ∀ front c mid d back, calls = front ++ c :: (mid ++ d :: back) → c.key = key → d.key = key →
    start ≤ c.now → d.now ≤ stop → (∀ e ∈ mid, e.key ≠ key) →
    (mid.map Call.key).toFinset.card < maxTrackedKeys

variable {capacity : Nat} {buckets : Dict κ (TokenBucket 𝕜)} {c : Call κ 𝕜}
  {calls : List (Call κ 𝕜)} {key : κ} {b : TokenBucket 𝕜} {now start stop : 𝕜}

@[simp] theorem TokenBucket.capacity_allow : (b.allow now).2.capacity = b.capacity := by
  unfold TokenBucket.allow
  dsimp only
  split <;> rfl

@[simp] theorem TokenBucket.refillPerSecond_allow :
    (b.allow now).2.refillPerSecond = b.refillPerSecond := by
  unfold TokenBucket.allow
  dsimp only
  split <;> rfl

@[simp] theorem TokenBucket.lastCheck_allow : (b.allow now).2.lastCheck = now := by
  unfold TokenBucket.allow
  dsimp only
  split <;> rfl

/-- What is left and what is let through are what the bucket was filled up to. -/
theorem TokenBucket.tokens_allow :
    (b.allow now).2.tokens + (if (b.allow now).1 = true then 1 else 0) =
      min b.capacity (b.tokens + (now - b.lastCheck) * b.refillPerSecond) := by
  unfold TokenBucket.allow
  dsimp only
  split
  · simp
  · simp

/-- The bucket a call is let through by. -/
def bucketOf (capacity : Nat) (buckets : Dict κ (TokenBucket 𝕜)) (c : Call κ 𝕜) : TokenBucket 𝕜 :=
  (buckets.get c.key).getD (.make capacity (capacity / 60) c.made)

theorem allow_fst :
    (allow capacity buckets c).1 = ((bucketOf capacity buckets c).allow c.now).1 := by
  unfold allow bucketOf
  cases buckets.get c.key <;> rfl

theorem held_allow : (allow capacity buckets c).2.Held c.key
    ((bucketOf capacity buckets c).allow c.now).2 ∅ := by
  unfold allow bucketOf
  cases known : buckets.get c.key with
  | none =>
    dsimp only
    rw [← Dict.toEnd_absent known]
    exact Dict.held_toEnd.popTo (Finset.card_empty.trans_lt (by decide))
  | some b => exact Dict.held_toEnd

theorem held_allow_other {later : Finset κ} (held : buckets.Held key b later) (other : c.key ≠ key)
    (room : (insert c.key later).card < maxTrackedKeys) :
    (allow capacity buckets c).2.Held key b (insert c.key later) := by
  unfold allow
  cases known : buckets.get c.key with
  | none =>
    dsimp only
    rw [← Dict.toEnd_absent known]
    exact (held.toEnd other).popTo room
  | some b => exact held.toEnd other

theorem get_allow_other (other : c.key ≠ key)
    (found : (allow capacity buckets c).2.get key = some b) : buckets.get key = some b := by
  unfold allow at found
  cases known : buckets.get c.key with
  | none =>
    rw [known] at found
    have before := Dict.get_of_popTo found
    rwa [Dict.get_set_ne _ _ other] at before
  | some b' =>
    rw [known] at found
    dsimp only at found
    rwa [Dict.toEnd, Dict.get_set_ne _ _ other, Dict.get_erase, if_neg (Ne.symm other)] at found

theorem outcomes_subset {o : Call κ 𝕜 × Bool} (member : o ∈ outcomes capacity buckets calls) :
    o.1 ∈ calls := by
  induction calls generalizing buckets with
  | nil => cases member
  | cons c calls ih =>
    rcases List.mem_cons.mp member with rfl | later
    · exact List.mem_cons_self
    · exact List.mem_cons_of_mem c (ih later)

theorem admitted_eq_zero (late : ∀ c ∈ calls, c.key = key → stop < c.now) :
    admitted capacity buckets calls key start stop = 0 := by
  refine List.countP_eq_zero.mpr fun o member counted => ?_
  obtain ⟨own, -, -, inside⟩ := of_decide_eq_true counted
  exact absurd inside (not_le.mpr (late o.1 (outcomes_subset member) own))

theorem admitted_cons_inside (own : c.key = key) (since : start ≤ c.now) (still : c.now ≤ stop) :
    (admitted capacity buckets (c :: calls) key start stop : 𝕜) =
      admitted capacity (allow capacity buckets c).2 calls key start stop +
        if ((bucketOf capacity buckets c).allow c.now).1 = true then 1 else 0 := by
  rw [admitted, outcomes, List.countP_cons, Nat.cast_add, ← allow_fst]
  simp [admitted, own, since, still]

theorem admitted_cons_outside (out : ¬(c.key = key ∧ start ≤ c.now ∧ c.now ≤ stop)) :
    admitted capacity buckets (c :: calls) key start stop =
      admitted capacity (allow capacity buckets c).2 calls key start stop := by
  have uncounted : ¬ (c.key = key ∧ (allow capacity buckets c).1 = true ∧ start ≤ c.now ∧
      c.now ≤ stop) := fun all => out ⟨all.1, all.2.2⟩
  rw [admitted, outcomes, List.countP_cons, if_neg (by simpa using uncounted)]
  rfl

/-- A bucket of a limiter, last looked at before some calls. -/
structure Sane (capacity : Nat) (calls : List (Call κ 𝕜)) (b : TokenBucket 𝕜) : Prop where
  capacity_eq : b.capacity = capacity
  refill_eq : b.refillPerSecond = capacity / 60
  nonneg : 0 ≤ b.tokens
  before : ∀ c ∈ calls, b.lastCheck ≤ c.made

omit [DecidableEq κ] in
theorem Sane.later (sane : Sane capacity (c :: calls) b) : Sane capacity calls b :=
  ⟨sane.capacity_eq, sane.refill_eq, sane.nonneg,
    fun d member => sane.before d (List.mem_cons_of_mem c member)⟩

/-- The bucket a call leaves its key is the one it is let through by. -/
theorem get_allow (own : c.key = key) :
    (allow capacity buckets c).2.get key = some ((bucketOf capacity buckets c).allow c.now).2 :=
  own ▸ held_allow.get

theorem outcomes_append (later : List (Call κ 𝕜)) :
    outcomes capacity buckets (calls ++ later) = outcomes capacity buckets calls ++
      outcomes capacity (calls.foldl (fun s c => (allow capacity s c).2) buckets) later := by
  induction calls generalizing buckets with
  | nil => rfl
  | cons c calls ih =>
    rw [List.cons_append, outcomes, outcomes, ih, List.cons_append, List.foldl_cons]

theorem keys_allow_fresh (fresh : c.key ∉ buckets.keys) :
    (allow capacity buckets c).2.keys =
      (buckets.keys ++ [c.key]).drop (buckets.keys.length + 1 - maxTrackedKeys) := by
  have unknown := (buckets.get_eq_none_iff c.key).mpr fresh
  unfold allow
  rw [unknown]
  simp only [Dict.keys, Dict.items_popTo, Dict.items_set_absent fresh, List.map_drop,
    List.map_append, List.map_cons, List.map_nil, List.length_append, List.length_cons,
    List.length_nil, List.length_map]

/-- Of callers that come for the first time the last ones are tracked. -/
theorem keys_of_fresh (few : buckets.keys.length ≤ maxTrackedKeys)
    (fresh : (buckets.keys ++ calls.map Call.key).Nodup) :
    (calls.foldl (fun s c => (allow capacity s c).2) buckets).keys =
      (buckets.keys ++ calls.map Call.key).drop
        (buckets.keys.length + calls.length - maxTrackedKeys) := by
  induction calls generalizing buckets with
  | nil =>
    rw [List.map_nil, List.append_nil, List.length_nil, add_zero, Nat.sub_eq_zero_of_le few]
    rfl
  | cons c calls ih =>
    have unknown : c.key ∉ buckets.keys := fun inside =>
      (List.nodup_append.mp fresh).2.2 c.key inside c.key List.mem_cons_self rfl
    have next : (allow capacity buckets c).2.keys = _ := keys_allow_fresh unknown
    have split : buckets.keys ++ (c :: calls).map Call.key =
        (buckets.keys ++ [c.key]) ++ calls.map Call.key := by simp
    have length : (buckets.keys ++ [c.key]).length = buckets.keys.length + 1 := by simp
    rw [split] at fresh ⊢
    have cut : (buckets.keys.length + 1 - maxTrackedKeys) ≤ (buckets.keys ++ [c.key]).length := by
      omega
    rw [List.foldl_cons, ih, next, List.length_drop, length, List.length_cons,
      ← List.drop_append_of_le_length cut, List.drop_drop]
    · generalize maxTrackedKeys = room
      have cuts : buckets.keys.length + 1 - room +
          (buckets.keys.length + 1 - (buckets.keys.length + 1 - room) + calls.length - room) =
            buckets.keys.length + (calls.length + 1) - room := by omega
      rw [cuts]
    · rw [next, List.length_drop]
      omega
    · rw [next]
      exact fresh.sublist ((List.drop_sublist _ _).append_right _)

omit [Field 𝕜] in
theorem tracked_of_length (few : calls.length < maxTrackedKeys) : Tracked calls key start stop := by
  intro front c mid d back split _ _ _ _ _
  refine ((List.toFinset_card_le _).trans ?_).trans_lt few
  rw [split, List.length_map, List.length_append, List.length_cons, List.length_append]
  omega

variable [IsStrictOrderedRing 𝕜]

theorem TokenBucket.tokens_allow_nonneg (nonneg : 0 ≤ min b.capacity
      (b.tokens + (now - b.lastCheck) * b.refillPerSecond)) : 0 ≤ (b.allow now).2.tokens := by
  unfold TokenBucket.allow
  dsimp only
  split
  · exact nonneg
  · rename_i full
    exact sub_nonneg.mpr (not_lt.mp full)

theorem sane_bucketOf (timely : Timely (c :: calls))
    (sane : ∀ b, buckets.get c.key = some b → Sane capacity (c :: calls) b) :
    Sane capacity (c :: calls) (bucketOf capacity buckets c) := by
  unfold bucketOf
  cases known : buckets.get c.key with
  | none =>
    refine ⟨rfl, rfl, Nat.cast_nonneg capacity, fun d member => ?_⟩
    rcases List.mem_cons.mp member with rfl | later
    · exact le_refl _
    · exact (timely.1 c List.mem_cons_self).trans (List.rel_of_pairwise_cons timely.2 later)
  | some b => exact sane b known

omit [DecidableEq κ] in
theorem Sane.allow (sane : Sane capacity (c :: calls) b) (timely : Timely (c :: calls)) :
    Sane capacity calls (b.allow c.now).2 := by
  have waited : b.lastCheck ≤ c.now :=
    (sane.before c List.mem_cons_self).trans (timely.1 c List.mem_cons_self)
  refine ⟨by simpa using sane.capacity_eq, by simpa using sane.refill_eq, ?_, fun d later => ?_⟩
  · apply TokenBucket.tokens_allow_nonneg
    rw [sane.capacity_eq, sane.refill_eq]
    have refilled : 0 ≤ (c.now - b.lastCheck) * ((capacity : 𝕜) / 60) :=
      mul_nonneg (sub_nonneg.mpr waited) (by positivity)
    exact le_min (Nat.cast_nonneg capacity) (add_nonneg sane.nonneg refilled)
  · rw [TokenBucket.lastCheck_allow]
    exact List.rel_of_pairwise_cons timely.2 later

theorem sane_allow (timely : Timely (c :: calls))
    (sane : ∀ b, buckets.get key = some b → Sane capacity (c :: calls) b) :
    ∀ b, (allow capacity buckets c).2.get key = some b → Sane capacity calls b := by
  intro b found
  by_cases own : c.key = key
  · rw [get_allow own] at found
    cases found
    exact (sane_bucketOf timely (own ▸ sane)).allow timely
  · exact (sane b (get_allow_other own found)).later

omit [Field 𝕜] [IsStrictOrderedRing 𝕜] in
theorem Tracked.tail (tracked : Tracked (c :: calls) key start stop) :
    Tracked calls key start stop :=
  fun front d mid d' back split =>
    tracked (c :: front) d mid d' back (by rw [split, List.cons_append])

omit [Field 𝕜] [IsStrictOrderedRing 𝕜] in
theorem Tracked.near (tracked : Tracked (c :: calls) key start stop) (own : c.key = key)
    (since : start ≤ c.now) : ∀ mid d back, calls = mid ++ d :: back → d.key = key →
      d.now ≤ stop → (∀ e ∈ mid, e.key ≠ key) →
      (∅ ∪ (mid.map Call.key).toFinset).card < maxTrackedKeys := by
  intro mid d back split same before others
  rw [Finset.empty_union]
  exact tracked [] c mid d back (by rw [split, List.nil_append]) own same since before others

/-- From a held bucket on: what is let through is what it holds and what it is filled up with. -/
theorem admitted_le_of_held {later : Finset κ} (timely : Timely calls)
    (held : later.card < maxTrackedKeys → buckets.Held key b later)
    (sane : Sane capacity calls b) (started : start ≤ b.lastCheck) (running : b.lastCheck ≤ stop)
    (near : ∀ mid d back, calls = mid ++ d :: back → d.key = key → d.now ≤ stop →
      (∀ e ∈ mid, e.key ≠ key) → (later ∪ (mid.map Call.key).toFinset).card < maxTrackedKeys)
    (tracked : Tracked calls key start stop) :
    (admitted capacity buckets calls key start stop : 𝕜) ≤
      b.tokens + (stop - b.lastCheck) * (capacity / 60) := by
  induction calls generalizing buckets b later with
  | nil =>
    rw [admitted, outcomes, List.countP_nil, Nat.cast_zero]
    exact add_nonneg sane.nonneg (mul_nonneg (sub_nonneg.mpr running) (by positivity))
  | cons c calls ih =>
    by_cases out : c.key = key ∧ stop < c.now
    · have none_left : admitted capacity buckets (c :: calls) key start stop = 0 := by
        refine admitted_eq_zero fun d member _ => ?_
        rcases List.mem_cons.mp member with rfl | after
        · exact out.2
        · exact out.2.trans_le (timely.late d after)
      rw [none_left, Nat.cast_zero]
      exact add_nonneg sane.nonneg (mul_nonneg (sub_nonneg.mpr running) (by positivity))
    by_cases own : c.key = key
    · have still : c.now ≤ stop := not_lt.mp fun after => out ⟨own, after⟩
      have since : start ≤ c.now :=
        started.trans ((sane.before c List.mem_cons_self).trans (timely.1 c List.mem_cons_self))
      have room := near [] c calls rfl own still nofun
      rw [List.map_nil, List.toFinset_nil, Finset.union_empty] at room
      have here : bucketOf capacity buckets c = b := by
        rw [bucketOf, own, (held room).get, Option.getD_some]
      have next : (allow capacity buckets c).2.Held c.key
          ((bucketOf capacity buckets c).allow c.now).2 ∅ := held_allow
      rw [own, here] at next
      have onward := ih timely.tail (fun _ => next) (sane.allow timely)
        (by rwa [TokenBucket.lastCheck_allow]) (by rwa [TokenBucket.lastCheck_allow])
        (tracked.near own since) tracked.tail
      have filled : (b.allow c.now).2.tokens + (if (b.allow c.now).1 = true then 1 else 0) ≤
          b.tokens + (c.now - b.lastCheck) * (capacity / 60) := by
        rw [TokenBucket.tokens_allow, sane.refill_eq]
        exact min_le_right _ _
      rw [TokenBucket.lastCheck_allow] at onward
      rw [admitted_cons_inside own since still, here]
      calc (admitted capacity (allow capacity buckets c).2 calls key start stop : 𝕜) +
            (if (b.allow c.now).1 = true then 1 else 0)
          ≤ (b.allow c.now).2.tokens + (if (b.allow c.now).1 = true then 1 else 0) +
            (stop - c.now) * (capacity / 60) := by linarith
        _ ≤ b.tokens + (c.now - b.lastCheck) * (capacity / 60) +
            (stop - c.now) * (capacity / 60) := by linarith
        _ = b.tokens + (stop - b.lastCheck) * (capacity / 60) := by ring
    · rw [admitted_cons_outside fun all => own all.1]
      have held' : (insert c.key later).card < maxTrackedKeys →
          (allow capacity buckets c).2.Held key b (insert c.key later) := by
        intro room
        refine held_allow_other (held ?_) own room
        exact (Finset.card_le_card (Finset.subset_insert _ _)).trans_lt room
      refine ih timely.tail held' sane.later started running ?_ tracked.tail
      intro mid d back split same before others
      have room := near (c :: mid) d back (by rw [split, List.cons_append]) same before
        (List.forall_mem_cons.mpr ⟨own, others⟩)
      rwa [List.map_cons, List.toFinset_cons, Finset.union_insert, ← Finset.insert_union] at room

theorem admitted_le (timely : Timely calls)
    (sane : ∀ b, buckets.get key = some b → Sane capacity calls b) (window : start ≤ stop)
    (tracked : Tracked calls key start stop) :
    (admitted capacity buckets calls key start stop : 𝕜) ≤
      capacity + (stop - start) * (capacity / 60) := by
  have rate : 0 ≤ (capacity : 𝕜) / 60 := by positivity
  induction calls generalizing buckets with
  | nil =>
    rw [admitted, outcomes, List.countP_nil, Nat.cast_zero]
    exact add_nonneg (Nat.cast_nonneg _) (mul_nonneg (sub_nonneg.mpr window) rate)
  | cons c calls ih =>
    by_cases inside : c.key = key ∧ start ≤ c.now ∧ c.now ≤ stop
    · obtain ⟨own, since, still⟩ := inside
      have used := sane_bucketOf timely (own ▸ sane)
      have next : (allow capacity buckets c).2.Held c.key
          ((bucketOf capacity buckets c).allow c.now).2 ∅ := held_allow
      rw [own] at next
      have onward := admitted_le_of_held timely.tail (fun _ => next) (used.allow timely)
        (by rwa [TokenBucket.lastCheck_allow]) (by rwa [TokenBucket.lastCheck_allow])
        (tracked.near own since) tracked.tail
      have filled : ((bucketOf capacity buckets c).allow c.now).2.tokens +
          (if ((bucketOf capacity buckets c).allow c.now).1 = true then 1 else 0) ≤
            capacity := by
        rw [TokenBucket.tokens_allow, ← used.capacity_eq]
        exact min_le_left _ _
      have shorter : (stop - c.now) * ((capacity : 𝕜) / 60) ≤ (stop - start) * (capacity / 60) :=
        mul_le_mul_of_nonneg_right (sub_le_sub_left since stop) rate
      rw [TokenBucket.lastCheck_allow] at onward
      rw [admitted_cons_inside own since still]
      linarith
    · rw [admitted_cons_outside inside]
      exact ih timely.tail (sane_allow timely sane) tracked.tail

omit [DecidableEq κ] in
/-- A bucket that was full, or left a refill of one ago, lets the next call through. -/
theorem Sane.admits (sane : Sane capacity (c :: calls) b) (positive : 0 < capacity)
    (timely : Timely (c :: calls))
    (waited : (capacity : 𝕜) ≤ b.tokens ∨ b.lastCheck + 60 / capacity ≤ c.now) :
    (b.allow c.now).1 = true := by
  have one : (1 : 𝕜) ≤ capacity := by exact_mod_cast positive
  have rate : 0 ≤ (capacity : 𝕜) / 60 := by positivity
  have elapsed : 0 ≤ c.now - b.lastCheck := sub_nonneg.mpr
    ((sane.before c List.mem_cons_self).trans (timely.1 c List.mem_cons_self))
  have enough : ¬ min b.capacity (b.tokens + (c.now - b.lastCheck) * b.refillPerSecond) < 1 := by
    rw [not_lt, sane.capacity_eq, sane.refill_eq]
    refine le_min one ?_
    rcases waited with full | apart
    · have more := mul_nonneg elapsed rate
      linarith
    · have refilled : 60 / (capacity : 𝕜) * (capacity / 60) ≤
          (c.now - b.lastCheck) * (capacity / 60) :=
        mul_le_mul_of_nonneg_right (le_sub_iff_add_le'.mpr apart) rate
      have unit : 60 / (capacity : 𝕜) * (capacity / 60) = 1 := by
        have nonzero : (capacity : 𝕜) ≠ 0 := (zero_lt_one.trans_le one).ne'
        rw [div_mul_div_comm, mul_comm, div_self (mul_ne_zero nonzero (by norm_num))]
      have left := sane.nonneg
      linarith
  unfold TokenBucket.allow
  rw [if_neg enough]

theorem admits_apart (positive : 0 < capacity) (timely : Timely calls)
    (sane : ∀ b, buckets.get key = some b → Sane capacity calls b ∧
      ∀ c ∈ calls, c.key = key → b.lastCheck + 60 / capacity ≤ c.now)
    (apart : (calls.filter fun c => c.key = key).Pairwise (Spaced (60 / capacity : 𝕜))) :
    ∀ o ∈ outcomes capacity buckets calls, o.1.key = key → o.2 = true := by
  induction calls generalizing buckets with
  | nil => nofun
  | cons c calls ih =>
    intro o member own
    rcases List.mem_cons.mp member with rfl | later
    · have used := sane_bucketOf timely fun b found => (sane b (own ▸ found)).1
      dsimp only at own ⊢
      rw [allow_fst]
      refine used.admits positive timely ?_
      unfold bucketOf
      cases known : buckets.get c.key with
      | none => exact .inl (le_refl _)
      | some b => exact .inr ((sane b (own ▸ known)).2 c List.mem_cons_self own)
    · have rest : (calls.filter fun c => c.key = key).Pairwise (Spaced (60 / capacity : 𝕜)) :=
        apart.sublist ((List.sublist_cons_self c calls).filter _)
      refine ih timely.tail (fun b found => ⟨?_, fun d there same => ?_⟩) rest o later own
      · exact sane_allow timely (fun b found => (sane b found).1) b found
      · by_cases mine : c.key = key
        · rw [get_allow mine] at found
          cases found
          rw [TokenBucket.lastCheck_allow]
          rw [List.filter_cons_of_pos (by simpa using mine)] at apart
          exact List.rel_of_pairwise_cons apart (List.mem_filter.mpr ⟨there, by simpa using same⟩)
        · exact (sane b (get_allow_other mine found)).2 d (List.mem_cons_of_mem c there) same

/-- Over every window of time a key is let through no more often than the limit and the refill
allow, as long as its bucket is not given up within the window, and a key that waits for one
refill between its calls is never refused. -/
theorem allow_limits (positive : 0 < capacity) (calls : List (Call κ 𝕜)) (timely : Timely calls)
    (key : κ) :
    (∀ start T : 𝕜, 0 ≤ T → Tracked calls key start (start + T) →
      (admitted capacity .empty calls key start (start + T) : 𝕜) ≤
        capacity + T * capacity / 60) ∧
    ((calls.filter fun c => c.key = key).IsChain (Spaced (60 / capacity : 𝕜)) →
      ∀ o ∈ outcomes capacity .empty calls, o.1.key = key → o.2 = true) := by
  constructor
  · intro start T nonneg tracked
    have bound : (admitted capacity .empty calls key start (start + T) : 𝕜) ≤
        capacity + (start + T - start) * (capacity / 60) :=
      admitted_le timely nofun (le_add_of_nonneg_right nonneg) tracked
    rwa [add_sub_cancel_left, ← mul_div_assoc] at bound
  · intro chain
    have gap : 0 ≤ 60 / (capacity : 𝕜) := by positivity
    have : IsTrans (Call κ 𝕜) (Spaced (60 / capacity)) :=
      ⟨fun c d e first second => first.trans ((le_add_of_nonneg_right gap).trans second)⟩
    exact admits_apart positive timely nofun (List.isChain_iff_pairwise.mp chain)

end

/-- A second apart, at a limit of sixty a minute. -/
def twice : List (Call String ℚ) := [⟨"a", 0, 0⟩, ⟨"a", 1, 1⟩]

theorem allow_limits_twice :
    (admitted 60 .empty twice "a" 0 (0 + 1) : ℚ) ≤ (60 : ℕ) + 1 * (60 : ℕ) / 60 ∧
    ∀ o ∈ outcomes 60 .empty twice, o.1.key = "a" → o.2 = true := by
  have timely : Timely twice := by
    constructor
    · simp [twice]
    · simp [twice]
  obtain ⟨bound, never⟩ := allow_limits (by decide : 0 < 60) twice timely "a"
  exact ⟨bound 0 1 zero_le_one (tracked_of_length (by decide)), never (by simp [twice, Spaced])⟩

def caller : Call String ℚ := ⟨"", 0, 0⟩

/-- As many callers as the limiter tracks. -/
def others : List (Call String ℚ) := (someKeys maxTrackedKeys).map fun key => ⟨key, 0, 0⟩

private theorem keys_others : others.map Call.key = someKeys maxTrackedKeys := by
  rw [others, List.map_map]
  exact List.map_id _

private theorem allow_caller {buckets : Dict String (TokenBucket ℚ)}
    (unknown : buckets.get caller.key = none) : (allow 1 buckets caller).1 = true := by
  rw [allow_fst, bucketOf, unknown]
  norm_num [caller, TokenBucket.make, TokenBucket.allow]

/-- As many others as the limiter tracks, between two calls of one caller, get that caller a full
bucket again. -/
theorem not_allow_limits : ¬∀ (capacity : Nat) (calls : List (Call String ℚ)) (key : String)
    (start T : ℚ), 0 < capacity → Timely calls → 0 ≤ T →
      (admitted capacity .empty calls key start (start + T) : ℚ) ≤
        capacity + T * capacity / 60 := by
  intro all
  have still : ∀ c ∈ caller :: (others ++ [caller]), c.made = 0 ∧ c.now = 0 := by
    intro c member
    simp only [others, List.mem_cons, List.mem_append, List.mem_map, List.not_mem_nil,
      or_false] at member
    rcases member with rfl | ⟨n, -, rfl⟩ | rfl <;> exact ⟨rfl, rfl⟩
  have timely : Timely (caller :: (others ++ [caller])) := by
    constructor
    · intro c member
      rw [(still c member).1, (still c member).2]
    · refine List.pairwise_of_forall_mem_list fun c member d member' => ?_
      rw [(still c member).2, (still d member').1]
  have bound := all 1 _ caller.key 0 0 one_pos timely (le_refl 0)
  have start : (allow 1 Dict.empty caller).2.keys = [caller.key] := keys_allow_fresh nofun
  have one (m : Nat) : 1 + m - m = 1 := Nat.add_sub_cancel 1 m
  have gone : caller.key ∉
      (others.foldl (fun s c => (allow 1 s c).2) (allow 1 Dict.empty caller).2).keys := by
    rw [keys_of_fresh, start, keys_others, List.length_singleton, others, List.length_map,
      length_someKeys, one, List.singleton_append, List.drop_one, List.tail_cons]
    · exact empty_notMem_someKeys _
    · rw [start]
      decide
    · rw [start, keys_others, List.singleton_append]
      exact List.nodup_cons.mpr ⟨empty_notMem_someKeys _, nodup_someKeys _⟩
  have again : (caller, true) ∈ outcomes 1 (allow 1 Dict.empty caller).2 (others ++ [caller]) := by
    rw [outcomes_append]
    refine List.mem_append_right _ (List.mem_singleton.mpr ?_)
    rw [allow_caller ((Dict.get_eq_none_iff _ _).mpr gone)]
  have counted : 0 < admitted 1 (allow 1 Dict.empty caller).2 (others ++ [caller]) caller.key 0 0 :=
    List.countP_pos_iff.mpr ⟨_, again, by simp [caller]⟩
  have more : (1 : ℚ) ≤
      admitted 1 (allow 1 Dict.empty caller).2 (others ++ [caller]) caller.key 0 0 := by
    exact_mod_cast counted
  have since : (0 : ℚ) ≤ caller.now := le_refl _
  have still : caller.now ≤ 0 := le_refl _
  rw [add_zero, admitted_cons_inside rfl since still, ← allow_fst,
    if_pos (allow_caller rfl)] at bound
  push_cast at bound
  linarith

end ProofRay.Api
