/- Machines that take one event at a time and report on each: their runs, and what a run keeps when
   every step keeps it. -/

import Mathlib.Logic.Function.Basic

namespace ProofRay.Lib

universe u v w x

/-- A partial step function: from a state and an event to the next state and a report. -/
structure Machine (State : Type u) (Event : Type v) (Report : Type w) where
  step : State → Event → Option (State × Report)

namespace Machine

variable {State : Type u} {Event : Type v} {Report : Type w} (m : Machine State Event Report)

def run (s : State) : List Event → Option (State × List Report)
  | [] => some (s, [])
  | e :: es =>
    match m.step s e with
    | none => none
    | some (s', r) => (run s' es).map fun last => (last.1, r :: last.2)

@[simp] theorem run_nil (s : State) : m.run s [] = some (s, []) := rfl

variable {rs : List Report} {es : List Event} {s last : State} {ok : State → Event → Prop}
  {I : State → Prop} {G : Report → Prop}

theorem run_cons_eq_some {e : Event} :
    m.run s (e :: es) = some (last, rs) ↔
      ∃ next r rest, m.step s e = some (next, r) ∧ m.run next es = some (last, rest) ∧
        rs = r :: rest := by
  rw [run]
  cases stepped : m.step s e with
  | none => simp
  | some next =>
    simp only [Option.map_eq_some_iff, Option.some.injEq, Prod.mk.injEq, Prod.exists]
    constructor
    · rintro ⟨last', rest, ran, rfl, rfl⟩
      exact ⟨next.1, next.2, rest, rfl, ran, rfl⟩
    · rintro ⟨s', r, rest, rfl, ran, rfl⟩
      exact ⟨last, rest, ran, rfl, rfl⟩

theorem run_append_eq_some {es es' : List Event} :
    m.run s (es ++ es') = some (last, rs) ↔
      ∃ middle first second, m.run s es = some (middle, first) ∧
        m.run middle es' = some (last, second) ∧ rs = first ++ second := by
  induction es generalizing s rs with
  | nil =>
    constructor
    · intro ran
      exact ⟨s, [], rs, rfl, ran, rfl⟩
    · rintro ⟨middle, first, second, here, onward, rfl⟩
      cases here
      exact onward
  | cons e es ih =>
    simp only [List.cons_append, run_cons_eq_some, ih]
    constructor
    · rintro ⟨next, r, -, stepped, ⟨middle, first, second, ran, rest, rfl⟩, rfl⟩
      exact ⟨middle, r :: first, second, ⟨next, r, first, stepped, ran, rfl⟩, rest, rfl⟩
    · rintro ⟨middle, -, second, ⟨next, r, first, stepped, ran, rfl⟩, rest, rfl⟩
      exact ⟨next, r, first ++ second, stepped, ⟨middle, first, second, ran, rest, rfl⟩, rfl⟩

theorem run_snoc_eq_some {r : Report} (ran : m.run s es = some (last, rs ++ [r])) :
    ∃ init e middle, es = init ++ [e] ∧ m.run s init = some (middle, rs) ∧
      m.step middle e = some (last, r) := by
  induction es generalizing s rs with
  | nil =>
    rw [run_nil, Option.some.injEq, Prod.mk.injEq] at ran
    exact absurd ran.2.symm (List.append_ne_nil_of_right_ne_nil rs (List.cons_ne_nil r []))
  | cons e es ih =>
    obtain ⟨next, r', rest, stepped, onward, reports⟩ := m.run_cons_eq_some.mp ran
    cases rs with
    | nil =>
      cases reports
      cases es with
      | nil =>
        cases onward
        exact ⟨[], e, s, rfl, rfl, stepped⟩
      | cons e' es =>
        obtain ⟨_, _, _, -, -, none⟩ := m.run_cons_eq_some.mp onward
        cases none
    | cons p rs =>
      cases reports
      obtain ⟨init, e', middle, rfl, ran', stepped'⟩ := ih onward
      refine ⟨e :: init, e', middle, rfl, ?_, stepped'⟩
      exact m.run_cons_eq_some.mpr ⟨next, r', rs, stepped, ran', rfl⟩

def Along (ok : State → Event → Prop) : State → List Event → Prop
  | _, [] => True
  | s, e :: es => ok s e ∧ ∀ next r, m.step s e = some (next, r) → Along ok next es

variable {m}

theorem invariant_run (keeps : ∀ s e next r, I s → m.step s e = some (next, r) → I next)
    (start : I s) (ran : m.run s es = some (last, rs)) : I last := by
  induction es generalizing s rs with
  | nil =>
    cases ran
    exact start
  | cons e es ih =>
    obtain ⟨next, r, rest, stepped, ran, -⟩ := m.run_cons_eq_some.mp ran
    exact ih (keeps s e next r start stepped) ran

theorem Along.mono {ok ok' : State → Event → Prop} (weaker : ∀ s e, ok s e → ok' s e) {s : State}
    (along : m.Along ok s es) : m.Along ok' s es := by
  induction es generalizing s with
  | nil => trivial
  | cons e es ih => exact ⟨weaker s e along.1, fun next r stepped => ih (along.2 next r stepped)⟩

theorem invariant_along (keeps : ∀ s e next r, I s → ok s e → m.step s e = some (next, r) → I next)
    (start : I s) (along : m.Along ok s es) (ran : m.run s es = some (last, rs)) : I last := by
  induction es generalizing s rs with
  | nil =>
    cases ran
    exact start
  | cons e es ih =>
    obtain ⟨next, r, rest, stepped, ran, -⟩ := m.run_cons_eq_some.mp ran
    exact ih (keeps s e next r start along.1 stepped) (along.2 next r stepped) ran

/-- Where a step keeps an invariant just when it meets the condition, the runs along the condition
are those that keep the invariant all the way. -/
theorem along_iff_invariant
    (exact_step : ∀ s e, I s → (ok s e ↔ ∀ next r, m.step s e = some (next, r) → I next))
    {s : State} (start : I s) :
    m.Along ok s es ↔ ∀ n last rs, m.run s (es.take n) = some (last, rs) → I last := by
  induction es generalizing s with
  | nil =>
    refine iff_of_true trivial fun n last rs ran => ?_
    rw [List.take_nil] at ran
    cases ran
    exact start
  | cons e es ih =>
    constructor
    · rintro ⟨meets, onward⟩ n last rs ran
      cases n with
      | zero =>
        cases ran
        exact start
      | succ n =>
        obtain ⟨next, r, rest, stepped, ran, -⟩ := m.run_cons_eq_some.mp ran
        have kept := (exact_step s e start).mp meets next r stepped
        exact (ih kept).mp (onward next r stepped) n last rest ran
    · intro all
      have kept (next : State) (r : Report) (stepped : m.step s e = some (next, r)) : I next :=
        all 1 next [r] (m.run_cons_eq_some.mpr ⟨next, r, [], stepped, rfl, rfl⟩)
      refine ⟨(exact_step s e start).mpr kept, fun next r stepped => ?_⟩
      refine (ih (kept next r stepped)).mpr fun n last rs ran => ?_
      exact all (n + 1) last (r :: rs) (m.run_cons_eq_some.mpr ⟨next, r, rs, stepped, ran, rfl⟩)

theorem invariant_until {ends : Report → Prop}
    (keeps : ∀ s e next r, I s → m.step s e = some (next, r) → ¬ ends r → I next) (start : I s)
    (ran : m.run s es = some (last, rs)) (quiet : ∀ r ∈ rs, ¬ ends r) : I last := by
  induction es generalizing s rs with
  | nil =>
    cases ran
    exact start
  | cons e es ih =>
    obtain ⟨next, r, rest, stepped, onward, rfl⟩ := m.run_cons_eq_some.mp ran
    apply ih (keeps s e next r start stepped (quiet r List.mem_cons_self)) onward
    intro r' member
    exact quiet r' (List.mem_cons_of_mem r member)

theorem reports_along
    (keeps : ∀ s e next r, I s → ok s e → m.step s e = some (next, r) → I next ∧ G r) (start : I s)
    (along : m.Along ok s es) (ran : m.run s es = some (last, rs)) : ∀ r ∈ rs, G r := by
  induction es generalizing s rs with
  | nil =>
    cases ran
    intro r member
    cases member
  | cons e es ih =>
    obtain ⟨next, r, rest, stepped, onward, rfl⟩ := m.run_cons_eq_some.mp ran
    obtain ⟨kept, first⟩ := keeps s e next r start along.1 stepped
    intro r' member
    rcases List.mem_cons.mp member with rfl | later
    · exact first
    · exact ih kept (along.2 next r stepped) onward r' later

theorem reports_run (keeps : ∀ s e next r, I s → m.step s e = some (next, r) → I next ∧ G r)
    (start : I s) (ran : m.run s es = some (last, rs)) : I last ∧ ∀ r ∈ rs, G r := by
  induction es generalizing s rs with
  | nil =>
    cases ran
    exact ⟨start, nofun⟩
  | cons e es ih =>
    obtain ⟨next, r, rest, stepped, onward, rfl⟩ := m.run_cons_eq_some.mp ran
    obtain ⟨kept, first⟩ := keeps s e next r start stepped
    obtain ⟨ended, later⟩ := ih kept onward
    refine ⟨ended, ?_⟩
    intro r' member
    rcases List.mem_cons.mp member with rfl | member
    · exact first
    · exact later r' member

theorem along_append {s middle : State} {es es' : List Event} (along : m.Along ok s (es ++ es'))
    (ran : m.run s es = some (middle, rs)) : m.Along ok s es ∧ m.Along ok middle es' := by
  induction es generalizing s rs with
  | nil =>
    cases ran
    exact ⟨trivial, along⟩
  | cons e es ih =>
    obtain ⟨next, r, rest, stepped, ran, -⟩ := m.run_cons_eq_some.mp ran
    refine ⟨⟨along.1, ?_⟩, (ih (along.2 next r stepped) ran).2⟩
    intro next' r' stepped'
    rw [stepped] at stepped'
    cases stepped'
    exact (ih (along.2 next r stepped) ran).1

theorem along_of_reports (shows : ∀ s e next r, m.step s e = some (next, r) → G r → ok s e)
    (ran : m.run s es = some (last, rs)) (all : ∀ r ∈ rs, G r) : m.Along ok s es := by
  induction es generalizing s rs with
  | nil => exact trivial
  | cons e es ih =>
    obtain ⟨next, r, rest, stepped, onward, rfl⟩ := m.run_cons_eq_some.mp ran
    refine ⟨shows s e next r stepped (all r List.mem_cons_self), ?_⟩
    intro next' r' stepped'
    rw [stepped] at stepped'
    cases stepped'
    apply ih onward
    intro r' member
    exact all r' (List.mem_cons_of_mem r member)

theorem simulation_along {Abstract : Type x} {m' : Machine Abstract Event Report}
    {ok : State → Event → Prop} {R : State → Abstract → Prop}
    (keeps : ∀ s t e next r, R s t → ok s e → m.step s e = some (next, r) →
      ∃ next', m'.step t e = some (next', r) ∧ R next next')
    {s last : State} {t : Abstract} {es : List Event} {rs : List Report} (start : R s t)
    (along : m.Along ok s es) (ran : m.run s es = some (last, rs)) :
    ∃ last', m'.run t es = some (last', rs) ∧ R last last' := by
  induction es generalizing s t rs with
  | nil =>
    cases ran
    exact ⟨t, rfl, start⟩
  | cons e es ih =>
    obtain ⟨next, r, rest, stepped, onward, rfl⟩ := m.run_cons_eq_some.mp ran
    obtain ⟨next', stepped', related⟩ := keeps s t e next r start along.1 stepped
    obtain ⟨last', ran', related'⟩ := ih related (along.2 next r stepped) onward
    exact ⟨last', m'.run_cons_eq_some.mpr ⟨next', r, rest, stepped', ran', rfl⟩, related'⟩

end Machine

end ProofRay.Lib
