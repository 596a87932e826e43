/- One engine over many calls: a runtime that is kept answers like one made for the call, as long as
   every write of a preparation reaches the store. -/

import ProofRay.Answer.Engine
import ProofRay.Engine.Primitives

namespace ProofRay.Answer

open Engine (Crypto PyError stdCrypto)
open Lib (Machine)
open Lib.Guard
open OpenText (RouteDocument)

variable {σ D : Type}

def Fate.Arrives (fate : Fate) : Prop := fate ≠ .overloaded false

theorem Fate.arrives_decided : Fate.decided.Arrives := by
  intro lost
  cases lost

/-- What a caller does with an engine. -/
inductive Operation where
  | call (call : Call)
  | invalidate

section

variable [LinearOrder σ] [Zero σ]

def engineMachine (c : Crypto) (engine : HorizonAnswerEngine σ D) :
    Machine (Option PreparedRuntime) Operation
      (Option (Call × Except PyError (AnsweredResult σ D))) where
  step
    | kept, .call call =>
      some ((answer c engine kept call).2, some (call, (answer c engine kept call).1))
    | _, .invalidate => some (none, none)

def Call.undisturbed (call : Call) : Call :=
  { call with fate := fun _ => .decided, interrupted := none }

def freshAnswer (c : Crypto) (engine : HorizonAnswerEngine σ D) (call : Call) :
    Except PyError (AnsweredResult σ D) :=
  (answer c engine none call.undisturbed).1

def Arrives (kept : Option PreparedRuntime) : Operation → Prop
  | .call call => (∃ runtime, kept = some runtime ∧ runtime.documents = call.documents) ∨
      ∀ document ∈ call.documents, (call.fate document.factId).Arrives
  | .invalidate => True

end

def PreparedRuntime.Sound (engine : HorizonAnswerEngine σ D) (runtime : PreparedRuntime) : Prop :=
  ∃ call : Call, call.undisturbed = call ∧ call.documents = runtime.documents ∧
    prepare engine call = .ok runtime

theorem put_arrives {fate fate' : Fate} (arrives : fate.Arrives) (arrives' : fate'.Arrives)
    (memory : HorizonMemory) (scope factId : Nat) (version value : Int) :
    (memory.put fate scope factId version value).map Prod.snd =
      (memory.put fate' scope factId version value).map Prod.snd := by
  have either (fate : Fate) (arrives : fate.Arrives) :
      fate = .decided ∨ fate = .overloaded true := by
    rcases fate with _ | (_ | _)
    · exact .inl rfl
    · exact absurd rfl arrives
    · exact .inr rfl
  unfold HorizonMemory.put
  split
  · rfl
  · rcases either fate arrives with rfl | rfl <;> rcases either fate' arrives' with rfl | rfl <;>
      simp only [require] <;> split <;> rfl

variable {documents : List RouteDocument} {scopeId : Nat}

theorem admitAll_cons {fate : Nat → Fate} {document : RouteDocument} {memory : HorizonMemory} :
    admitAll scopeId fate (document :: documents) memory =
      (memory.put (fate document.factId) scopeId document.factId document.version 1).map Prod.snd >>=
        admitAll scopeId fate documents := by
  rw [admitAll]
  cases memory.put (fate document.factId) scopeId document.factId document.version 1 with
  | error e => rfl
  | ok answer => rfl

theorem admitAll_congr {fate fate' : Nat → Fate}
    (arrive : ∀ document ∈ documents, (fate document.factId).Arrives)
    (arrive' : ∀ document ∈ documents, (fate' document.factId).Arrives) (memory : HorizonMemory) :
    admitAll scopeId fate documents memory = admitAll scopeId fate' documents memory := by
  induction documents generalizing memory with
  | nil => rfl
  | cons document documents ih =>
    obtain ⟨here, later⟩ := List.forall_mem_cons.mp arrive
    obtain ⟨here', later'⟩ := List.forall_mem_cons.mp arrive'
    have onward : admitAll scopeId fate documents = admitAll scopeId fate' documents :=
      funext (ih later later')
    rw [admitAll_cons, admitAll_cons, put_arrives here here', onward]

variable {runtime : PreparedRuntime} {call : Call}

theorem prepare_undisturbed {engine : HorizonAnswerEngine σ D} {call call' : Call}
    (documents : call'.documents = call.documents)
    (arrive : ∀ document ∈ call.documents, (call.fate document.factId).Arrives)
    (prepared : prepare engine call = .ok runtime) :
    prepare engine call'.undisturbed = .ok runtime := by
  simp only [prepare, bind_eq_ok, pure_eq_ok] at prepared ⊢
  obtain ⟨index, indexed, -, -, memory, admitted, rfl⟩ := prepared
  refine ⟨index, documents ▸ indexed, (), rfl, memory, ?_, by rw [← documents]; rfl⟩
  rw [← admitted]
  show admitAll _ _ call'.documents _ = _
  rw [documents]
  exact admitAll_congr (fun document _ => Fate.arrives_decided) arrive _

theorem documents_of_prepare {engine : HorizonAnswerEngine σ D}
    (prepared : prepare engine call = .ok runtime) : runtime.documents = call.documents := by
  simp only [prepare, bind_eq_ok, pure_eq_ok] at prepared
  obtain ⟨index, -, -, -, memory, -, rfl⟩ := prepared
  rfl

theorem PreparedRuntime.Sound.prepared {engine : HorizonAnswerEngine σ D}
    (sound : runtime.Sound engine) (documents : runtime.documents = call.documents) :
    prepare engine call.undisturbed = .ok runtime := by
  obtain ⟨call', same, documents', prepared⟩ := sound
  refine prepare_undisturbed (documents.symm.trans documents'.symm) (fun document _ => ?_) prepared
  rw [← same]
  exact Fate.arrives_decided

theorem sound_of_prepareRuntime {engine : HorizonAnswerEngine σ D}
    {kept kept' : Option PreparedRuntime} {outcome : Except PyError PreparedRuntime}
    (sound : ∀ runtime ∈ kept, runtime.Sound engine) (arrives : Arrives kept (.call call))
    (ran : prepareRuntime engine kept call = (outcome, kept')) :
    (∀ runtime ∈ kept', runtime.Sound engine) ∧
      ∀ runtime, outcome = .ok runtime →
        runtime.Sound engine ∧ runtime.documents = call.documents := by
  unfold prepareRuntime at ran
  split at ran
  · rename_i runtime found
    cases ran
    obtain ⟨held, same⟩ := Option.filter_eq_some_iff.mp found
    refine ⟨sound, fun runtime' here => ?_⟩
    cases here
    exact ⟨sound runtime held, of_decide_eq_true same⟩
  · rename_i none_found
    have arrive : ∀ document ∈ call.documents, (call.fate document.factId).Arrives := by
      refine arrives.resolve_left ?_
      rintro ⟨runtime, rfl, same⟩
      simp [Option.filter, same] at none_found
    split at ran
    · cases ran
      exact ⟨sound, fun runtime here => (by cases here)⟩
    · rename_i replacement made
      have made_sound : replacement.Sound engine :=
        ⟨call.undisturbed, rfl, (documents_of_prepare made).symm,
          prepare_undisturbed rfl arrive made⟩
      split at ran
      · cases ran
        exact ⟨fun runtime here => (by cases here), fun runtime here => (by cases here)⟩
      · cases ran
        refine ⟨fun runtime here => ?_, fun runtime here => ?_⟩
        · cases here
          exact made_sound
        · cases here
          exact ⟨made_sound, documents_of_prepare made⟩

section

variable [LinearOrder σ] [Zero σ] {c : Crypto} {engine : HorizonAnswerEngine σ D}

theorem freshAnswer_eq {call : Call} {runtime : PreparedRuntime}
    (unique : (call.documents.map fun document => document.factId).Nodup)
    (prepared : prepare engine call.undisturbed = .ok runtime) :
    freshAnswer c engine call =
      respond c engine runtime.index runtime.memory call.question call.documents call.intents := by
  have locked : (answerLocked c engine none call.undisturbed).1 =
      respond c engine runtime.index runtime.memory call.question call.documents call.intents := by
    have unique' : (call.undisturbed.documents.map fun document => document.factId).Nodup := unique
    unfold answerLocked
    rw [if_pos unique']
    simp only [prepareRuntime, Option.filter_none, prepared]
    rfl
  unfold freshAnswer answer
  split
  · rename_i e kept failed
    rw [← locked, failed]
  · rename_i result kept returned
    rw [← locked, returned]

theorem sound_of_answer {kept kept' : Option PreparedRuntime} {call : Call}
    {outcome : Except PyError (AnsweredResult σ D)}
    (sound : ∀ runtime ∈ kept, runtime.Sound engine) (arrives : Arrives kept (.call call))
    (ran : answer c engine kept call = (outcome, kept')) :
    (∀ runtime ∈ kept', runtime.Sound engine) ∧
      ∀ result, outcome = .ok result → freshAnswer c engine call = .ok result := by
  unfold answer answerLocked at ran
  by_cases unique : (call.documents.map fun document => document.factId).Nodup
  · rw [if_pos unique] at ran
    cases prepared : prepareRuntime engine kept call with
    | mk first after =>
      obtain ⟨after_sound, runtime_sound⟩ := sound_of_prepareRuntime sound arrives prepared
      rw [prepared] at ran
      cases first with
      | error e =>
        cases ran
        exact ⟨fun runtime here => (by cases here), fun result here => (by cases here)⟩
      | ok runtime =>
        obtain ⟨here, documents⟩ := runtime_sound runtime rfl
        have fresh := freshAnswer_eq (c := c) unique (here.prepared documents)
        simp only at ran
        split at ran
        · cases ran
          exact ⟨fun runtime here => (by cases here), fun result here => (by cases here)⟩
        · rename_i result kept'' returned
          cases ran
          obtain ⟨answered, rfl⟩ := Prod.mk.inj returned
          constructor
          · intro runtime' member
            split at member
            · exact after_sound runtime' member
            · cases member
          · intro result' same
            cases same
            obtain ⟨-, -, responded⟩ := bind_eq_ok.mp answered
            rw [fresh, responded]
  · rw [if_neg unique] at ran
    cases ran
    exact ⟨fun runtime here => (by cases here), fun result here => (by cases here)⟩

/-- In every run of an engine whose preparations have all their writes arrive, each returned result
is the one a newly created engine returns for that call alone. -/
theorem reused_runtime_answers (c : Crypto) (engine : HorizonAnswerEngine σ D)
    (operations : List Operation) {last : Option PreparedRuntime}
    {reports : List (Option (Call × Except PyError (AnsweredResult σ D)))}
    (ran : (engineMachine c engine).run none operations = some (last, reports))
    (arrives : (engineMachine c engine).Along Arrives none operations) :
    ∀ call result, some (call, .ok result) ∈ reports → freshAnswer c engine call = .ok result := by
  have reports_fresh := Machine.reports_along
    (I := fun kept => ∀ runtime ∈ kept, runtime.Sound engine)
    (G := fun r => ∀ call result, r = some (call, .ok result) →
      freshAnswer c engine call = .ok result)
    (fun kept operation kept' r sound arrives stepped => by
      cases operation with
      | call call =>
        cases stepped
        obtain ⟨kept_sound, fresh⟩ := sound_of_answer sound arrives rfl
        refine ⟨kept_sound, fun call' result same => ?_⟩
        obtain ⟨rfl, returned⟩ := Prod.mk.inj (Option.some.inj same)
        exact fresh result returned
      | invalidate =>
        cases stepped
        exact ⟨fun runtime here => (by cases here), fun call result same => (by cases same)⟩)
    (fun runtime here => (by cases here)) arrives ran
  intro call result member
  exact reports_fresh _ member call result rfl

end

def note : RouteDocument :=
  ⟨⟨7, "Ada lives in Lisbon.", 1, "s1", 1, "chat", none, none, none, none, none, none, none⟩,
    by decide⟩

def noteEngine : HorizonAnswerEngine Int Unit where
  scopeId := 1
  sessionId := "s1"
  claimLimit := 4
  answerBytes := 100
  answerSelector := "diversity"
  priorityAwareMerge := false
  allowScopeFallback := false
  reusePreparedRuntime := true
  candidateGenerator query index _ sameSession :=
    .ok ((index.eligible query sameSession).map fun document =>
      ⟨document.factId, 1, 1, false, none, unspanned⟩)
  stages := {
    documentPriority := none
    budgetedItems := fun result _ => .ok result.items
    buildDossiers := fun _ _ _ _ => .ok ()
    compose := fun _ _ _ _ _ => .ok ⟨[], [], none, [], 0⟩
    readDirectAnswer := fun _ _ _ _ => .notAttempted }

def askAbout (fate : Fate) : Call :=
  ⟨"Where does Ada live?", [note], [], fun _ => fate, none⟩

def askTwice : List Operation := [.call (askAbout .decided), .call (askAbout .decided)]

def overloadThenAsk : List Operation :=
  [.call (askAbout (.overloaded false)), .call (askAbout .decided)]

theorem reused_runtime_answers_note : ∃ last reports,
    (engineMachine stdCrypto noteEngine).run none askTwice = some (last, reports) ∧
    ∀ call result, some (call, .ok result) ∈ reports →
      freshAnswer stdCrypto noteEngine call = .ok result :=
  ⟨_, _, rfl, reused_runtime_answers stdCrypto noteEngine askTwice rfl
    ⟨.inr fun _ _ => Fate.arrives_decided, fun _ _ _ =>
      ⟨.inr fun _ _ => Fate.arrives_decided, fun _ _ _ => trivial⟩⟩⟩

/-- After a lost write the engine answers the next call from the store without the note: a new engine
answers it. -/
theorem reuses_lost_write : ∃ last reports,
    (engineMachine stdCrypto noteEngine).run none overloadThenAsk = some (last, reports) ∧
    ¬∀ call result, some (call, .ok result) ∈ reports →
      freshAnswer stdCrypto noteEngine call = .ok result := by
  refine ⟨_, _, rfl, fun fresh => ?_⟩
  have abstains := fresh (askAbout .decided) (abstained RouteState.abstention.name 1)
    (List.mem_cons_of_mem _ List.mem_cons_self)
  have resolves : (freshAnswer stdCrypto noteEngine (askAbout .decided)).map AnsweredResult.state =
    .ok "RESOLVED" := rfl
  rw [abstains] at resolves
  exact absurd (Except.ok.inj resolves) (by decide)

end ProofRay.Answer
