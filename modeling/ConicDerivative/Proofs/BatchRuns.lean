import ConicDerivative.Proofs.SessionCache
import ConicDerivative.SolveBatch

/-!
Batches of programs, entry by entry. Dealing work out to workers changes nothing about its results,
so a batch asks its sessions as if one after another. Whatever a batch has been asked for, each of its
sessions stays at its point and answers as it did at first.
-/

namespace ConicDerivative

open Outcomes

namespace Batch

variable {μ : Type → Type} [Monad μ] [LawfulMonad μ] {β γ : Type}

theorem flatten_mapM (f : β → μ γ) (parts : List (List β)) :
    List.flatten <$> parts.mapM (·.mapM f) = parts.flatten.mapM f := by
  induction parts with
  | nil => simp
  | cons part rest ih => simp [List.mapM_cons, List.mapM_append, ← ih]

/-- However the items are dealt out, their results are those of one worker. -/
theorem mapM_eq (pool : Pool) (f : β → μ γ) (items : List β) :
    mapM pool f items = items.mapM f := by
  unfold mapM
  dsimp only
  split_ifs
  · rfl
  · rw [flatten_mapM, flatten_runs]

end Batch

variable {α : Type} [Scalar α] [EigenSolver α]

namespace Session.Open

def restarted (opened : Open α) : Open α := ⟨opened.session, ⟨opened.state.point, none⟩⟩

/-- The session has been opened as `fresh` and only asked for answers since. -/
structure Continues (opened fresh : Open α) : Prop where
  restarted : opened.restarted = fresh
  coherent : opened.state.Coherent

variable {opened fresh : Open α}

theorem Continues.forward (continues : opened.Continues fresh) (change : ChangeData α) :
    (opened.forward change).1 = (fresh.forward change).1 ∧
      (opened.forward change).2.Continues fresh := by
  obtain ⟨rfl, coherent⟩ := continues
  refine ⟨?_, ?_, ?_⟩
  · exact congrArg (Except.map _) (State.answerWith_fst coherent _ _)
  · have kept := (State.answerWith_snd coherent (change.fit _ _) Linearization.forward).1
    exact congrArg (fun point => (⟨opened.session, ⟨point, none⟩⟩ : Open α)) kept
  · exact (State.answerWith_snd coherent _ _).2

theorem Continues.backward (continues : opened.Continues fresh) (target : DirectionData α) :
    (opened.backward target).1 = (fresh.backward target).1 ∧
      (opened.backward target).2.Continues fresh := by
  obtain ⟨rfl, coherent⟩ := continues
  refine ⟨?_, ?_, ?_⟩
  · exact congrArg (Except.map _) (State.answerWith_fst coherent _ _)
  · have kept := (State.answerWith_snd coherent (target.fit _ _) Linearization.backward).1
    exact congrArg (fun point => (⟨opened.session, ⟨point, none⟩⟩ : Open α)) kept
  · exact (State.answerWith_snd coherent _ _).2

theorem continues_of_new {program : Program α} {point : Option (Sized (Point α))}
    {mode : Setting α} {settings : Settings α}
    (accepted : new program point mode settings = .ok opened) : opened.Continues opened := by
  obtain ⟨_, _, _, placed, _, rfl⟩ := new_eq_ok.1 accepted
  refine ⟨rfl, ?_⟩
  intro d prepared
  cases prepared

end Session.Open

structure Solve.Differentiable.Continues (item fresh : Solve.Differentiable α) : Prop where
  values : item.values = fresh.values
  opened : item.opened.Continues fresh.opened

namespace SolvedBatch

variable {β γ : Type} {batch first : SolvedBatch α}

structure Continues (batch first : SolvedBatch α) : Prop where
  size : batch.size = first.size
  solved : List.Forall₂ Solve.Differentiable.Continues batch.solved first.solved

omit [Scalar α] [EigenSolver α] in
theorem entry_eq_ok {items : List β} {i : Nat} {item : β} :
    (entry items i : Outcome α β) = .ok item ↔ items[i]? = some item := by
  unfold entry
  cases items[i]? with
  | none => simp
  | some other => simp

theorem turn_eq_ok {argument : Nat → Outcome α γ}
    {request : Session.Open α → γ → Outcome α β × Session.Open α} {i : Nat} {answer : β}
    {opened : Session.Open α} : batch.turn argument request i = .ok (answer, opened) ↔
      ∃ item, batch.solved[i]? = some item ∧ ∃ value, argument i = .ok value ∧
        request item.opened value = (.ok answer, opened) := by
  simp only [turn, bind_eq_ok, entry_eq_ok]
  refine exists_congr fun item => and_congr_right fun _ => exists_congr fun value => ?_
  refine and_congr_right fun _ => ?_
  cases request item.opened value with
  | mk outcome next =>
    cases outcome with
    | error cause => simp
    | ok found => simp [pure_eq_ok]

theorem answers_fst (batch : SolvedBatch α) (pool : Batch.Pool) (argument : Nat → Outcome α γ)
    (request : Session.Open α → γ → Outcome α β × Session.Open α) :
    (batch.answers pool argument request).1 =
      (List.range batch.size).mapM fun i => (batch.turn argument request i).map (·.1) := by
  unfold answers
  rw [Batch.mapM_eq, ← map_mapM]
  cases (List.range batch.size).mapM (batch.turn argument request) with
  | error cause => rfl
  | ok results => rfl

/-- The request answers as at first, and leaves the session to answer so again. -/
def Lasts (request : Session.Open α → γ → Outcome α β × Session.Open α) : Prop :=
  ∀ opened fresh, opened.Continues fresh → ∀ value,
    (request opened value).1 = (request fresh value).1 ∧ (request opened value).2.Continues fresh

section

variable {argument : Nat → Outcome α γ}
  {request : Session.Open α → γ → Outcome α β × Session.Open α}

theorem turn_fst (batch : SolvedBatch α) (i : Nat) :
    (batch.turn argument request i).map (·.1) =
      entry batch.solved i >>= fun item => argument i >>= fun value =>
        (request item.opened value).1 := by
  unfold turn
  cases (entry batch.solved i : Outcome α _) with
  | error cause => rfl
  | ok item =>
    cases argument i with
    | error cause => rfl
    | ok value =>
      change Except.map _ ((request item.opened value).1 >>= _) = (request item.opened value).1
      cases (request item.opened value).1 with
      | error cause => rfl
      | ok answer => rfl

theorem Continues.turn_fst (continues : batch.Continues first) (lasts : Lasts request) (i : Nat) :
    (batch.turn argument request i).map (·.1) = (first.turn argument request i).map (·.1) := by
  have lengths := continues.solved.length_eq
  rw [SolvedBatch.turn_fst, SolvedBatch.turn_fst]
  unfold entry
  rcases lt_or_ge i first.solved.length with inside | outside
  · have kept := continues.solved.get (lengths ▸ inside) inside
    rw [List.getElem?_eq_getElem inside, List.getElem?_eq_getElem (lengths ▸ inside)]
    exact congrArg (argument i >>= ·) (funext fun value => (lasts _ _ kept.opened value).1)
  · rw [List.getElem?_eq_none outside, List.getElem?_eq_none (lengths ▸ outside)]

theorem Continues.update (continues : batch.Continues first)
    (covers : first.solved.length ≤ first.size) (lasts : Lasts request)
    {results : List (β × Session.Open α)}
    (success : (List.range batch.size).mapM (batch.turn argument request) = .ok results) :
    (batch.update (results.map (·.2))).Continues first := by
  have related := mapM_eq_ok.1 success
  have places : batch.size = results.length := by
    rw [← related.length_eq, List.length_range]
  have lengths := continues.solved.length_eq
  refine ⟨continues.size, List.forall₂_iff_get.2 ⟨?_, ?_⟩⟩
  · simp only [SolvedBatch.update, List.length_zipWith, List.length_map]
    rw [← places, continues.size, lengths, min_eq_left covers]
  · intro i inside inside'
    have kept := continues.solved.get (lengths ▸ inside') inside'
    have answered : i < results.length := by
      rw [← places, continues.size]
      exact inside'.trans_le covers
    have asked := related.get (by rwa [List.length_range, places]) answered
    simp only [SolvedBatch.update, List.get_eq_getElem, List.getElem_zipWith, List.getElem_map]
    simp only [List.get_eq_getElem, List.getElem_range] at asked kept
    obtain ⟨item, listed, value, _, replied⟩ := turn_eq_ok.1 asked
    obtain ⟨_, rfl⟩ := List.getElem?_eq_some_iff.1 listed
    have next := (lasts _ _ kept.opened value).2
    rw [replied] at next
    exact ⟨kept.values, next⟩

theorem Continues.answers (continues : batch.Continues first)
    (covers : first.solved.length ≤ first.size) (pool : Batch.Pool) (lasts : Lasts request) :
    (batch.answers pool argument request).1 = (first.answers pool argument request).1 ∧
      (batch.answers pool argument request).2.Continues first := by
  constructor
  · rw [answers_fst, answers_fst, continues.size]
    exact congrArg (List.mapM · _) (funext fun i => continues.turn_fst lasts i)
  · unfold SolvedBatch.answers
    rw [Batch.mapM_eq]
    cases success : (List.range batch.size).mapM (batch.turn argument request) with
    | error cause => exact continues
    | ok results => exact continues.update covers lasts success

end

inductive Query (α : Type) where
  | directions (pool : Batch.Pool) (dAs dbs dcs : List (Option (Data α)))
  | gradients (pool : Batch.Pool) (dxs dys dss : List (Option (Data α)))

def ask (batch : SolvedBatch α) : Query α → SolvedBatch α
  | .directions pool dAs dbs dcs => (batch.directions pool dAs dbs dcs).2
  | .gradients pool dxs dys dss => (batch.gradients pool dxs dys dss).2

def askAll (batch : SolvedBatch α) (queries : List (Query α)) : SolvedBatch α :=
  queries.foldl ask batch

variable (continues : batch.Continues first) (covers : first.solved.length ≤ first.size)

include continues covers

theorem Continues.directions (pool : Batch.Pool) (dAs dbs dcs : List (Option (Data α))) :
    (batch.directions pool dAs dbs dcs).1 = (first.directions pool dAs dbs dcs).1 ∧
      (batch.directions pool dAs dbs dcs).2.Continues first := by
  have lasts : Lasts fun opened : Session.Open α => opened.forward := fun _ _ kept => kept.forward
  obtain ⟨same, left⟩ := continues.answers covers pool lasts
  exact ⟨congrArg (Except.map _) same, left⟩

theorem Continues.gradients (pool : Batch.Pool) (dxs dys dss : List (Option (Data α))) :
    (batch.gradients pool dxs dys dss).1 = (first.gradients pool dxs dys dss).1 ∧
      (batch.gradients pool dxs dys dss).2.Continues first := by
  have lasts : Lasts fun opened : Session.Open α => opened.backward :=
    fun _ _ kept => kept.backward
  obtain ⟨same, left⟩ := continues.answers covers pool lasts
  exact ⟨congrArg (Except.map _) same, left⟩

theorem Continues.ask (query : Query α) : (batch.ask query).Continues first := by
  cases query with
  | directions pool dAs dbs dcs => exact (continues.directions covers pool dAs dbs dcs).2
  | gradients pool dxs dys dss => exact (continues.gradients covers pool dxs dys dss).2

theorem Continues.askAll (queries : List (Query α)) : (batch.askAll queries).Continues first := by
  induction queries generalizing batch with
  | nil => exact continues
  | cons query rest ih => exact ih (continues.ask covers query)

omit continues covers

def Replies {δ : Type} (batch : SolvedBatch α)
    (request : Session.Open α → γ → Outcome α β × Session.Open α) (make : δ → δ → δ → γ)
    (firsts seconds thirds : List δ) (i : Nat) (reply : β) : Prop :=
  ∃ item a b c, batch.solved[i]? = some item ∧ firsts[i]? = some a ∧ seconds[i]? = some b ∧
    thirds[i]? = some c ∧ (request item.opened (make a b c)).1 = .ok reply

theorem answers_eq_ok {δ : Type} {pool : Batch.Pool}
    {request : Session.Open α → γ → Outcome α β × Session.Open α} {make : δ → δ → δ → γ}
    {firsts seconds thirds : List δ} {replies : List β} :
    (batch.answers pool
        (fun i => do return make (← entry firsts i) (← entry seconds i) (← entry thirds i))
        request).1 = .ok replies ↔
      List.Forall₂ (batch.Replies request make firsts seconds thirds) (List.range batch.size)
        replies := by
  have turn (i : Nat) (reply : β) : (batch.turn (fun i => do
      return make (← entry firsts i) (← entry seconds i) (← entry thirds i)) request i).map (·.1) =
        .ok reply ↔ batch.Replies request make firsts seconds thirds i reply := by
    simp only [turn_fst, bind_eq_ok, entry_eq_ok, pure_eq_ok]
    constructor
    · rintro ⟨item, listed, _, ⟨a, first, b, second, c, third, rfl⟩, success⟩
      exact ⟨item, a, b, c, listed, first, second, third, success⟩
    · rintro ⟨item, a, b, c, listed, first, second, third, success⟩
      exact ⟨item, listed, _, ⟨a, first, b, second, c, third, rfl⟩, success⟩
  rw [answers_fst, mapM_eq_ok]
  simp only [turn]

theorem directions_eq_ok {pool : Batch.Pool} {dAs dbs dcs : List (Option (Data α))}
    {found : Directions α} : (batch.directions pool dAs dbs dcs).1 = .ok found ↔
      ∃ ds, List.Forall₂ (batch.Replies Session.Open.forward .mk dAs dbs dcs)
        (List.range batch.size) ds ∧ .ofList ds = found := by
  change Except.map _ (batch.forward pool dAs dbs dcs).1 = _ ↔ _
  rw [map_eq_ok]
  exact exists_congr fun ds => and_congr_left fun _ => answers_eq_ok

theorem gradients_eq_ok {pool : Batch.Pool} {dxs dys dss : List (Option (Data α))}
    {found : Gradients α} : (batch.gradients pool dxs dys dss).1 = .ok found ↔
      ∃ gs, List.Forall₂ (batch.Replies Session.Open.backward .mk dxs dys dss)
        (List.range batch.size) gs ∧ .ofList gs = found := by
  change Except.map _ (batch.backward pool dxs dys dss).1 = _ ↔ _
  rw [map_eq_ok]
  exact exists_congr fun gs => and_congr_left fun _ => answers_eq_ok

end SolvedBatch

end ConicDerivative
