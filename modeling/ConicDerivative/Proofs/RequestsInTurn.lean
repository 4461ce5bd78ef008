import ConicDerivative.Proofs.BatchRuns
import ConicDerivative.Proofs.ShapeFaults

/-!
Batches and single requests. A batch reads all items, then factorizes, then deals the items out to
workers; asking for the items one after another reads and factorizes on the way. If the items have
the right shapes both end the same and leave the same state: the results in order, or the failure of
the first item that fails. This holds from every state, however many workers are asked for.
-/

namespace ConicDerivative.Session.State

open Outcomes

variable {α : Type} [Scalar α] [EigenSolver α] {session : Session α} {state : State session}
  {β γ δ : Type}

/-- Asks for the items one after another, up to the first that fails. -/
def inTurn (ask : State session → β → Outcome α γ × State session) (state : State session) :
    List β → Outcome α (List γ) × State session
  | [] => (.ok [], state)
  | item :: rest =>
    match ask state item with
    | (.ok answer, next) => (inTurn ask next rest).map (·.map (answer :: ·)) id
    | (.error cause, next) => (.error cause, next)

omit [Scalar α] [EigenSolver α] in
theorem inTurn_cons_of_error {ask : State session → β → Outcome α γ × State session} {item : β}
    {rest : List β} {next : State session} {cause : Failure α}
    (failed : ask state item = (.error cause, next)) :
    inTurn ask state (item :: rest) = (.error cause, next) := by
  rw [inTurn, failed]

omit [Scalar α] [EigenSolver α] in
theorem inTurn_cons {ask : State session → β → Outcome α γ × State session} {item : β}
    {rest : List β} {next : State session} {first : Outcome α γ} {others : Outcome α (List γ)}
    (asked : ask state item = (first, next)) (later : inTurn ask next rest = (others, next)) :
    inTurn ask state (item :: rest) =
      (first >>= fun answer => others >>= fun answers => pure (answer :: answers), next) := by
  cases first with
  | error cause => exact inTurn_cons_of_error asked
  | ok answer =>
    rw [inTurn, asked]
    dsimp only
    rw [later]
    cases others with
    | error cause => rfl
    | ok answers => rfl

variable {read : β → Outcome α δ} {items : List β} {values : List δ}
  {request : Linearization α session.program.rows session.program.cols → δ → Outcome α γ}
  {d : Linearization α session.program.rows session.program.cols}

theorem answer_of_ready (ready : state.ready = .ok d)
    (request : Linearization α session.program.rows session.program.cols → Outcome α γ) :
    state.answer request = (request d, { state with prepared := some d }) := by
  rw [answer, ready]

theorem inTurn_of_prepared (prepared : state.prepared = some d)
    (given : List.Forall₂ (fun item value => read item = .ok value) items values) :
    inTurn (fun state item => state.answerWith (read item) request) state items =
      (values.mapM (request d), state) := by
  have ready : state.ready = .ok d := by rw [State.ready, prepared]
  have kept : { state with prepared := some d } = state := by rw [← prepared]
  induction given with
  | nil => rfl
  | @cons item value items values first _ ih =>
    rw [List.mapM_cons]
    refine inTurn_cons ?_ ih
    rw [first, answerWith, answer_of_ready ready, kept]

theorem inTurn_of_ready (ready : state.ready = .ok d) (nonempty : items ≠ [])
    (given : List.Forall₂ (fun item value => read item = .ok value) items values) :
    inTurn (fun state item => state.answerWith (read item) request) state items =
      (values.mapM (request d), { state with prepared := some d }) := by
  cases given with
  | nil => exact absurd rfl nonempty
  | @cons item value items values first others =>
    rw [List.mapM_cons]
    refine inTurn_cons ?_ (inTurn_of_prepared rfl others)
    rw [first, answerWith, answer_of_ready ready]

theorem answerWith_mapM_eq_inTurn (state : State session) (pool : Batch.Pool) (nonempty : items ≠ [])
    (readable : ∀ item ∈ items, ∃ value, read item = .ok value) :
    state.answerWith (items.mapM read) (fun d values => Batch.mapM pool (request d) values) =
      inTurn (fun state item => state.answerWith (read item) request) state items := by
  obtain ⟨values, given⟩ := exists_mapM_iff.2 readable
  have pairs := mapM_eq_ok.1 given
  rw [given, answerWith]
  cases ready : state.ready with
  | ok d => rw [answer_of_ready ready, Batch.mapM_eq, inTurn_of_ready ready nonempty pairs]
  | error cause =>
    cases pairs with
    | nil => exact absurd rfl nonempty
    | @cons item value items values first _ =>
      have failed : state.answerWith (read item) request = (.error cause, state) := by
        rw [first, answerWith, answer, ready]
      rw [inTurn_cons_of_error failed, answer, ready]

theorem forwardAll_eq (state : State session) (pool : Batch.Pool) (changes : List (ChangeData α)) :
    state.forwardAll pool (changes.map ChangeData.parts) =
      state.answerWith (changes.mapM fun change => change.fit session.program.rows session.program.cols)
        fun d changes => Batch.mapM pool d.forward changes := by
  rw [forwardAll, List.mapM_map]
  rfl

theorem backwardAll_eq (state : State session) (pool : Batch.Pool)
    (targets : List (DirectionData α)) :
    state.backwardAll pool (targets.map DirectionData.parts) =
      state.answerWith (targets.mapM fun target => target.fit session.program.rows session.program.cols)
        fun d targets => Batch.mapM pool d.backward targets := by
  rw [backwardAll, List.mapM_map]
  rfl

/--
A batch of triples in the right shapes ends as the single requests do one after another, and leaves
the same state, whatever the state is and however many workers are asked for.
-/
theorem batch_eq_inTurn (state : State session) (pool : Batch.Pool) :
    (∀ changes : List (ChangeData α), changes ≠ [] →
      (∀ change ∈ changes, (Request.forward change).IsShaped session.program.rows
        session.program.cols) →
      state.forwardAll pool (changes.map ChangeData.parts) = state.inTurn forward changes) ∧
    ∀ targets : List (DirectionData α), targets ≠ [] →
      (∀ target ∈ targets, (Request.backward target).IsShaped session.program.rows
        session.program.cols) →
      state.backwardAll pool (targets.map DirectionData.parts) = state.inTurn backward targets := by
  constructor
  · intro changes nonempty shaped
    rw [forwardAll_eq]
    refine answerWith_mapM_eq_inTurn state pool nonempty fun change listed => ?_
    have reports := Request.forward_reports change session.program.rows session.program.cols
    rw [Request.faults_eq_nil_iff.2 (shaped change listed)] at reports
    exact reports.exists_read
  · intro targets nonempty shaped
    rw [backwardAll_eq]
    refine answerWith_mapM_eq_inTurn state pool nonempty fun target listed => ?_
    have reports := Request.backward_reports target session.program.rows session.program.cols
    rw [Request.faults_eq_nil_iff.2 (shaped target listed)] at reports
    exact reports.exists_read

def twoChanges : List (ChangeData Float) :=
  [⟨none, some (.dense (.ofVector (.replicate 1 1))), none⟩, ⟨none, none, none⟩]

theorem batch_eq_inTurn_of_twoChanges :
    (twoChanges ≠ [] ∧ ∀ change ∈ twoChanges, (Request.forward change).IsShaped 1 1) ∧
      ∀ state : State (⟨oneEquation, .lsqr, []⟩ : Session Float),
        state.forwardAll ⟨2, 3⟩ (twoChanges.map ChangeData.parts) =
          state.inTurn forward twoChanges := by
  have nonempty : twoChanges ≠ [] := List.cons_ne_nil _ _
  have shaped : ∀ change ∈ twoChanges, (Request.forward change).IsShaped 1 1 := by decide
  exact ⟨⟨nonempty, shaped⟩, fun state => (batch_eq_inTurn state _).1 twoChanges nonempty shaped⟩

end ConicDerivative.Session.State
