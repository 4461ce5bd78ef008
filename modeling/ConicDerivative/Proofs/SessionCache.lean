import ConicDerivative.Proofs.Outcomes
import ConicDerivative.Session

/-!
What a session keeps between requests is never seen in its answers. Whatever was asked for before, a
session answers as one that was just opened at the point last moved to. This holds as long as the
factorization that is kept is the one that would be made now, and every request leaves it so.
-/

namespace ConicDerivative.Session

open Outcomes

variable {α : Type} [Scalar α] [EigenSolver α] {session : Session α}

inductive Request (α : Type) where
  | forward (change : ChangeData α)
  | backward (target : DirectionData α)
  | forwardAll (pool : Batch.Pool) (changes : List (List (Option (Data α))))
  | backwardAll (pool : Batch.Pool) (targets : List (List (Option (Data α))))
  | factorize
  | moveTo (point : Sized (Point α))

inductive Reply (α : Type) (m n : Nat) where
  | direction (outcome : Outcome α (Direction α m n))
  | gradient (outcome : Outcome α (Gradient α m n))
  | directions (outcome : Outcome α (List (Direction α m n)))
  | gradients (outcome : Outcome α (List (Gradient α m n)))
  | done (outcome : Outcome α Unit)

namespace State

def perform (state : State session) :
    Request α → Reply α session.program.rows session.program.cols × State session
  | .forward change => (state.forward change).map .direction id
  | .backward target => (state.backward target).map .gradient id
  | .forwardAll pool changes => (state.forwardAll pool changes).map .directions id
  | .backwardAll pool targets => (state.backwardAll pool targets).map .gradients id
  | .factorize => state.factorize.map .done id
  | .moveTo point => (state.moveTo point).map .done id

def track (state : State session) (last : Option (Sized (Point α))) (request : Request α) :
    State session × Option (Sized (Point α)) :=
  let (reply, next) := state.perform request
  match request, reply with
  | .moveTo point, .done (.ok ()) => (next, some point)
  | _, _ => (next, last)

def run (state : State session) (last : Option (Sized (Point α))) :
    List (Request α) → State session × Option (Sized (Point α))
  | [] => (state, last)
  | request :: rest =>
    let (next, last) := state.track last request
    run next last rest

/-- What is prepared is what the session prepares at the current point. -/
def Coherent (state : State session) : Prop :=
  ∀ d, state.prepared = some d → ∃ point, state.point = some point ∧ session.prepare point = .ok d

/-- A coherent state at a point that has been handed in, or at none. -/
structure Follows (state : State session) (last : Option (Sized (Point α))) : Prop where
  placed : last.mapM (Point.fit · session.program.rows session.program.cols) = .ok state.point
  coherent : state.Coherent

variable {state : State session} {last : Option (Sized (Point α))} {β γ : Type}

theorem Coherent.ready_eq (coherent : state.Coherent) :
    state.ready = ready ⟨state.point, none⟩ := by
  cases prepared : state.prepared with
  | none =>
    obtain ⟨point, kept⟩ := state
    rw [show kept = none from prepared]
  | some d =>
    obtain ⟨point, placed, made⟩ := coherent d prepared
    simp only [ready, prepared, placed, made]

theorem ready_ok (coherent : state.Coherent)
    {d : Linearization α session.program.rows session.program.cols} (success : state.ready = .ok d) :
    ∃ point, state.point = some point ∧ session.prepare point = .ok d := by
  rw [coherent.ready_eq] at success
  cases placed : state.point with
  | none => simp [ready, placed] at success
  | some point =>
    simp only [ready, placed] at success
    exact ⟨point, rfl, success⟩

theorem answer_fst (state : State session)
    (request : Linearization α session.program.rows session.program.cols → Outcome α β) :
    (state.answer request).1 = state.ready >>= request := by
  unfold answer
  cases state.ready with
  | error cause => rfl
  | ok d => rfl

theorem answer_snd (coherent : state.Coherent)
    (request : Linearization α session.program.rows session.program.cols → Outcome α β) :
    (state.answer request).2.point = state.point ∧ (state.answer request).2.Coherent := by
  unfold answer
  cases made : state.ready with
  | error cause => exact ⟨rfl, coherent⟩
  | ok d =>
    refine ⟨rfl, ?_⟩
    intro kept same
    cases same
    exact ready_ok coherent made

theorem answerWith_fst (coherent : state.Coherent) (argument : Outcome α γ)
    (request : Linearization α session.program.rows session.program.cols → γ → Outcome α β) :
    (state.answerWith argument request).1 =
      (answerWith ⟨state.point, none⟩ argument request).1 := by
  cases argument with
  | error cause => rfl
  | ok value =>
    simp only [answerWith, answer_fst]
    rw [coherent.ready_eq]

theorem answerWith_snd (coherent : state.Coherent) (argument : Outcome α γ)
    (request : Linearization α session.program.rows session.program.cols → γ → Outcome α β) :
    (state.answerWith argument request).2.point = state.point ∧
      (state.answerWith argument request).2.Coherent := by
  cases argument with
  | error cause => exact ⟨rfl, coherent⟩
  | ok value => exact answer_snd coherent _

omit [Scalar α] [EigenSolver α] in
theorem moveTo_of_error {point : Sized (Point α)} {cause : Failure α}
    (rejected : (state.moveTo point).1 = .error cause) : (state.moveTo point).2 = state := by
  unfold moveTo at rejected ⊢
  cases fitted : Point.fit point session.program.rows session.program.cols with
  | error other => rfl
  | ok value =>
    rw [fitted] at rejected
    cases rejected

theorem factorize_of_error {cause : Failure α} (failed : state.factorize.1 = .error cause) :
    state.factorize.2.point = state.point ∧ state.factorize.2.prepared = none := by
  unfold factorize answer at failed ⊢
  cases made : state.ready with
  | ok d =>
    rw [made] at failed
    cases failed
  | error other =>
    refine ⟨rfl, ?_⟩
    cases prepared : state.prepared with
    | none => rfl
    | some d => simp [ready, prepared] at made

/-- A coherent state answers every request as if it had just been placed at its point. -/
theorem perform_fst (coherent : state.Coherent) (request : Request α) :
    (state.perform request).1 = (perform ⟨state.point, none⟩ request).1 := by
  cases request with
  | forward change => exact congrArg Reply.direction (answerWith_fst coherent _ _)
  | backward target => exact congrArg Reply.gradient (answerWith_fst coherent _ _)
  | forwardAll pool changes => exact congrArg Reply.directions (answerWith_fst coherent _ _)
  | backwardAll pool targets => exact congrArg Reply.gradients (answerWith_fst coherent _ _)
  | factorize =>
    have same : state.factorize.1 = (factorize ⟨state.point, none⟩).1 := by
      unfold factorize
      rw [answer_fst, answer_fst, coherent.ready_eq]
    exact congrArg Reply.done same
  | moveTo point =>
    have same : (state.moveTo point).1 = (moveTo ⟨state.point, none⟩ point).1 := by
      unfold moveTo
      cases Point.fit point session.program.rows session.program.cols with
      | error cause => rfl
      | ok value => rfl
    exact congrArg Reply.done same

theorem Follows.track (follows : state.Follows last) (request : Request α) :
    (state.track last request).1.Follows (state.track last request).2 := by
  obtain ⟨placed, coherent⟩ := follows
  cases request with
  | forward change =>
    obtain ⟨same, kept⟩ := answerWith_snd coherent _ Linearization.forward
    exact ⟨placed.trans (congrArg Except.ok same.symm), kept⟩
  | backward target =>
    obtain ⟨same, kept⟩ := answerWith_snd coherent _ Linearization.backward
    exact ⟨placed.trans (congrArg Except.ok same.symm), kept⟩
  | forwardAll pool changes =>
    obtain ⟨same, kept⟩ := answerWith_snd coherent _ _
    exact ⟨placed.trans (congrArg Except.ok same.symm), kept⟩
  | backwardAll pool targets =>
    obtain ⟨same, kept⟩ := answerWith_snd coherent _ _
    exact ⟨placed.trans (congrArg Except.ok same.symm), kept⟩
  | factorize =>
    obtain ⟨same, kept⟩ := answer_snd coherent fun _ => .ok ()
    exact ⟨placed.trans (congrArg Except.ok same.symm), kept⟩
  | moveTo point =>
    cases fitted : Point.fit point session.program.rows session.program.cols with
    | error cause =>
      have unmoved : state.track last (.moveTo point) = (state, last) := by
        simp only [State.track, perform, moveTo, fitted, Prod.map, id]
      rw [unmoved]
      exact ⟨placed, coherent⟩
    | ok value =>
      have moved : state.track last (.moveTo point) = (⟨some value, none⟩, some point) := by
        simp only [State.track, perform, moveTo, fitted, Prod.map, id]
      rw [moved]
      refine ⟨?_, ?_⟩
      · simp only [Option.mapM, fitted]
        rfl
      · intro d prepared
        cases prepared

theorem Follows.run (follows : state.Follows last) (requests : List (Request α)) :
    (state.run last requests).1.Follows (state.run last requests).2 := by
  induction requests generalizing state last with
  | nil => exact follows
  | cons request rest ih => exact ih (follows.track request)

end State

variable {program : Program α} {mode : Setting α} {settings : Settings α}

theorem new_eq_ok {point : Option (Sized (Point α))} {opened : Open α} :
    new program point mode settings = .ok opened ↔
      (reservedNames.any fun name => (settings.get? name).isSome) = false ∧
      ∃ method, mode.method? = some method ∧
      ∃ placed, point.mapM (Point.fit · program.rows program.cols) = .ok placed ∧
        opened = ⟨⟨program, method, settings⟩, ⟨placed, none⟩⟩ := by
  have reading : new program point mode settings =
      if reservedNames.any fun name => (settings.get? name).isSome then .error (.invalid .type)
      else mode.method?.elim (.error (.unknownMode mode)) fun method =>
        (point.mapM (Point.fit · program.rows program.cols)).map fun placed =>
          ⟨⟨program, method, settings⟩, ⟨placed, none⟩⟩ := by
    unfold new
    split_ifs with reserved
    · rfl
    · cases mode.method? with
      | none => rfl
      | some method =>
        cases point with
        | none => rfl
        | some given =>
          simp only [State.moveTo, Option.mapM]
          cases Point.fit given program.rows program.cols with
          | error cause => rfl
          | ok value => rfl
  rw [reading]
  split_ifs with reserved
  · constructor
    · intro opened
      cases opened
    · rintro ⟨allowed, _⟩
      rw [reserved] at allowed
      cases allowed
  · cases known : mode.method? with
    | none => simp
    | some method =>
      cases fitted : point.mapM (Point.fit · program.rows program.cols) with
      | error cause => simp [Except.map]
      | ok placed => simp [Except.map, reserved, eq_comm]

/--
After any requests a session is coherent, and answers every further one as a session that is opened
at the point last moved to. A move that is rejected changes nothing; a factorization that fails
leaves the point, and no factorization.
-/
theorem perform_eq_fresh {point : Option (Sized (Point α))} {opened : Open α}
    (accepted : new program point mode settings = .ok opened) (requests : List (Request α)) :
    (∃ fresh, new program (opened.state.run point requests).2 mode settings =
        .ok ⟨opened.session, fresh⟩ ∧
      ∀ request, ((opened.state.run point requests).1.perform request).1 =
        (fresh.perform request).1) ∧
    (opened.state.run point requests).1.Coherent ∧
    (∀ moved cause, ((opened.state.run point requests).1.moveTo moved).1 = .error cause →
      ((opened.state.run point requests).1.moveTo moved).2 =
        (opened.state.run point requests).1) ∧
    ∀ cause, (opened.state.run point requests).1.factorize.1 = .error cause →
      (opened.state.run point requests).1.factorize.2.point =
          (opened.state.run point requests).1.point ∧
        (opened.state.run point requests).1.factorize.2.prepared = none := by
  obtain ⟨allowed, method, known, placed, fitted, rfl⟩ := new_eq_ok.1 accepted
  have start : (⟨placed, none⟩ : State ⟨program, method, settings⟩).Follows point := by
    refine ⟨fitted, ?_⟩
    intro d prepared
    cases prepared
  obtain ⟨placed', coherent⟩ := start.run requests
  refine ⟨⟨⟨_, none⟩, new_eq_ok.2 ⟨allowed, method, known, _, placed', rfl⟩, ?_⟩, coherent, ?_, ?_⟩
  · exact fun request => State.perform_fst coherent request
  · exact fun moved cause rejected => State.moveTo_of_error rejected
  · exact fun cause failed => State.factorize_of_error failed

def oneEquation : Program Float := ⟨.identity 1, #v[2], #v[1], [⟨.cone .zero, 1, 0, 1⟩], rfl⟩

theorem perform_eq_fresh_of_moves : ∃ opened : Open Float,
    new oneEquation none (.text "lu") [] = .ok opened ∧
    ∃ fresh, new oneEquation (opened.state.run none [.factorize, .moveTo ⟨⟨#v[2], #v[-1], #v[0]⟩⟩,
        .factorize, .moveTo ⟨⟨#v[2, 2], #v[-1], #v[0]⟩⟩]).2 (.text "lu") [] =
        .ok ⟨opened.session, fresh⟩ ∧
      ∀ request, ((opened.state.run none [.factorize, .moveTo ⟨⟨#v[2], #v[-1], #v[0]⟩⟩, .factorize,
          .moveTo ⟨⟨#v[2, 2], #v[-1], #v[0]⟩⟩]).1.perform request).1 =
        (fresh.perform request).1 := by
  have accepted : new oneEquation none (.text "lu") [] =
      .ok ⟨⟨oneEquation, .lu, []⟩, .start⟩ := rfl
  exact ⟨_, accepted, (perform_eq_fresh accepted _).1⟩

end ConicDerivative.Session
