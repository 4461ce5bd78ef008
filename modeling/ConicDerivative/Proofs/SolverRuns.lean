import ConicDerivative.SystemSolver
import ConicDerivative.Proofs.Outcomes

/-!
What any calls, one after another, leave of a solver. Solves leave no trace, and of the other calls only
the last one counts, which acts as on a new solver. A solver is ready just after a factorization that
returned, with one exception: an iterative method keeps a matrix if the solve for the fixed vector fails
because of a setting. Settings that can be read as numbers rule this out.
-/

namespace ConicDerivative

open Outcomes

variable {α : Type} [Scalar α]

structure SolverOptions.IsReadable (options : SolverOptions α) : Prop where
  limit : ∀ size, ∃ limit, options.limit size = .ok limit
  tolerances : ∃ tolerances, options.tolerances = .ok tolerances
  residualTol : ∃ tolerance, options.residualTol.number = .ok tolerance

theorem SolverOptions.isReadable_default (method : Method) :
    (default method : SolverOptions α).IsReadable :=
  ⟨fun _ => ⟨_, rfl⟩, ⟨_, rfl⟩, ⟨_, rfl⟩⟩

namespace Factor

variable {options : SolverOptions α} {n : Nat} {A : Operator α n n} {r : Vector α n}

theorem exists_approximate (limit : ∃ limit, options.limit n = .ok limit)
    (tolerances : ∃ tolerances, options.tolerances = .ok tolerances) :
    ∃ z, approximate options A r = .ok z := by
  obtain ⟨limit, limited⟩ := limit
  obtain ⟨tolerances, tolerated⟩ := tolerances
  simp only [approximate, limited, tolerated, bind, Except.bind, pure, Except.pure]
  split_ifs
  · exact ⟨_, rfl⟩
  · exact ⟨_, rfl⟩
  · exact ⟨_, rfl⟩
  · exact ⟨_, rfl⟩

theorem singular_of_iterate_error (readable : options.IsReadable) {cause : Failure α}
    (failed : iterate options A r = .error cause) : ∃ detail, cause = .singular detail := by
  obtain ⟨z, stopped⟩ := exists_approximate (A := A) (r := r) (readable.limit n) readable.tolerances
  obtain ⟨tolerance, read⟩ := readable.residualTol
  by_cases large : tolerance * (if 1 < Vec.norm r then Vec.norm r else 1) < Vec.norm (A.apply z - r)
  · simp only [iterate, stopped, read, bind, Except.bind, if_pos large] at failed
    cases failed
    exact ⟨_, rfl⟩
  · simp only [iterate, stopped, read, bind, Except.bind, if_neg large] at failed
    cases failed

theorem checkRank_of_residualTol (limit : ∃ limit, options.limit n = .ok limit)
    (tolerances : ∃ tolerances, options.tolerances = .ok tolerances) {cause : Failure α}
    (unread : options.residualTol.number = .error cause) :
    (iterative A).checkRank options = .error cause := by
  -- The tolerance is read last, after the iteration.
  obtain ⟨z, stopped⟩ := exists_approximate (A := A) (r := Draws.normal n) limit tolerances
  simp only [checkRank, iterate, stopped, unread, bind, Except.bind]

theorem checkRank_of_error {factor : Factor α n} {cause : Failure α}
    (failed : factor.checkRank options = .error cause) :
    ∃ A, factor = .iterative A ∧ iterate options A (Draws.normal n) = .error cause := by
  cases factor with
  | direct A steps => cases failed
  | iterative A =>
    refine ⟨A, rfl, ?_⟩
    cases solved : iterate options A (Draws.normal n) with
    | ok z => simp [checkRank, solved, bind, Except.bind, pure, Except.pure] at failed
    | error other =>
      simp only [checkRank, solved, bind, Except.bind] at failed
      cases failed
      rfl

theorem ofMatrix_ne_iterative (direct : options.method.isIterative = false) (J : Jacobian α n n) :
    ofMatrix options J ≠ .ok (.iterative A) := by
  intro kept
  cases method : options.method with
  | lsqr | lsmr =>
    rw [method] at direct
    cases direct
  | lu | dense =>
    cases J with
    | operator J => simp [ofMatrix, method] at kept
    | assembled J =>
      simp only [ofMatrix, method] at kept
      split_ifs at kept <;>
        simp only [bind_eq_ok, pure_eq_ok, reduceCtorEq, and_false, exists_false] at kept

end Factor

namespace SystemSolver

/-- What may be handed in to be factorized. -/
inductive Given (α : Type) where
  | nothing
  | matrix (A : Data α)
  | map (A : Sized (Operator α))

def Given.shape : Given α → List Nat
  | nothing => []
  | matrix A => A.shape
  | map A => [A.rows, A.cols]

def Given.read : Given α → Outcome α (Sized (Jacobian α))
  | nothing => .error (.invalid .attribute)
  | map A => .ok ⟨.operator A.value⟩
  | matrix (.sparse _ _ A) => .ok ⟨.assembled (.listed A.toListed)⟩
  | matrix (.dense t) =>
    match t.shape with
    | [rows, cols] =>
      (t.toMat? rows cols).elim (.error (.invalid .value)) fun A => .ok ⟨.assembled (.dense A)⟩
    | rows :: cols :: _ => .error (if rows = cols then .invalid .value else .notSquare t.shape)
    | _ => .error (.invalid .index)

inductive Call (α : Type) where
  | factorize (given : Given α)
  | solve (transposed : Bool) (r : Tensor α)
  | reset

def Call.isChange : Call α → Bool
  | solve .. => false
  | factorize _ | reset => true

/-- A call and what came of it, which is a vector for a solve that returns. -/
structure Entry (α : Type) where
  call : Call α
  outcome : Outcome α (Option (Tensor.Column α))

def factorizeGiven (solver : SystemSolver α) : Given α → Outcome α Unit × SystemSolver α
  | .nothing => solver.factorizeData none false
  | .matrix A => solver.factorizeData (some A) false
  | .map A => solver.factorize ⟨.operator A.value⟩

def perform (solver : SystemSolver α) :
    Call α → Outcome α (Option (Tensor.Column α)) × SystemSolver α
  | .factorize given => (solver.factorizeGiven given).map (·.map fun _ => none) id
  | .solve transposed r => ((solver.solve transposed r).map some, solver)
  | .reset => (.ok none, solver.reset)

/-- The calls with their outcomes, and the solver that they leave. -/
def run (solver : SystemSolver α) : List (Call α) → List (Entry α) × SystemSolver α
  | [] => ([], solver)
  | call :: rest =>
    let done := solver.perform call
    let later := done.2.run rest
    (⟨call, done.1⟩ :: later.1, later.2)

def lastChange (log : List (Entry α)) : Option (Entry α) :=
  (log.filter (·.call.isChange)).getLast?

def attempt (options : SolverOptions α) (given : Given α) : Outcome α (Factored α) :=
  given.read >>= factorization options

/-- The matrix is taken in, and the fixed vector is not solved for, but not for a large residual. -/
def Strands (options : SolverOptions α) (given : Given α) : Prop :=
  ∃ factored cause, attempt options given = .ok factored ∧
    factored.factor.checkRank options = .error cause ∧ ∀ detail, cause ≠ .singular detail

variable {options : SolverOptions α} {solver : SystemSolver α} {given : Given α}

theorem not_strands_of_error {cause : Failure α} (failed : attempt options given = .error cause) :
    ¬Strands options given := by
  rintro ⟨factored, _, kept, _⟩
  rw [failed] at kept
  cases kept

theorem strands_iff {factored : Factored α} (tried : attempt options given = .ok factored) :
    Strands options given ↔ ∃ cause, factored.factor.checkRank options = .error cause ∧
      ∀ detail, cause ≠ .singular detail := by
  constructor
  · rintro ⟨other, cause, kept, failed, apart⟩
    rw [tried] at kept
    cases kept
    exact ⟨cause, failed, apart⟩
  · rintro ⟨cause, failed, apart⟩
    exact ⟨factored, cause, tried, failed, apart⟩

theorem read_cases (given : Given α) :
    (∃ cause, given.read = .error cause ∧
      ∀ solver : SystemSolver α, solver.factorizeGiven given = (.error cause, solver.reset)) ∨
    ∃ A, given.read = .ok A ∧ given.shape = [A.rows, A.cols] ∧
      ∀ solver : SystemSolver α, solver.factorizeGiven given = solver.factorize A := by
  cases given with
  | nothing => exact .inl ⟨_, rfl, fun solver => rfl⟩
  | map A => exact .inr ⟨_, rfl, rfl, fun solver => rfl⟩
  | matrix given =>
    cases given with
    | sparse m n A => exact .inr ⟨_, rfl, rfl, fun solver => rfl⟩
    | dense t =>
      obtain ⟨shape, entries⟩ := t
      rcases shape with _ | ⟨rows, _ | ⟨cols, _ | ⟨depth, rest⟩⟩⟩
      · exact .inl ⟨_, rfl, fun solver => rfl⟩
      · exact .inl ⟨_, rfl, fun solver => rfl⟩
      · obtain ⟨A, cells⟩ : ∃ A, (⟨[rows, cols], entries⟩ : Tensor α).toMat? rows cols = some A :=
          ⟨_, dif_pos rfl⟩
        refine .inr ⟨⟨.assembled (.dense A)⟩, ?_, rfl, fun solver => ?_⟩
        · simp only [Given.read, cells, Option.elim_some]
        · simp only [factorizeGiven, factorizeData, factorizeMatrix, cells]
      · exact .inl ⟨_, rfl, fun solver => rfl⟩

theorem shape_of_factorization {A : Sized (Jacobian α)} {factored : Factored α}
    (success : factorization options A = .ok factored) :
    [A.rows, A.cols] = [factored.size, factored.size] := by
  unfold factorization at success
  split_ifs at success with square
  obtain ⟨factor, _, kept⟩ := bind_eq_ok.1 success
  cases kept
  exact congrArg (fun size => [size, _]) square

theorem factorizeGiven_of_checkRank {factored : Factored α} {cause : Failure α}
    (tried : attempt options given = .ok factored)
    (failed : factored.factor.checkRank options = .error cause)
    (other : ∀ detail, cause ≠ .singular detail) :
    (new options).factorizeGiven given = (.error cause, ⟨options, some factored⟩) := by
  obtain ⟨A, read, made⟩ := bind_eq_ok.1 tried
  rcases read_cases given with ⟨_, unread, _⟩ | ⟨B, read', _, factorized⟩
  · rw [unread] at read
    cases read
  · rw [read'] at read
    cases read
    cases cause with
    | singular detail => exact absurd rfl (other detail)
    | _ => simp only [factorized, factorize, new, made, failed]

theorem factorizeGiven_cases (options : SolverOptions α) (given : Given α) :
    (∃ cause, (new options).factorizeGiven given = (.error cause, new options) ∧
      ¬Strands options given) ∨
    ∃ factored : Factored α, given.shape = [factored.size, factored.size] ∧
      ((new options).factorizeGiven given = (.ok (), ⟨options, some factored⟩) ∧
          ¬Strands options given ∨
        ∃ cause, (new options).factorizeGiven given = (.error cause, ⟨options, some factored⟩) ∧
          Strands options given) := by
  rcases read_cases given with ⟨cause, unread, refused⟩ | ⟨A, read, shape, factorized⟩
  · have failed : attempt options given = .error cause := by
      rw [attempt, unread]
      rfl
    exact .inl ⟨cause, refused _, not_strands_of_error failed⟩
  have tried : attempt options given = factorization options A := by
    rw [attempt, read]
    rfl
  cases made : factorization options A with
  | error cause =>
    refine .inl ⟨cause, ?_, not_strands_of_error (tried.trans made)⟩
    simp only [factorized, factorize, new, made]
    rfl
  | ok factored =>
    have square := shape.trans (shape_of_factorization made)
    rw [strands_iff (tried.trans made)]
    cases checked : factored.factor.checkRank options with
    | ok _ =>
      refine .inr ⟨factored, square, .inl ⟨?_, ?_⟩⟩
      · simp only [factorized, factorize, new, made, checked]
      · rintro ⟨cause, failed, _⟩
        cases failed
    | error cause =>
      by_cases singular : ∃ detail, cause = .singular detail
      · obtain ⟨detail, rfl⟩ := singular
        refine .inl ⟨.singular detail, ?_, ?_⟩
        · simp only [factorized, factorize, new, made, checked]
          rfl
        · rintro ⟨cause, failed, apart⟩
          cases failed
          exact apart detail rfl
      · have apart := not_exists.1 singular
        refine .inr ⟨factored, square, .inr ⟨cause, ?_, cause, rfl, apart⟩⟩
        exact factorizeGiven_of_checkRank (tried.trans made) checked apart

theorem not_strands (safe : options.method.isIterative = false ∨ options.IsReadable) :
    ¬Strands options given := by
  rintro ⟨factored, cause, tried, failed, other⟩
  obtain ⟨A, iterative, unsolved⟩ := Factor.checkRank_of_error failed
  rcases safe with direct | readable
  · obtain ⟨J, _, made⟩ := bind_eq_ok.1 tried
    unfold factorization at made
    split_ifs at made with square
    obtain ⟨factor, kept, same⟩ := bind_eq_ok.1 made
    cases same
    exact Factor.ofMatrix_ne_iterative direct _ (kept.trans (congrArg Except.ok iterative))
  · obtain ⟨detail, singular⟩ := Factor.singular_of_iterate_error readable unsolved
    exact other detail singular

theorem perform_of_isChange {call : Call α} (sets : call.isChange = true) :
    solver.perform call = (new solver.options).perform call := by
  cases call with
  | solve transposed r => cases sets
  | reset => rfl
  | factorize given =>
    have same : solver.factorizeGiven given = (new solver.options).factorizeGiven given := by
      rcases read_cases given with ⟨cause, _, refused⟩ | ⟨A, _, _, factorized⟩
      · rw [refused, refused]
        rfl
      · rw [factorized, factorized]
        rfl
    rw [perform, perform, same]

theorem perform_options (call : Call α) : (solver.perform call).2.options = solver.options := by
  cases call with
  | solve transposed r => rfl
  | reset => rfl
  | factorize given =>
    rw [perform_of_isChange rfl, perform]
    rcases factorizeGiven_cases solver.options given with
      ⟨cause, refused, _⟩ | ⟨factored, _, ⟨kept, _⟩ | ⟨cause, kept, _⟩⟩
    · rw [refused]
      rfl
    · rw [kept]
      rfl
    · rw [kept]
      rfl

/-- The solver is new, or as the last entry that is no solve leaves a new one. -/
inductive Follows (options : SolverOptions α) : Option (Entry α) → SystemSolver α → Prop where
  | new : Follows options none (new options)
  | change {call : Call α} (sets : call.isChange = true) :
    Follows options (some ⟨call, ((SystemSolver.new options).perform call).1⟩)
      ((SystemSolver.new options).perform call).2

namespace Follows

variable {last : Option (Entry α)}

theorem options_eq (follows : Follows options last solver) : solver.options = options := by
  cases follows with
  | new => rfl
  | change sets => exact perform_options _

theorem perform (follows : Follows options last solver) (call : Call α) :
    Follows options (if call.isChange then some ⟨call, (solver.perform call).1⟩ else last)
      (solver.perform call).2 := by
  by_cases sets : call.isChange = true
  · rw [if_pos sets, perform_of_isChange sets, follows.options_eq]
    exact .change sets
  · rw [if_neg sets]
    cases call with
    | solve transposed r => exact follows
    | factorize given => exact absurd rfl sets
    | reset => exact absurd rfl sets

end Follows

omit [Scalar α] in
theorem lastChange_cons (entry : Entry α) (log : List (Entry α)) (last : Option (Entry α)) :
    (lastChange (entry :: log)).or last =
      (lastChange log).or (if entry.call.isChange then some entry else last) := by
  unfold lastChange
  rw [List.filter_cons]
  split_ifs with sets
  · rw [List.getLast?_cons]
    cases (log.filter fun entry => entry.call.isChange).getLast? with
    | none => rfl
    | some later => rfl
  · rfl

theorem Follows.run {last : Option (Entry α)} (follows : Follows options last solver)
    (calls : List (Call α)) :
    Follows options ((lastChange (solver.run calls).1).or last) (solver.run calls).2 := by
  induction calls generalizing solver last with
  | nil => exact follows
  | cons call rest ih =>
    rw [SystemSolver.run, lastChange_cons]
    exact ih (follows.perform call)

theorem run_filter (solver : SystemSolver α) (calls : List (Call α)) :
    (solver.run (calls.filter Call.isChange)).2 = (solver.run calls).2 := by
  induction calls generalizing solver with
  | nil => rfl
  | cons call rest ih =>
    cases call with
    | solve transposed r => exact ih solver
    | factorize given => exact ih _
    | reset => exact ih _

def Succeeds (last : Option (Entry α)) (given : Given α) : Prop :=
  ∃ answer, last = some ⟨.factorize given, .ok answer⟩

/--
A solver is ready just after a factorization that returned. Then it has the size of that matrix, and
solves as a new solver of that matrix does; otherwise it does not solve.
-/
structure Tracks (options : SolverOptions α) (last : Option (Entry α)) (solver : SystemSolver α) :
    Prop where
  ready_iff : solver.isReady = true ↔ ∃ given, Succeeds last given
  size_iff : solver.isReady = true ↔ solver.size? ≠ none
  solves : ∀ given, Succeeds last given → ∃ n, solver.size? = some n ∧ given.shape = [n, n] ∧
    ∀ transposed r, solver.solve transposed r =
      ((new options).factorizeGiven given).2.solve transposed r
  refuses : (¬∃ given, Succeeds last given) →
    ∀ transposed r, solver.solve transposed r = .error .notFactorized

omit [Scalar α] in
theorem size_iff (solver : SystemSolver α) : solver.isReady = true ↔ solver.size? ≠ none := by
  obtain ⟨options, factored⟩ := solver
  cases factored with
  | none => simp [isReady, size?]
  | some factored => simp [isReady, size?]

theorem tracks_of_refused {last : Option (Entry α)} (refused : ∀ given, ¬Succeeds last given) :
    Tracks options last (new options) where
  ready_iff := by simp [isReady, new, refused]
  size_iff := size_iff _
  solves given success := absurd success (refused given)
  refuses _ _ _ := rfl

theorem tracks_of_kept {factored : Factored α} (shape : given.shape = [factored.size, factored.size])
    (kept : (new options).factorizeGiven given = (.ok (), ⟨options, some factored⟩)) :
    Tracks options (some ⟨.factorize given, .ok none⟩) ⟨options, some factored⟩ where
  ready_iff := iff_of_true rfl ⟨given, none, rfl⟩
  size_iff := size_iff _
  solves := by
    rintro other ⟨answer, same⟩
    cases same
    refine ⟨factored.size, rfl, shape, fun transposed r => ?_⟩
    rw [kept]
  refuses unsuccessful := absurd ⟨given, none, rfl⟩ unsuccessful

theorem Follows.tracks_iff {last : Option (Entry α)} (follows : Follows options last solver) :
    Tracks options last solver ↔
      ∀ given outcome, last = some ⟨.factorize given, outcome⟩ → ¬Strands options given := by
  cases follows with
  | new =>
    refine iff_of_true (tracks_of_refused ?_) ?_
    · rintro given ⟨answer, same⟩
      cases same
    · intro given outcome same
      cases same
  | @change call sets =>
    cases call with
    | solve transposed r => cases sets
    | reset =>
      refine iff_of_true (tracks_of_refused ?_) ?_
      · rintro given ⟨answer, same⟩
        cases same
      · intro given outcome same
        cases same
    | factorize given =>
      rcases factorizeGiven_cases options given with
        ⟨cause, refused, unstranded⟩ | ⟨factored, shape, ⟨kept, unstranded⟩ | ⟨cause, kept, stranded⟩⟩
      · rw [SystemSolver.perform, refused]
        refine iff_of_true (tracks_of_refused ?_) ?_
        · rintro other ⟨answer, same⟩
          cases same
        · intro other outcome same
          cases same
          exact unstranded
      · have tracks := tracks_of_kept shape kept
        rw [SystemSolver.perform, kept]
        refine iff_of_true tracks ?_
        intro other outcome same
        cases same
        exact unstranded
      · rw [SystemSolver.perform, kept]
        refine iff_of_false ?_ fun none => none given _ rfl stranded
        intro tracks
        obtain ⟨other, answer, same⟩ := tracks.ready_iff.1 rfl
        cases same

/--
After any calls a solver is ready just if the last change was a factorization that returned, unless that
one stranded it. A direct method is never stranded, nor are settings that can be read as numbers. The
solves among the calls make no difference.
-/
theorem run_tracks_iff (options : SolverOptions α) (calls : List (Call α)) :
    (Tracks options (lastChange ((new options).run calls).1) ((new options).run calls).2 ↔
      ∀ given outcome, lastChange ((new options).run calls).1 = some ⟨.factorize given, outcome⟩ →
        ¬Strands options given) ∧
    (options.method.isIterative = false ∨ options.IsReadable →
      Tracks options (lastChange ((new options).run calls).1) ((new options).run calls).2) ∧
    ((new options).run (calls.filter Call.isChange)).2 = ((new options).run calls).2 := by
  have start : Follows options none (new options) := .new
  have follows := start.run calls
  rw [Option.or_none] at follows
  refine ⟨follows.tracks_iff, ?_, run_filter _ calls⟩
  intro safe
  exact follows.tracks_iff.2 fun given outcome _ => not_strands safe

def single : Given Float := .matrix (.dense (.ofMat (.identity 1)))

def wide : Given Float := .matrix (.dense ⟨[1, 2], #v[1, 1]⟩)

theorem run_tracks_of_wide : (SolverOptions.default .lsqr : SolverOptions Float).IsReadable ∧
    ∀ transposed r, ((new (.default .lsqr)).run [.factorize single, .solve false (.ofVector #v[1]),
      .factorize wide]).2.solve transposed r = .error .notFactorized := by
  have readable := SolverOptions.isReadable_default (α := Float) .lsqr
  have tracks := (run_tracks_iff (.default .lsqr) [.factorize single, .solve false (.ofVector #v[1]),
    .factorize wide]).2.1 (.inr readable)
  refine ⟨readable, tracks.refuses ?_⟩
  rintro ⟨given, answer, same⟩
  have failed (solver : SystemSolver Float) :
      (solver.perform (.factorize wide)).1 = .error (.notSquare [1, 2]) := by
    rw [perform_of_isChange rfl]
    rfl
  simp [run, lastChange, Call.isChange, failed] at same

def hugeTolerance : SolverOptions Float :=
  { SolverOptions.default .lsqr with residualTol := .integer (10 ^ 309) }

theorem perform_of_hugeTolerance : ∃ factor : Factor Float 1,
    (new hugeTolerance).perform (.factorize single) =
      (.error (.invalid .overflow), ⟨hugeTolerance, some ⟨factor⟩⟩) := by
  have infinite : Scalar.isFinite (Setting.ofInt (10 ^ 309) : Float) = false := by decide +kernel
  have unread : hugeTolerance.residualTol.number = .error (.invalid .overflow) := by
    simp only [hugeTolerance, Setting.number, infinite]
    rfl
  obtain ⟨A, tried⟩ : ∃ A : Operator Float 1 1, attempt hugeTolerance single = .ok ⟨.iterative A⟩ :=
    ⟨_, rfl⟩
  have failed : (Factor.iterative A).checkRank hugeTolerance = .error (.invalid .overflow) :=
    Factor.checkRank_of_residualTol ⟨_, rfl⟩ ⟨_, rfl⟩ unread
  have kept := factorizeGiven_of_checkRank tried failed fun detail same => nomatch same
  refine ⟨.iterative A, ?_⟩
  rw [perform, kept]
  rfl

/-- The factorization fails, and the solver is ready all the same. -/
theorem run_not_tracks_of_hugeTolerance :
    lastChange ((new hugeTolerance).run [.factorize single, .solve false (.ofVector #v[1])]).1 =
      some ⟨.factorize single, .error (.invalid .overflow)⟩ ∧
    ((new hugeTolerance).run [.factorize single, .solve false (.ofVector #v[1])]).2.size? = some 1 ∧
    ¬Tracks hugeTolerance
      (lastChange ((new hugeTolerance).run [.factorize single, .solve false (.ofVector #v[1])]).1)
      ((new hugeTolerance).run [.factorize single, .solve false (.ofVector #v[1])]).2 := by
  obtain ⟨factor, kept⟩ := perform_of_hugeTolerance
  have last : lastChange ((new hugeTolerance).run
      [.factorize single, .solve false (.ofVector #v[1])]).1 =
      some ⟨.factorize single, .error (.invalid .overflow)⟩ := by
    simp [run, lastChange, Call.isChange, kept]
  have left : ((new hugeTolerance).run [.factorize single, .solve false (.ofVector #v[1])]).2 =
      ⟨hugeTolerance, some ⟨factor⟩⟩ := by
    simp only [run, kept]
    rfl
  rw [last, left]
  refine ⟨rfl, rfl, ?_⟩
  intro tracks
  obtain ⟨given, answer, same⟩ := tracks.ready_iff.1 rfl
  cases same

end SystemSolver

end ConicDerivative
