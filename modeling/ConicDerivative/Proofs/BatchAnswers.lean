import ConicDerivative.Proofs.BatchRuns
import ConicDerivative.Proofs.DrawnPrograms
import ConicDerivative.Proofs.SteadySolvers

/-!
A batch answers as its programs do one by one. The solution and the derivatives of each program stand
at its place, however many workers there are and whatever the batch was asked before. Where one
program fails alone, so does the batch, and nothing is returned.
-/

namespace ConicDerivative

open Outcomes Consulting Solve

theorem Outcomes.forall₂_ofFn {β γ : Type} {R : β → γ → Prop} {n : Nat} {items : Fin n → β}
    {results : List γ} : List.Forall₂ R (List.ofFn items) results ↔
      ∃ found : Fin n → γ, (∀ i, R (items i) (found i)) ∧ results = List.ofFn found := by
  constructor
  · intro related
    have length : n = results.length := by simpa using related.length_eq
    subst length
    refine ⟨results.get, fun i => ?_, (List.ofFn_get results).symm⟩
    have here := related.get (by simp) i.isLt
    simpa using here
  · rintro ⟨found, related, rfl⟩
    refine List.forall₂_iff_get.2 ⟨by simp, fun i inside inside' => ?_⟩
    simpa using related ⟨i, by simpa using inside⟩

variable {α : Type} {n : Nat}

namespace BatchData

structure HasLength (data : BatchData α) (n : Nat) : Prop where
  matrices : data.matrices.length = n
  offsets : data.offsets.length = n
  objectives : data.objectives.length = n
  cones : data.cones.length = n
  warmStarts : ∀ given ∈ data.warmStarts, given.length = n

variable {data : BatchData α}

theorem programs_eq (lengths : data.HasLength n) : data.programs = List.ofFn fun i : Fin n =>
    (data.matrices.get (i.cast lengths.matrices.symm),
      data.offsets.get (i.cast lengths.offsets.symm),
      data.objectives.get (i.cast lengths.objectives.symm),
      data.cones.get (i.cast lengths.cones.symm),
      data.warmStarts.bind fun given => given[i.val]?.join) := by
  obtain ⟨matrices, offsets, objectives, cones, warmStarts⟩ := data
  obtain ⟨rfl, offsets', objectives', cones', warmStarts'⟩ := lengths
  cases warmStarts with
  | none =>
    refine List.ext_getElem ?_ fun i inside inside' => ?_
    · simp_all [programs]
    · simp [programs]
  | some given =>
    have given' := warmStarts' given rfl
    refine List.ext_getElem ?_ fun i inside inside' => ?_
    · simp_all [programs]
    · have within : i < given.length := by simp_all
      simp [programs, within]

variable [Scalar α] [EigenSolver α]

/-- The run for the program whose parts stand at one place of the lists. -/
def alone (data : BatchData α) (lengths : data.HasLength n) (solvers : Solvers α)
    (request : Request α) (mode : Setting α) (derivative : Option (Settings α)) (i : Fin n) :
    Consulting α (Differentiable α) :=
  withDerivative solvers (data.matrices.get (i.cast lengths.matrices.symm))
    (data.offsets.get (i.cast lengths.offsets.symm))
    (data.objectives.get (i.cast lengths.objectives.symm))
    (data.cones.get (i.cast lengths.cones.symm))
    { request with warmStart := data.warmStarts.bind fun given => given[i.val]?.join } mode derivative

end BatchData

namespace Solve

variable [Scalar α] [EigenSolver α]

theorem Differentiable.continues_self {solvers : Solvers α} {A : Data α} {b c : Tensor α}
    {cones : ConeTable} {request : Request α} {mode : Setting α} {derivative : Option (Settings α)}
    {log : Log α} {item : Differentiable α} (success : (after
      (withDerivative solvers A b c cones request mode derivative) log).1 = .ok item) :
    item.Continues item := by
  obtain ⟨program, _, success⟩ := after_bind_eq_ok.1 success
  obtain ⟨solution, _, success⟩ := after_bind_eq_ok.1 success
  obtain ⟨⟨values, point⟩, _, success⟩ := after_bind_eq_ok.1 success
  cases derivative with
  | none => cases success
  | some settings =>
    obtain ⟨opened, accepted, success⟩ := after_bind_eq_ok.1 success
    cases success
    have opening : Session.new program (some point) mode settings = .ok opened :=
      (congrArg Prod.fst (after_ofExcept _ _)).symm.trans accepted
    exact ⟨rfl, Session.Open.continues_of_new opening⟩

variable {solvers : Solvers α} {data : BatchData α} {request : Request α} {mode : Setting α}
  {derivative : Option (Settings α)}

theorem batch_fst (steady : solvers.Steady) (lengths : data.HasLength n) (pool : Batch.Pool)
    (logs : Fin n → Log α) (log : Log α) :
    (after (batch solvers pool data request mode derivative) log).1 =
      ((List.finRange n).mapM fun i => (after
        (data.alone lengths solvers request mode derivative i) (logs i)).1).map (.mk n) := by
  let ends (i : Fin n) : Outcome α (Differentiable α) :=
    (after (data.alone lengths solvers request mode derivative i) (logs i)).1
  have runs : (after ((List.finRange n).mapM
      (data.alone lengths solvers request mode derivative)) log).1 = (List.finRange n).mapM ends :=
    after_mapM (fun i _ log => steady.withDerivative _ _ _ _ _ _ _ log (logs i)) log
  unfold batch
  rw [Batch.mapM_eq, BatchData.programs_eq lengths, List.ofFn_eq_map, List.mapM_map]
  change (after ((List.finRange n).mapM (data.alone lengths solvers request mode derivative) >>=
    fun solved => pure (⟨data.matrices.length, solved⟩ : SolvedBatch α)) log).1 =
      ((List.finRange n).mapM ends).map (.mk n)
  rw [after_bind, runs]
  cases (List.finRange n).mapM ends with
  | error cause => rfl
  | ok solved => exact congrArg (fun size => Except.ok (⟨size, solved⟩ : SolvedBatch α)) lengths.matrices

theorem batch_ok (steady : solvers.Steady) (lengths : data.HasLength n) (pool : Batch.Pool)
    {logs : Fin n → Log α} (log : Log α) {singles : Fin n → Differentiable α}
    (succeed : ∀ i, (after (data.alone lengths solvers request mode derivative i) (logs i)).1 =
      .ok (singles i)) :
    (after (batch solvers pool data request mode derivative) log).1 =
      .ok ⟨n, List.ofFn singles⟩ := by
  have solved : ((List.finRange n).mapM fun i => (after
      (data.alone lengths solvers request mode derivative i) (logs i)).1) =
      .ok (List.ofFn singles) := by
    rw [mapM_eq_ok, ← List.ofFn_id]
    exact forall₂_ofFn.2 ⟨singles, succeed, rfl⟩
  rw [batch_fst steady lengths pool logs, solved]
  rfl

end Solve

namespace SolvedBatch

variable [Scalar α] [EigenSolver α]

/--
What a batch returns is what its programs return one by one, each at its place: first the solutions
and then, after any queries, the derivatives for lists with an entry for each program.
-/
structure AnswersAs (batch : SolvedBatch α) (singles : Fin n → Solve.Differentiable α) : Prop where
  xs : batch.solutions.xs = List.ofFn fun i => (singles i).values.x
  ys : batch.solutions.ys = List.ofFn fun i => (singles i).values.y
  ss : batch.solutions.ss = List.ofFn fun i => (singles i).values.s
  directions : ∀ queries pool (dAs dbs dcs : List (Option (Data α))) (ofA : dAs.length = n)
    (ofB : dbs.length = n) (ofC : dcs.length = n) found,
    ((batch.askAll queries).directions pool dAs dbs dcs).1 = .ok found ↔
      ∃ ds : Fin n → Sized (Direction α), (∀ i, ((singles i).opened.forward ⟨
          dAs.get (i.cast ofA.symm), dbs.get (i.cast ofB.symm), dcs.get (i.cast ofC.symm)⟩).1 =
            .ok (ds i)) ∧
        found = ⟨List.ofFn fun i => ⟨(ds i).value.dx⟩, List.ofFn fun i => ⟨(ds i).value.dy⟩,
          List.ofFn fun i => ⟨(ds i).value.ds⟩⟩
  gradients : ∀ queries pool (dxs dys dss : List (Option (Data α))) (ofX : dxs.length = n)
    (ofY : dys.length = n) (ofS : dss.length = n) found,
    ((batch.askAll queries).gradients pool dxs dys dss).1 = .ok found ↔
      ∃ gs : Fin n → Sized (Gradient α), (∀ i, ((singles i).opened.backward ⟨
          dxs.get (i.cast ofX.symm), dys.get (i.cast ofY.symm), dss.get (i.cast ofS.symm)⟩).1 =
            .ok (gs i)) ∧
        found = ⟨List.ofFn fun i => ⟨(gs i).value.dA⟩, List.ofFn fun i => ⟨(gs i).value.db⟩,
          List.ofFn fun i => ⟨(gs i).value.dc⟩⟩

theorem replies_ofFn {β γ δ ε : Type} {singles : Fin n → Solve.Differentiable α}
    {request : Session.Open α → γ → Outcome α β × Session.Open α} {make : δ → δ → δ → γ}
    {firsts seconds thirds : List δ} (first : firsts.length = n) (second : seconds.length = n)
    (third : thirds.length = n) {collect : List β → ε} {found : ε} :
    (∃ replies, List.Forall₂ ((⟨n, List.ofFn singles⟩ : SolvedBatch α).Replies request make firsts
        seconds thirds) (List.range n) replies ∧ collect replies = found) ↔
      ∃ replies : Fin n → β, (∀ i, (request (singles i).opened (make
          (firsts.get (i.cast first.symm)) (seconds.get (i.cast second.symm))
          (thirds.get (i.cast third.symm)))).1 = .ok (replies i)) ∧
        found = collect (List.ofFn replies) := by
  have places : List.range n = List.ofFn fun i : Fin n => i.val :=
    List.ext_getElem (by simp) (by simp)
  have here (i : Fin n) (reply : β) : (⟨n, List.ofFn singles⟩ : SolvedBatch α).Replies request make
      firsts seconds thirds i reply ↔ (request (singles i).opened (make
        (firsts.get (i.cast first.symm)) (seconds.get (i.cast second.symm))
        (thirds.get (i.cast third.symm)))).1 = .ok reply := by
    have inside : i < firsts.length := first ▸ i.isLt
    have inside' : i < seconds.length := second ▸ i.isLt
    have inside'' : i < thirds.length := third ▸ i.isLt
    simp [Replies, inside, inside', inside'']
  simp only [places, forall₂_ofFn, here]
  constructor
  · rintro ⟨_, ⟨replies, answered, rfl⟩, rfl⟩
    exact ⟨replies, answered, rfl⟩
  · rintro ⟨replies, answered, rfl⟩
    exact ⟨_, ⟨replies, answered, rfl⟩, rfl⟩

theorem answersAs_of_continues {singles : Fin n → Solve.Differentiable α}
    (fresh : ∀ i, (singles i).Continues (singles i)) :
    (⟨n, List.ofFn singles⟩ : SolvedBatch α).AnswersAs singles := by
  have continues : (⟨n, List.ofFn singles⟩ : SolvedBatch α).Continues ⟨n, List.ofFn singles⟩ :=
    ⟨rfl, forall₂_ofFn.2 ⟨singles, fresh, rfl⟩⟩
  have covers : (List.ofFn singles).length ≤ n := List.length_ofFn.le
  refine ⟨List.map_ofFn .., List.map_ofFn .., List.map_ofFn .., ?_, ?_⟩
  · intro queries pool dAs dbs dcs ofA ofB ofC found
    rw [((continues.askAll covers queries).directions covers pool dAs dbs dcs).1,
      directions_eq_ok, replies_ofFn ofA ofB ofC]
    simp only [Directions.ofList, List.map_ofFn]
    rfl
  · intro queries pool dxs dys dss ofX ofY ofS found
    rw [((continues.askAll covers queries).gradients covers pool dxs dys dss).1,
      gradients_eq_ok, replies_ofFn ofX ofY ofS]
    simp only [Gradients.ofList, List.map_ofFn]
    rfl

end SolvedBatch

/--
With solvers whose answers depend on the call alone, a batch of programs answers as each of them
does alone, and fails as one of them fails if any does. Without programs there are empty lists.
-/
theorem Solve.batch_answersAs [Scalar α] [EigenSolver α] {solvers : Solvers α}
    (steady : solvers.Steady) {data : BatchData α} (lengths : data.HasLength n) (pool : Batch.Pool)
    (request : Request α) (mode : Setting α) (derivative : Option (Settings α))
    (logs : Fin n → Log α) (log : Log α) :
    (∀ singles : Fin n → Differentiable α,
      (∀ i, (after (data.alone lengths solvers request mode derivative i) (logs i)).1 =
        .ok (singles i)) →
      ∃ solved, (after (batch solvers pool data request mode derivative) log).1 = .ok solved ∧
        solved.AnswersAs singles) ∧
    ∀ i cause, (after (data.alone lengths solvers request mode derivative i) (logs i)).1 =
        .error cause →
      ∃ j cause', (after (data.alone lengths solvers request mode derivative j) (logs j)).1 =
          .error cause' ∧
        (after (batch solvers pool data request mode derivative) log).1 = .error cause' := by
  constructor
  · intro singles succeed
    exact ⟨_, batch_ok steady lengths pool log succeed, SolvedBatch.answersAs_of_continues fun i =>
      Differentiable.continues_self (succeed i)⟩
  · intro i cause failed
    rw [batch_fst steady lengths pool logs]
    cases ended : (List.finRange n).mapM fun i => (after
        (data.alone lengths solvers request mode derivative i) (logs i)).1 with
    | ok solved =>
      obtain ⟨item, success⟩ := exists_mapM_iff.1 ⟨solved, ended⟩ i (List.mem_finRange i)
      cases failed.symm.trans success
    | error cause' =>
      obtain ⟨j, _, failed'⟩ := failsWith_mapM _ cause' ended
      exact ⟨j, cause', failed', rfl⟩

theorem tiling_equationFor : Block.checkTiling [⟨.cone .zero, 1, 0, 1⟩] (1 : Nat) = .ok () := rfl

noncomputable def equationFor (x : ℝ) : Program ℝ :=
  ⟨(Sparse.identity 1).sumDuplicates.dropZeros, .replicate 1 x, .replicate 1 0,
    [⟨.cone .zero, 1, 0, 1⟩], tiling_equationFor⟩

noncomputable def twoEquations : BatchData ℝ where
  matrices := .replicate 2 (.sparse 1 1 (.ofSparse (.identity 1)))
  offsets := [.ofVector (.replicate 1 0), .ofVector (.replicate 1 1)]
  objectives := .replicate 2 (.ofVector (.replicate 1 0))
  cones := .replicate 2 [(.cone .zero, .integer 1)]

noncomputable def rightHandSides : Solvers ℝ where
  scs _ call := ⟨"Solved/Inaccurate", call.b, call.b, call.b.map fun _ => 0⟩
  ecos _ _ := ⟨-1, [], [], [], .absent, .absent, .absent, .absent⟩
  clarabel _ _ := ⟨"", [], [], [], .absent, .absent, .absent⟩

theorem rightHandSides_steady : rightHandSides.Steady :=
  ⟨fun _ _ _ => rfl, fun _ _ _ => rfl, fun _ _ _ => rfl⟩

theorem Solve.exists_solved_equationFor (x : ℝ) : ∃ item, ∀ log,
    (after (withDerivative rightHandSides (.sparse 1 1 (.ofSparse (.identity 1)))
      (.ofVector (.replicate 1 x)) (.ofVector (.replicate 1 0)) [(.cone .zero, .integer 1)]
      { method := .text "SCS" } (.text "lu") (some [])) log).1 = .ok item := by
  have read : Program.ofData (.sparse 1 1 (.ofSparse (.identity 1))) (.ofVector (.replicate 1 x))
      (.ofVector (.replicate 1 0)) (.table [(.cone .zero, .integer 1)]) = .ok (equationFor x) :=
    Program.ofData_ok (.identity 1) _ _ rfl rfl
  have first : ∃ item, (after (withDerivative rightHandSides (.sparse 1 1 (.ofSparse (.identity 1)))
      (.ofVector (.replicate 1 x)) (.ofVector (.replicate 1 0)) [(.cone .zero, .integer 1)]
      { method := .text "SCS" } (.text "lu") (some [])) ⟨[], []⟩).1 = .ok item := by
    unfold withDerivative
    rw [after_ofExcept_bind read]
    exact ⟨_, rfl⟩
  obtain ⟨item, success⟩ := first
  exact ⟨item, fun log => (rightHandSides_steady.withDerivative _ _ _ _ _ _ _ log _).trans success⟩

theorem twoEquations_hasLength : twoEquations.HasLength 2 := by
  refine ⟨rfl, rfl, rfl, rfl, ?_⟩
  intro given none
  cases none

theorem exists_alone_twoEquations : ∃ singles : Fin 2 → Solve.Differentiable ℝ,
    ∀ i log, (after (twoEquations.alone twoEquations_hasLength rightHandSides
      { method := .text "SCS" } (.text "lu") (some []) i) log).1 = .ok (singles i) := by
  have each : ∀ i, ∃ item, ∀ log, (after (twoEquations.alone twoEquations_hasLength rightHandSides
      { method := .text "SCS" } (.text "lu") (some []) i) log).1 = .ok item :=
    Fin.forall_fin_two.2 ⟨Solve.exists_solved_equationFor 0, Solve.exists_solved_equationFor 1⟩
  choose singles succeed using each
  exact ⟨singles, succeed⟩

theorem Solve.batch_answersAs_of_twoEquations : ∃ (singles : Fin 2 → Differentiable ℝ) (solved : _),
    (after (batch rightHandSides ⟨4, -1⟩ twoEquations { method := .text "SCS" } (.text "lu")
      (some [])) ⟨[], []⟩).1 = .ok solved ∧ solved.AnswersAs singles := by
  obtain ⟨singles, succeed⟩ := exists_alone_twoEquations
  exact ⟨singles, (batch_answersAs rightHandSides_steady twoEquations_hasLength _ _ _ _
    (fun _ => ⟨[], []⟩) _).1 singles fun i => succeed i _⟩

end ConicDerivative
