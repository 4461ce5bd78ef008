import ConicDerivative.Proofs.BatchAnswers

/-!
How many entries a batch returns. The programs of a batch are as many as its shortest list has
entries, and its derivatives read as many entries as there are matrices. What stands beyond is never
read, so nothing is lost just if all lists are equally long; this is not checked.
-/

namespace ConicDerivative

open Outcomes Consulting Solve

variable {α β γ : Type}

theorem Consulting.forall₂_of_mapM {f : β → Consulting α γ} {items : List β} {results : List γ}
    {log : Log α} (success : (after (items.mapM f) log).1 = .ok results) :
    List.Forall₂ (fun item result => ∃ log, (after (f item) log).1 = .ok result) items results := by
  induction items generalizing results log with
  | nil =>
    cases success
    exact .nil
  | cons item items ih =>
    rw [List.mapM_cons] at success
    obtain ⟨first, head, success⟩ := after_bind_eq_ok.1 success
    obtain ⟨rest, tail, success⟩ := after_bind_eq_ok.1 success
    cases success
    exact .cons ⟨log, head⟩ (ih tail)

def Solutions.sizes (found : Solutions α) : List Nat :=
  [found.xs.length, found.ys.length, found.ss.length]

def Directions.sizes (found : Directions α) : List Nat :=
  [found.dxs.length, found.dys.length, found.dss.length]

def Gradients.sizes (found : Gradients α) : List Nat :=
  [found.dAs.length, found.dbs.length, found.dcs.length]

/--
Of each of three lists just the first `size` entries are read, and as many are returned. So there is
one for every entry of every list just if each list has as many.
-/
structure ReadsUpTo {ε δ : Type} (size : Nat) (ask : List β → List β → List β → Except ε δ)
    (sizes : δ → List Nat) : Prop where
  cut : ∀ firsts seconds thirds, ask (firsts.take size) (seconds.take size) (thirds.take size) =
    ask firsts seconds thirds
  returned : ∀ firsts seconds thirds found, ask firsts seconds thirds = .ok found →
    (∀ length ∈ sizes found, length = size) ∧
    (∀ given ∈ [firsts, seconds, thirds], size ≤ given.length) ∧
    ((∀ length ∈ sizes found, ∀ given ∈ [firsts, seconds, thirds], length = given.length) ↔
      ∀ given ∈ [firsts, seconds, thirds], given.length = size)

namespace BatchData

/-- The number of entries of the shortest list; there are as many warm starts as needed if none. -/
def shortest (data : BatchData α) : Nat :=
  min data.matrices.length (min data.offsets.length (min data.objectives.length
    (min data.cones.length (data.warmStarts.elim data.matrices.length List.length))))

theorem length_programs (data : BatchData α) : data.programs.length = data.shortest := by
  cases warm : data.warmStarts with
  | none => simp [programs, shortest, warm]
  | some given => simp [programs, shortest, warm]

theorem HasLength.shortest_eq {data : BatchData α} {n : Nat} (lengths : data.HasLength n) :
    data.shortest = n := by
  rw [← length_programs, programs_eq lengths, List.length_ofFn]

end BatchData

variable [Scalar α] [EigenSolver α]

namespace SolvedBatch

theorem answers_take {δ : Type} (batch : SolvedBatch α) (pool : Batch.Pool) (make : δ → δ → δ → γ)
    (request : Session.Open α → γ → Outcome α β × Session.Open α) (firsts seconds thirds : List δ) :
    (batch.answers pool (fun i => do
        return make (← entry (firsts.take batch.size) i) (← entry (seconds.take batch.size) i)
          (← entry (thirds.take batch.size) i)) request).1 =
      (batch.answers pool (fun i => do
        return make (← entry firsts i) (← entry seconds i) (← entry thirds i)) request).1 := by
  rw [answers_fst, answers_fst, ← List.map_coe_finRange_eq_range, List.mapM_map, List.mapM_map]
  refine congrArg (List.mapM · _) (funext fun i => ?_)
  simp only [Function.comp_apply, turn_fst, entry, List.getElem?_take_of_lt i.isLt]

theorem size_le_of_replies {δ : Type} {batch : SolvedBatch α}
    {request : Session.Open α → γ → Outcome α β × Session.Open α} {make : δ → δ → δ → γ}
    {firsts seconds thirds : List δ} {replies : List β}
    (replied : List.Forall₂ (batch.Replies request make firsts seconds thirds)
      (List.range batch.size) replies) :
    ∀ given ∈ [firsts, seconds, thirds], batch.size ≤ given.length := by
  intro given listed
  by_contra short
  have inside : given.length < (List.range batch.size).length := by simpa using short
  obtain ⟨_, a, b, c, _, first, second, third, _⟩ :=
    replied.get inside (replied.length_eq ▸ inside)
  simp only [List.get_eq_getElem, List.getElem_range] at first second third
  simp only [List.mem_cons, List.not_mem_nil, or_false] at listed
  rcases listed with rfl | rfl | rfl
  · simp at first
  · simp at second
  · simp at third

theorem keepsAll_iff {sizes : List Nat} {lists : List (List β)} {size : Nat} (nonempty : sizes ≠ [])
    (returned : ∀ length ∈ sizes, length = size) :
    (∀ length ∈ sizes, ∀ given ∈ lists, length = given.length) ↔
      ∀ given ∈ lists, given.length = size := by
  obtain ⟨length, listed⟩ := List.exists_mem_of_ne_nil sizes nonempty
  constructor
  · intro kept given present
    rw [← kept length listed given present, returned length listed]
  · intro full length listed given present
    rw [returned length listed, full given present]

theorem directions_readsUpTo (batch : SolvedBatch α) (pool : Batch.Pool) :
    ReadsUpTo batch.size (fun dAs dbs dcs => (batch.directions pool dAs dbs dcs).1)
      Directions.sizes := by
  refine ⟨fun _ _ _ => congrArg (Except.map _) (batch.answers_take pool ..), ?_⟩
  intro dAs dbs dcs found success
  obtain ⟨ds, replies, rfl⟩ := directions_eq_ok.1 success
  have returned : ∀ length ∈ (Directions.ofList ds).sizes, length = batch.size := by
    simp [Directions.sizes, Directions.ofList, ← replies.length_eq]
  exact ⟨returned, size_le_of_replies replies, keepsAll_iff (List.cons_ne_nil _ _) returned⟩

theorem gradients_readsUpTo (batch : SolvedBatch α) (pool : Batch.Pool) :
    ReadsUpTo batch.size (fun dxs dys dss => (batch.gradients pool dxs dys dss).1)
      Gradients.sizes := by
  refine ⟨fun _ _ _ => congrArg (Except.map _) (batch.answers_take pool ..), ?_⟩
  intro dxs dys dss found success
  obtain ⟨gs, replies, rfl⟩ := gradients_eq_ok.1 success
  have returned : ∀ length ∈ (Gradients.ofList gs).sizes, length = batch.size := by
    simp [Gradients.sizes, Gradients.ofList, ← replies.length_eq]
  exact ⟨returned, size_le_of_replies replies, keepsAll_iff (List.cons_ne_nil _ _) returned⟩

theorem size_answers (batch : SolvedBatch α) (pool : Batch.Pool) (argument : Nat → Outcome α γ)
    (request : Session.Open α → γ → Outcome α β × Session.Open α) :
    (batch.answers pool argument request).2.size = batch.size := by
  unfold answers
  cases Batch.mapM pool (batch.turn argument request) (List.range batch.size) with
  | error cause => rfl
  | ok results => rfl

theorem size_ask (batch : SolvedBatch α) (query : Query α) :
    (batch.ask query).size = batch.size := by
  cases query with
  | directions pool dAs dbs dcs => exact batch.size_answers pool _ _
  | gradients pool dxs dys dss => exact batch.size_answers pool _ _

theorem size_askAll (batch : SolvedBatch α) (queries : List (Query α)) :
    (batch.askAll queries).size = batch.size := by
  induction queries generalizing batch with
  | nil => rfl
  | cons query rest ih => exact (ih (batch.ask query)).trans (batch.size_ask query)

end SolvedBatch

namespace Solve

variable {solvers : Solvers α} {pool : Batch.Pool} {data : BatchData α} {request : Request α}
  {mode : Setting α} {derivative : Option (Settings α)} {log : Log α} {solved : SolvedBatch α}

theorem length_batch
    (success : (after (batch solvers pool data request mode derivative) log).1 = .ok solved) :
    solved.size = data.matrices.length ∧ solved.solved.length = data.shortest := by
  unfold batch at success
  rw [Batch.mapM_eq] at success
  obtain ⟨items, runs, success⟩ := after_bind_eq_ok.1 success
  cases success
  exact ⟨rfl, (forall₂_of_mapM runs).length_eq.symm.trans data.length_programs⟩

/--
A batch has a solution for each entry of its shortest list, which is one for every entry of all lists
just if these are equally long. Its derivatives read and return as many entries as there are
matrices, however many more they are given.
-/
theorem batch_keepsAll_iff
    (success : (after (batch solvers pool data request mode derivative) log).1 = .ok solved) :
    (∀ length ∈ solved.solutions.sizes, length = data.shortest) ∧
    ((∀ length ∈ solved.solutions.sizes, data.HasLength length) ↔ ∃ n, data.HasLength n) ∧
    ∀ queries pool,
      ReadsUpTo data.matrices.length
        (fun dAs dbs dcs => ((solved.askAll queries).directions pool dAs dbs dcs).1)
        Directions.sizes ∧
      ReadsUpTo data.matrices.length
        (fun dxs dys dss => ((solved.askAll queries).gradients pool dxs dys dss).1)
        Gradients.sizes := by
  obtain ⟨size, count⟩ := length_batch success
  have sizes : ∀ length ∈ solved.solutions.sizes, length = data.shortest := by
    simp [Solutions.sizes, SolvedBatch.solutions, count]
  refine ⟨sizes, ⟨?_, ?_⟩, ?_⟩
  · exact fun kept => ⟨_, kept _ List.mem_cons_self⟩
  · rintro ⟨n, lengths⟩ length listed
    rw [sizes length listed, lengths.shortest_eq]
    exact lengths
  · intro queries pool
    rw [← size, ← solved.size_askAll queries]
    exact ⟨SolvedBatch.directions_readsUpTo _ pool, SolvedBatch.gradients_readsUpTo _ pool⟩

theorem batch_keepsAll_of_twoEquations : ∃ solved,
    (after (batch rightHandSides ⟨4, 1⟩ twoEquations { method := .text "SCS" } (.text "lu")
      (some [])) ⟨[], []⟩).1 = .ok solved ∧
      ∀ length ∈ solved.solutions.sizes, twoEquations.HasLength length := by
  obtain ⟨singles, succeed⟩ := exists_alone_twoEquations
  have success := batch_ok rightHandSides_steady twoEquations_hasLength ⟨4, 1⟩ ⟨[], []⟩
    fun i => succeed i ⟨[], []⟩
  exact ⟨_, success, (batch_keepsAll_iff success).2.1.2 ⟨2, twoEquations_hasLength⟩⟩

noncomputable def surplusEquation : BatchData ℝ :=
  { twoEquations with matrices := .replicate 1 (.sparse 1 1 (.ofSparse (.identity 1))) }

def noPrograms : BatchData ℝ := ⟨[], [], [], [], none⟩

/-- The second right-hand side has no solution, and the change for no program has no direction. -/
theorem batch_loses_surplus :
    (∃ solved, (after (batch rightHandSides ⟨4, 1⟩ surplusEquation { method := .text "SCS" }
        (.text "lu") (some [])) ⟨[], []⟩).1 = .ok solved ∧
      surplusEquation.offsets.length = 2 ∧ solved.solutions.sizes = [1, 1, 1]) ∧
    ∃ solved, (after (batch rightHandSides ⟨4, 1⟩ noPrograms { method := .text "SCS" }
        (.text "lu") (some [])) ⟨[], []⟩).1 = .ok solved ∧
      ∃ found, (solved.directions ⟨4, 1⟩ [none] [none] [none]).1 = .ok found ∧
        found.sizes = [0, 0, 0] := by
  refine ⟨?_, _, rfl, _, rfl, rfl⟩
  obtain ⟨item, success⟩ := exists_solved_equationFor 0
  have solved : (after (surplusEquation.programs.mapM (single rightHandSides
      { method := .text "SCS" } (.text "lu") (some []))) ⟨[], []⟩).1 = .ok [item] := by
    refine (after_mapM ?_ _ : _ = surplusEquation.programs.mapM fun _ => .ok item)
    intro program listed log
    obtain rfl := List.mem_singleton.1 listed
    exact success log
  unfold batch
  rw [Batch.mapM_eq, after_bind, solved]
  exact ⟨_, rfl, rfl, rfl⟩

end Solve

end ConicDerivative
