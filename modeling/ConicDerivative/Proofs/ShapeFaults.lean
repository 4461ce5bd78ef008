import ConicDerivative.Proofs.SessionCache

/-!
Arrays of a wrong shape. A session reads all that it is handed before it does anything else. The first
array at fault, in the order of the items and then of the arguments, is what the request is refused
for, whatever else is wrong with it or with the session, and the refusal leaves no trace. What has no
fault is read.
-/

namespace ConicDerivative

variable {α : Type} {m n : Nat} {β γ : Type}

/-- A reading is refused for the first of the faults, and succeeds where there is none. -/
inductive ReportsFirst : List (Failure α) → Outcome α β → Prop where
  | read (value : β) : ReportsFirst [] (.ok value)
  | refused (first : Failure α) (rest : List (Failure α)) :
    ReportsFirst (first :: rest) (.error first)

namespace ReportsFirst

variable {faults later : List (Failure α)} {reading : Outcome α β}

theorem exists_read (reports : ReportsFirst [] reading) : ∃ value, reading = .ok value := by
  cases reports with
  | read value => exact ⟨value, rfl⟩

theorem bind {f : β → Outcome α γ} (first : ReportsFirst faults reading)
    (second : ∀ value, ReportsFirst later (f value)) :
    ReportsFirst (faults ++ later) (reading >>= f) := by
  cases first with
  | read value => exact second value
  | refused cause rest => exact .refused cause (rest ++ later)

theorem bind_pure (f : β → γ) (first : ReportsFirst faults reading) :
    ReportsFirst faults (reading >>= fun value => pure (f value)) := by
  have joined := first.bind fun value => .read (f value)
  rwa [List.append_nil] at joined

theorem mapM {f : β → Outcome α γ} {faultsOf : β → List (Failure α)}
    (each : ∀ item, ReportsFirst (faultsOf item) (f item)) (items : List β) :
    ReportsFirst (items.flatMap faultsOf) (items.mapM f) := by
  induction items with
  | nil => exact .read []
  | cons item items ih =>
    rw [List.flatMap_cons, List.mapM_cons]
    exact (each item).bind fun value => ih.bind_pure (value :: ·)

end ReportsFirst

namespace Data

def HasShape (expected : List Nat) (given : Option (Data α)) : Prop :=
  ∀ data ∈ given, data.shape = expected

instance decidableHasShape (expected : List Nat) (given : Option (Data α)) :
    Decidable (HasShape expected given) :=
  inferInstanceAs (Decidable (∀ data ∈ given, _))

def faults (field : Field) (expected : List Nat) (given : Option (Data α)) : List (Failure α) :=
  given.toList.flatMap fun data =>
    if data.shape = expected then [] else [.wrongShape field data.shape expected]

theorem faults_of_shape {field : Field} {expected : List Nat} {data : Data α}
    (same : data.shape = expected) : faults field expected (some data) = [] := by
  simp [faults, same]

theorem faults_of_other_shape {field : Field} {expected : List Nat} {data : Data α}
    (other : data.shape ≠ expected) :
    faults field expected (some data) = [.wrongShape field data.shape expected] := by
  simp [faults, other]

theorem faults_eq_nil_iff {field : Field} {expected : List Nat} {given : Option (Data α)} :
    faults field expected given = [] ↔ HasShape expected given := by
  cases given with
  | none => simp [faults, HasShape]
  | some data => simp [faults, HasShape]

theorem vectorOr_reports [Scalar α] (field : Field) (given : Option (Data α)) :
    ReportsFirst (faults field [n] given) (vectorOr field n given) := by
  cases given with
  | none => exact .read _
  | some data =>
    cases data with
    | dense t =>
      by_cases same : (dense t).shape = [n]
      · have found : t.toVector? n = some _ := dif_pos same
        rw [faults_of_shape same, vectorOr, Tensor.expect, found]
        exact .read _
      · have absent : t.toVector? n = none := dif_neg same
        rw [faults_of_other_shape same, vectorOr, Tensor.expect, absent]
        exact .refused _ []
    | sparse rows cols A =>
      rw [faults_of_other_shape (by simp [shape])]
      exact .refused _ []

theorem changeOr_reports [Scalar α] (given : Option (Data α)) :
    ReportsFirst (faults .dA [m, n] given) (changeOr m n given) := by
  cases given with
  | none => exact .read _
  | some data =>
    cases data with
    | dense t =>
      by_cases same : (dense t).shape = [m, n]
      · have found : t.toMat? m n = some _ := dif_pos same
        rw [faults_of_shape same, changeOr, found]
        exact .read _
      · have absent : t.toMat? m n = none := dif_neg same
        rw [faults_of_other_shape same, changeOr, absent]
        exact .refused _ []
    | sparse rows cols A =>
      by_cases same : rows = m ∧ cols = n
      · rw [faults_of_shape (by rw [shape, same.1, same.2]), changeOr, dif_pos same]
        exact .read _
      · rw [faults_of_other_shape (by simpa [shape] using same), changeOr, dif_neg same]
        exact .refused _ []

end Data

def ChangeData.fields (m n : Nat) : List (Field × List Nat) :=
  [(.dA, [m, n]), (.db, [m]), (.dc, [n])]

def ChangeData.parts (change : ChangeData α) : List (Option (Data α)) :=
  [change.dA, change.db, change.dc]

def DirectionData.fields (m n : Nat) : List (Field × List Nat) :=
  [(.dx, [n]), (.dy, [m]), (.ds, [m])]

def DirectionData.parts (target : DirectionData α) : List (Option (Data α)) :=
  [target.dx, target.dy, target.ds]

namespace Data

variable {fields : List (Field × List Nat)} {parts : List (Option (Data α))}

def Fit (fields : List (Field × List Nat)) (parts : List (Option (Data α))) : Prop :=
  List.Forall₂ (fun field given => HasShape field.2 given) fields parts

instance decidableFit (fields : List (Field × List Nat)) (parts : List (Option (Data α))) :
    Decidable (Fit fields parts) :=
  inferInstanceAs (Decidable (List.Forall₂ _ fields parts))

/-- The faults of the parts in their order. A list that is no triple has the fault of its length. -/
def tripleFaults (fields : List (Field × List Nat)) (parts : List (Option (Data α))) :
    List (Failure α) :=
  if parts.length = 3 then
    (fields.zip parts).flatMap fun entry => faults entry.1.1 entry.1.2 entry.2
  else [.notTriple parts.length]

theorem tripleFaults_of_length (other : parts.length ≠ 3) :
    tripleFaults fields parts = [.notTriple parts.length] := if_neg other

theorem tripleFaults_eq_nil_iff (triple : fields.length = 3) :
    tripleFaults fields parts = [] ↔ Fit fields parts := by
  rw [tripleFaults, Fit, List.forall₂_iff_zip, triple]
  by_cases length : parts.length = 3
  · rw [if_pos length, length, List.flatMap_eq_nil_iff]
    simp only [faults_eq_nil_iff, Prod.forall, true_and]
  · rw [if_neg length]
    simp [Ne.symm length]

theorem exists_of_mem_tripleFaults {cause : Failure α} (listed : cause ∈ tripleFaults fields parts) :
    cause = .notTriple parts.length ∨ ∃ field ∈ fields, ∃ data, some data ∈ parts ∧
      data.shape ≠ field.2 ∧ cause = .wrongShape field.1 data.shape field.2 := by
  unfold tripleFaults at listed
  split_ifs at listed with length
  · obtain ⟨⟨field, given⟩, paired, fault⟩ := List.mem_flatMap.1 listed
    obtain ⟨inFields, inParts⟩ := List.of_mem_zip paired
    cases given with
    | none => cases fault
    | some data =>
      by_cases same : data.shape = field.2
      · rw [faults_of_shape same] at fault
        cases fault
      · rw [faults_of_other_shape same, List.mem_singleton] at fault
        exact .inr ⟨field, inFields, data, inParts, same, fault⟩
  · exact .inl (List.mem_singleton.1 listed)

end Data

section

variable [Scalar α]

theorem ChangeData.fit_reports (change : ChangeData α) (m n : Nat) :
    ReportsFirst (Data.tripleFaults (fields m n) change.parts) (change.fit m n) := by
  have faults : Data.tripleFaults (fields m n) change.parts =
      Data.faults .dA [m, n] change.dA ++
        (Data.faults .db [m] change.db ++ Data.faults .dc [n] change.dc) := by
    simp [Data.tripleFaults, parts, fields]
  rw [faults]
  exact (Data.changeOr_reports change.dA).bind fun dA =>
    (Data.vectorOr_reports .db change.db).bind fun db =>
      (Data.vectorOr_reports .dc change.dc).bind_pure fun dc => (⟨dA, db, dc⟩ : Perturbation α m n)

theorem DirectionData.fit_reports (target : DirectionData α) (m n : Nat) :
    ReportsFirst (Data.tripleFaults (fields m n) target.parts) (target.fit m n) := by
  have faults : Data.tripleFaults (fields m n) target.parts =
      Data.faults .dx [n] target.dx ++
        (Data.faults .dy [m] target.dy ++ Data.faults .ds [m] target.ds) := by
    simp [Data.tripleFaults, parts, fields]
  rw [faults]
  exact (Data.vectorOr_reports .dx target.dx).bind fun dx =>
    (Data.vectorOr_reports .dy target.dy).bind fun dy =>
      (Data.vectorOr_reports .ds target.ds).bind_pure fun ds => (⟨dx, dy, ds⟩ : Direction α m n)

theorem ChangeData.ofList_reports (m n : Nat) (parts : List (Option (Data α))) :
    ReportsFirst (Data.tripleFaults (fields m n) parts)
      (ofList parts >>= fun change => change.fit m n) := by
  by_cases length : parts.length = 3
  · obtain ⟨dA, db, dc, rfl⟩ := List.length_eq_three.1 length
    exact fit_reports ⟨dA, db, dc⟩ m n
  · rw [Data.tripleFaults_of_length length]
    have refused : (ofList parts : Outcome α (ChangeData α)) = .error (.notTriple parts.length) := by
      unfold ofList
      split
      · exact absurd rfl length
      · rfl
    rw [refused]
    exact .refused _ []

theorem DirectionData.ofList_reports (m n : Nat) (parts : List (Option (Data α))) :
    ReportsFirst (Data.tripleFaults (fields m n) parts)
      (ofList parts >>= fun target => target.fit m n) := by
  by_cases length : parts.length = 3
  · obtain ⟨dx, dy, ds, rfl⟩ := List.length_eq_three.1 length
    exact fit_reports ⟨dx, dy, ds⟩ m n
  · rw [Data.tripleFaults_of_length length]
    have refused : (ofList parts : Outcome α (DirectionData α)) =
        .error (.notTriple parts.length) := by
      unfold ofList
      split
      · exact absurd rfl length
      · rfl
    rw [refused]
    exact .refused _ []

end

namespace Session

namespace Request

def items : Request α → List (List (Option (Data α)))
  | forward change => [change.parts]
  | backward target => [target.parts]
  | forwardAll _ changes => changes
  | backwardAll _ targets => targets
  | factorize | moveTo _ => []

def fields (m n : Nat) : Request α → List (Field × List Nat)
  | forward _ | forwardAll _ _ => ChangeData.fields m n
  | backward _ | backwardAll _ _ => DirectionData.fields m n
  | factorize | moveTo _ => []

/-- All lists are triples of arrays in the shapes that `m` rows and `n` columns ask for. -/
def IsShaped (m n : Nat) (request : Request α) : Prop :=
  ∀ parts ∈ request.items, Data.Fit (request.fields m n) parts

instance decidableIsShaped (m n : Nat) (request : Request α) : Decidable (request.IsShaped m n) :=
  inferInstanceAs (Decidable (∀ parts ∈ request.items, _))

def faults (m n : Nat) (request : Request α) : List (Failure α) :=
  request.items.flatMap (Data.tripleFaults (request.fields m n))

def refusal (cause : Failure α) : Request α → Reply α m n
  | forward _ => .direction (.error cause)
  | backward _ => .gradient (.error cause)
  | forwardAll _ _ => .directions (.error cause)
  | backwardAll _ _ => .gradients (.error cause)
  | factorize | moveTo _ => .done (.error cause)

theorem faults_eq_nil_iff {request : Request α} :
    request.faults m n = [] ↔ request.IsShaped m n := by
  rw [faults, List.flatMap_eq_nil_iff]
  refine forall₂_congr fun parts listed => ?_
  cases request with
  | factorize => cases listed
  | moveTo point => cases listed
  | _ => exact Data.tripleFaults_eq_nil_iff rfl

theorem category_of_mem_faults {request : Request α} {cause : Failure α}
    (listed : cause ∈ request.faults m n) : cause.category = .dimension := by
  obtain ⟨parts, _, fault⟩ := List.mem_flatMap.1 listed
  rcases Data.exists_of_mem_tripleFaults fault with rfl | ⟨_, _, _, _, _, rfl⟩
  · rfl
  · rfl

variable [Scalar α]

theorem forward_reports (change : ChangeData α) (m n : Nat) :
    ReportsFirst ((forward change).faults m n) (change.fit m n) := by
  rw [faults, items, List.flatMap_singleton]
  exact change.fit_reports m n

theorem backward_reports (target : DirectionData α) (m n : Nat) :
    ReportsFirst ((backward target).faults m n) (target.fit m n) := by
  rw [faults, items, List.flatMap_singleton]
  exact target.fit_reports m n

theorem forwardAll_reports (pool : Batch.Pool) (changes : List (List (Option (Data α))))
    (m n : Nat) : ReportsFirst ((forwardAll pool changes).faults m n)
      (changes.mapM fun parts => ChangeData.ofList parts >>= fun change => change.fit m n) :=
  ReportsFirst.mapM (ChangeData.ofList_reports m n) changes

theorem backwardAll_reports (pool : Batch.Pool) (targets : List (List (Option (Data α))))
    (m n : Nat) : ReportsFirst ((backwardAll pool targets).faults m n)
      (targets.mapM fun parts => DirectionData.ofList parts >>= fun target => target.fit m n) :=
  ReportsFirst.mapM (DirectionData.ofList_reports m n) targets

end Request

namespace State

variable [Scalar α] [EigenSolver α] {session : Session α} {state : State session}

theorem answerWith_of_reports {first : Failure α} {rest : List (Failure α)} {argument : Outcome α γ}
    {request : Linearization α session.program.rows session.program.cols → γ → Outcome α β}
    (reports : ReportsFirst (first :: rest) argument) :
    state.answerWith argument request = (.error first, state) := by
  cases reports
  rfl

theorem perform_of_faults {request : Request α} {first : Failure α} {rest : List (Failure α)}
    (faulty : request.faults session.program.rows session.program.cols = first :: rest) :
    state.perform request = (request.refusal first, state) := by
  cases request with
  | forward change =>
    have reports := Request.forward_reports change session.program.rows session.program.cols
    rw [faulty] at reports
    simp only [perform, forward, answerWith_of_reports reports, Prod.map, id, Request.refusal]
  | backward target =>
    have reports := Request.backward_reports target session.program.rows session.program.cols
    rw [faulty] at reports
    simp only [perform, backward, answerWith_of_reports reports, Prod.map, id, Request.refusal]
  | forwardAll pool changes =>
    have reports := Request.forwardAll_reports pool changes session.program.rows session.program.cols
    rw [faulty] at reports
    simp only [perform, forwardAll, answerWith_of_reports reports, Prod.map, id, Request.refusal]
  | backwardAll pool targets =>
    have reports := Request.backwardAll_reports pool targets session.program.rows session.program.cols
    rw [faulty] at reports
    simp only [perform, backwardAll, answerWith_of_reports reports, Prod.map, id, Request.refusal]
  | factorize => cases faulty
  | moveTo point => cases faulty

/--
A request with an array of a wrong shape, or with a list that is no triple, is refused for the first
of these, and leaves the point and the factorization as they were. This holds in every state: neither
a missing point nor a singular system comes before the shapes.
-/
theorem perform_of_misshapen (state : State session) {request : Request α}
    (misshapen : ¬request.IsShaped session.program.rows session.program.cols) :
    ∃ first rest, request.faults session.program.rows session.program.cols = first :: rest ∧
      first.category = .dimension ∧ state.perform request = (request.refusal first, state) := by
  cases faulty : request.faults session.program.rows session.program.cols with
  | nil => exact absurd (Request.faults_eq_nil_iff.1 faulty) misshapen
  | cons first rest =>
    have listed : first ∈ request.faults session.program.rows session.program.cols := by
      rw [faulty]
      exact List.mem_cons_self
    exact ⟨first, rest, rfl, Request.category_of_mem_faults listed, perform_of_faults faulty⟩

def misshapenBatch : Request Float :=
  .forwardAll ⟨1, -1⟩ [[none, none, none], [none, some (.dense (.ofVector (.replicate 2 1))), none],
    [none]]

/-- The missing point of the session is not what the batch is refused for. -/
theorem perform_of_misshapen_second : ¬misshapenBatch.IsShaped 1 1 ∧
    (State.start : State ⟨oneEquation, .lu, []⟩).perform misshapenBatch =
      (misshapenBatch.refusal (.wrongShape .db [2] [1]), .start) := by
  have misshapen : ¬misshapenBatch.IsShaped 1 1 := by decide
  refine ⟨misshapen, ?_⟩
  obtain ⟨first, rest, faulty, _, refused⟩ :=
    perform_of_misshapen (State.start : State ⟨oneEquation, .lu, []⟩) misshapen
  have named : misshapenBatch.faults 1 1 = [.wrongShape .db [2] [1], .notTriple 1] := rfl
  cases named.symm.trans faulty
  exact refused

end State

end Session

end ConicDerivative
