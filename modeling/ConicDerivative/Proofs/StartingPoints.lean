import ConicDerivative.Proofs.SolverSoundness

/-!
The point that a solver is told to start from. It travels past the free rows: they are taken from the
constraints and not from the point, so what the solver gets fits together just if no row is free.
-/

namespace ConicDerivative

open Outcomes Loose Consulting

variable {α : Type} {m n : Nat}

namespace Loose

variable {x w : List α} {order : List Nat}

theorem gather_eq_ok : gather x order = .ok w ↔ order.map (x[·]?) = w.map some := by
  have reading : gather x order = .ok w ↔ order.mapM (x[·]?) = some w := by
    unfold gather
    cases order.mapM (x[·]?) with
    | none => simp
    | some u => simp
  rw [reading]
  clear reading
  induction order generalizing w with
  | nil =>
    cases w with
    | nil => simp
    | cons value rest => simp
  | cons place order ih =>
    rw [List.mapM_cons, List.map_cons, Option.bind_eq_bind, Option.bind_eq_some_iff]
    constructor
    · rintro ⟨value, first, later⟩
      obtain ⟨rest, others, joined⟩ := Option.bind_eq_some_iff.1 later
      cases joined
      rw [first, ih.1 others]
      rfl
    · intro same
      cases w with
      | nil => cases same
      | cons value rest =>
        obtain ⟨first, others⟩ := List.cons.inj same
        exact ⟨value, first, Option.bind_eq_some_iff.2 ⟨rest, ih.2 others, rfl⟩⟩

theorem exists_gather (inside : ∀ i ∈ order, i < x.length) : ∃ w, gather x order = .ok w := by
  simp only [gather_eq_ok]
  induction order with
  | nil => exact ⟨[], rfl⟩
  | cons place order ih =>
    obtain ⟨first, others⟩ := List.forall_mem_cons.1 inside
    obtain ⟨w, rest⟩ := ih others
    exact ⟨x[place] :: w, by rw [List.map_cons, List.map_cons, List.getElem?_eq_getElem first, rest]⟩

theorem length_of_gather (success : gather x order = .ok w) : w.length = order.length := by
  simpa using (congrArg List.length (gather_eq_ok.1 success)).symm

theorem gather_range (x : List α) : gather x (List.range x.length) = .ok x := by
  rw [gather_eq_ok]
  apply List.ext_getElem
  · simp
  · intro i left right
    simp

theorem exists_takeRows [Scalar α] (A : Sparse α m n) (inside : ∀ i ∈ order, i < m) :
    ∃ S, takeRows A order = .ok S := by
  have fits : ∀ i : Fin order.length, order.get i < m := fun i => inside _ (order.get_mem i)
  exact ⟨_, dif_pos fits⟩

end Loose

namespace Constraints

variable {blocks : List Block} {rows : Nat}

def NoneFree (blocks : List Block) (rows : Nat) : Prop :=
  ∀ row < rows, ∀ block ∈ blocks, block.kind = .cone .free →
    ¬(block.start ≤ row ∧ (row : Int) < block.stop)

instance (blocks : List Block) (rows : Nat) : Decidable (NoneFree blocks rows) :=
  inferInstanceAs (Decidable (∀ row < rows, ∀ block ∈ blocks, _ → _))

theorem kept_all_iff : (kept blocks rows).all id = true ↔ NoneFree blocks rows := by
  simp [kept, NoneFree]

theorem lt_of_mem_places {row : Nat} (listed : row ∈ places (kept blocks rows)) : row < rows := by
  rw [kept, places_map_range] at listed
  exact List.mem_range.1 (List.mem_of_mem_filter listed)

theorem length_places_kept : (places (kept blocks rows)).length = rows ↔
    (kept blocks rows).all id = true := by
  rw [kept, places_map_range]
  conv_lhs => rhs; rw [← List.length_range (n := rows)]
  rw [List.length_filter_eq_length_iff, List.all_map, List.all_eq_true]
  rfl

theorem places_kept_of_all (all : (kept blocks rows).all id = true) :
    places (kept blocks rows) = List.range rows := by
  rw [kept, List.all_map, List.all_eq_true] at all
  rw [kept, places_map_range, List.filter_eq_self]
  exact all

theorem dropFree_of_taken [Scalar α] {constraints : Constraints α n} {keep : List Bool}
    {A : Sparse α (places keep).length n} {b : List α}
    (layout : constraints.cones.blocks = .ok blocks)
    (size : constraints.b.length = constraints.rows) (same : kept blocks constraints.rows = keep)
    (some : ¬keep.all id = true) (taken : takeRows constraints.A (places keep) = .ok A)
    (gathered : gather constraints.b (places keep) = .ok b) :
    constraints.dropFree = .ok (⟨A, b, constraints.cones.erase .free⟩, keep) := by
  subst same
  have length : ¬constraints.b.length ≠ (kept blocks constraints.rows).length := by
    simp [kept, size]
  refine lift_bind_eq_ok.2 ⟨blocks, layout, ?_⟩
  dsimp only
  rw [if_neg some]
  refine bind_eq_ok.2 ⟨A, taken, ?_⟩
  rw [if_neg length]
  exact bind_eq_ok.2 ⟨b, gathered, rfl⟩

/--
The free rows are taken from the constraints, which cannot fail. What is left does not depend on the
table, but on which rows are free.
-/
theorem exists_dropped [Scalar α] (A : Sparse α m n) {b : List α} (size : b.length = m)
    (blocks : List Block) : ∃ (k : Nat) (A' : Sparse α k n) (b' : List α),
      gather b (places (kept blocks m)) = .ok b' ∧ ∀ (table : ConeTable) (others : List Block),
        table.blocks = .ok others → kept others m = kept blocks m →
          dropFree ⟨A, b, table⟩ = .ok (⟨A', b', table.erase .free⟩, kept blocks m) := by
  have inside {row : Nat} (listed : row ∈ places (kept blocks m)) : row < m :=
    lt_of_mem_places listed
  by_cases all : (kept blocks m).all id = true
  · refine ⟨m, A, b, ?_, ?_⟩
    · have whole := gather_range b
      rwa [size, ← places_kept_of_all all] at whole
    · intro table others layout same
      refine lift_bind_eq_ok.2 ⟨others, layout, ?_⟩
      dsimp only
      rw [same, if_pos all]
      rfl
  · obtain ⟨A', taken⟩ := exists_takeRows A fun _ => inside
    obtain ⟨b', gathered⟩ := exists_gather (x := b) fun _ listed => (inside listed).trans_eq size.symm
    refine ⟨_, A', b', gathered, ?_⟩
    intro table others layout same
    exact dropFree_of_taken layout size same all taken gathered

theorem exists_dropFree [Scalar α] {constraints : Constraints α n}
    (layout : constraints.cones.blocks = .ok blocks)
    (size : constraints.b.length = constraints.rows) : ∃ reduced,
      constraints.dropFree = .ok (reduced, kept blocks constraints.rows) ∧
        reduced.cones = constraints.cones.erase .free ∧
        gather constraints.b (places (kept blocks constraints.rows)) = .ok reduced.b := by
  obtain ⟨_, A, b, gathered, dropped⟩ := exists_dropped constraints.A size blocks
  exact ⟨_, dropped constraints.cones blocks layout rfl, rfl, gathered⟩

end Constraints

/-- The call starts at a point of which only the rows at the places are taken, as many as it has. -/
def ScsCall.StartsAt (call : ScsCall α) (places : List Nat) (x y s : List α) : Prop :=
  ∃ y' s', call.warmStart = some (x, y', s') ∧ x.length = call.cols ∧
    gather y places = .ok y' ∧ y'.length = call.b.length ∧
    gather s places = .ok s' ∧ s'.length = call.b.length

theorem ScsCall.startsAt_iff_noneFree {call : ScsCall α} {blocks : List Block} {rows : Nat}
    {b x y s : List α}
    (warm : call.warmStart = some (x, y, s)) (columns : x.length = call.cols)
    (prices : y.length = rows) (slacks : s.length = rows)
    (gathered : gather b (Constraints.places (Constraints.kept blocks rows)) = .ok call.b) :
    call.StartsAt (Constraints.places (Constraints.kept blocks rows)) x y s ↔
      Constraints.NoneFree blocks rows := by
  have sent := length_of_gather gathered
  rw [← Constraints.kept_all_iff]
  constructor
  · -- The lengths alone tell: `b` has as many rows as are kept, and `y` has all.
    rintro ⟨y', s', same, _, _, fits, _⟩
    cases warm.symm.trans same
    rw [← Constraints.length_places_kept, ← sent, ← fits, prices]
  · intro all
    have whole := Constraints.places_kept_of_all all
    rw [whole, List.length_range] at sent
    refine ⟨y, s, warm, columns, ?_, prices.trans sent.symm, ?_, slacks.trans sent.symm⟩
    · rw [whole, ← prices]
      exact gather_range y
    · rw [whole, ← slacks]
      exact gather_range s

namespace Solve

section

variable [Scalar α] {solvers : Solvers α} {constraints : Constraints α n} {c : List α}
  {request : Request α} {log : Log α} {blocks : List Block} {x y s : List α}

/-- What is sent: the vectors of the request as they are, and a `b` without the free rows. -/
theorem exists_sent (solvers : Solvers α) (c : List α) (log : Log α)
    (layout : constraints.cones.blocks = .ok blocks)
    (size : constraints.b.length = constraints.rows)
    (named : methodFor (constraints.cones.erase .free) request.method = .ok "SCS")
    (given : request.warmStart = some [x, y, s]) : ∃ sent,
      (after (full solvers constraints c request) log).2.calls = log.calls ++ sent ∧ sent ≠ [] ∧
        ∀ call ∈ sent, ∃ scs : ScsCall α, call = .scs scs ∧ scs.cols = n ∧
          scs.warmStart = some (x, y, s) ∧
          gather constraints.b (Constraints.places (Constraints.kept blocks constraints.rows)) =
            .ok scs.b := by
  obtain ⟨reduced, dropped, cones, gathered⟩ := Constraints.exists_dropFree layout size
  have start : Scs.startingPoint request.warmStart = .ok (some (x, y, s)) := by
    rw [given]
    rfl
  obtain ⟨sent, calls, nonempty, same⟩ := Scs.exists_calls solvers reduced c log start
  refine ⟨sent, ?_, nonempty, ?_⟩
  · rw [calls_full dropped, ← calls, Solve.reduced, cones, after_ofExcept_bind named]
    rfl
  · intro call listed
    obtain ⟨settings, rfl⟩ := same call listed
    exact ⟨_, rfl, rfl, rfl, gathered⟩

/--
Every call of the solver that takes a starting point is sent the vectors of the request as they are,
with a `b` without the free rows. So it starts at the kept rows just if no row is free.
-/
theorem full_startsAt_iff (solvers : Solvers α) (c : List α) (log : Log α)
    (layout : constraints.cones.blocks = .ok blocks)
    (size : constraints.b.length = constraints.rows)
    (named : methodFor (constraints.cones.erase .free) request.method = .ok "SCS")
    (given : request.warmStart = some [x, y, s]) (columns : x.length = n)
    (prices : y.length = constraints.rows) (slacks : s.length = constraints.rows) : ∃ sent,
      (after (full solvers constraints c request) log).2.calls = log.calls ++ sent ∧ sent ≠ [] ∧
        (∀ call ∈ sent, ∃ scs : ScsCall α, call = .scs scs ∧ scs.warmStart = some (x, y, s) ∧
          gather constraints.b (Constraints.places (Constraints.kept blocks constraints.rows)) =
            .ok scs.b) ∧
        ((∀ call ∈ sent, ∃ scs : ScsCall α, call = .scs scs ∧
          scs.StartsAt (Constraints.places (Constraints.kept blocks constraints.rows)) x y s) ↔
            Constraints.NoneFree blocks constraints.rows) := by
  obtain ⟨sent, calls, nonempty, each⟩ := exists_sent solvers c log layout size named given
  refine ⟨sent, calls, nonempty, ?_, ?_⟩
  · intro call listed
    obtain ⟨scs, same, _, warm, gathered⟩ := each call listed
    exact ⟨scs, same, warm, gathered⟩
  · constructor
    · intro starts
      obtain ⟨call, listed⟩ := List.exists_mem_of_ne_nil sent nonempty
      obtain ⟨scs, rfl, cols, warm, gathered⟩ := each call listed
      obtain ⟨_, same, start⟩ := starts _ listed
      cases same
      exact (ScsCall.startsAt_iff_noneFree warm (columns.trans cols.symm) prices slacks gathered).1 start
    · intro unfree call listed
      obtain ⟨scs, same, cols, warm, gathered⟩ := each call listed
      exact ⟨scs, same,
        (ScsCall.startsAt_iff_noneFree warm (columns.trans cols.symm) prices slacks gathered).2 unfree⟩

end

def startRequest (x y s : List ℝ) : Request ℝ :=
  { method := .text "SCS", warmStart := some [x, y, s] }

theorem full_startsAt_of_equation : ∃ sent,
    (after (full secondAnswer equationAlone [-1] (startRequest [1] [2] [4])) ⟨[], []⟩).2.calls =
      sent ∧ sent ≠ [] ∧
      ∀ call ∈ sent, ∃ scs : ScsCall ℝ, call = .scs scs ∧ scs.StartsAt [0] [1] [2] [4] := by
  have layout : equationAlone.cones.blocks = .ok [⟨.cone .zero, 1, 0, 1⟩] := rfl
  have given : (startRequest [1] [2] [4]).warmStart = some [[1], [2], [4]] := rfl
  obtain ⟨sent, calls, nonempty, _, starts⟩ :=
    full_startsAt_iff secondAnswer [-1] ⟨[], []⟩ layout rfl rfl given rfl rfl rfl
  exact ⟨sent, calls, nonempty, starts.2 (by decide)⟩

/-- The free row is taken from `b`, and not from the starting point. -/
theorem full_startsAt_fails_of_free : ∃ sent,
    (after (full secondAnswer equationAndFree [-1] (startRequest [1] [2, 3] [4, 5]))
      ⟨[], []⟩).2.calls = sent ∧ sent ≠ [] ∧
      ∀ call ∈ sent, ∃ scs : ScsCall ℝ, call = .scs scs ∧ scs.b = [1] ∧
        scs.warmStart = some ([1], [2, 3], [4, 5]) ∧ ¬scs.StartsAt [0] [1] [2, 3] [4, 5] := by
  let blocks : List Block := [⟨.cone .zero, 1, 0, 1⟩, ⟨.cone .free, 1, 1, 2⟩]
  have layout : equationAndFree.cones.blocks = .ok blocks := rfl
  have given : (startRequest [1] [2, 3] [4, 5]).warmStart = some [[1], [2, 3], [4, 5]] := rfl
  have free : ¬Constraints.NoneFree blocks 2 := by decide
  obtain ⟨sent, calls, nonempty, each⟩ :=
    exists_sent secondAnswer [-1] ⟨[], []⟩ layout rfl rfl given
  refine ⟨sent, calls, nonempty, ?_⟩
  intro call listed
  obtain ⟨scs, same, cols, warm, gathered⟩ := each call listed
  refine ⟨scs, same, (Except.ok.inj gathered).symm, warm, ?_⟩
  exact mt (ScsCall.startsAt_iff_noneFree warm cols.symm rfl rfl gathered).1 free

end Solve

end ConicDerivative
