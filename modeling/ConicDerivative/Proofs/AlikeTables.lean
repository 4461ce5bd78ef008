import ConicDerivative.Proofs.StartingPoints
import ConicDerivative.Proofs.SteadySolvers
import ConicDerivative.Proofs.TableDimensions

/-!
Tables with the same cones, spelled differently. The blocks of a table do not depend on its spelling.
The solver that is chosen for it, and what a solver of equations and inequalities is sent, do: they
are read from the entries. For tables whose entries are spelled as whole numbers, and that do not
name an empty semidefinite cone, both readings agree.
-/

namespace ConicDerivative

open Outcomes Consulting

namespace Ecos

structure HasDimensions (cones : ConeTable) (rows : Int) (sizes : List Int) : Prop where
  linear : cones.rows? .nonnegative = some rows
  secondOrder : cones.sizes? .secondOrder = some sizes

structure HasNumbers (cones : ConeTable) (count rows : Int) (sizes : List Int) : Prop
    extends HasDimensions cones rows sizes where
  zero : cones.rows? .zero = some count

end Ecos

namespace ConeTable

variable {table table' : ConeTable} {blocks blocks' : List Block} {cone : Cone}

/-- A semidefinite cone that is named by anything but an empty list has a dimension. -/
def SpellsSemidefinite (table : ConeTable) : Prop :=
  ∀ extent, table.get? .semidefinite = some extent →
    extent.items = [] ∨ ∃ item ∈ extent.items, ∃ dim, item.toInteger = .ok dim ∧ dim ≠ 0

/-- Rows are counted by whole numbers, and sizes listed by whole numbers that are not zero. -/
structure SpellsNumbers (table : ConeTable) : Prop where
  zero : ∃ count, table.rows? .zero = some count
  nonnegative : ∃ count, table.rows? .nonnegative = some count
  secondOrder : ∃ sizes, table.sizes? .secondOrder = some sizes ∧ 0 ∉ sizes

structure IsTidy (table : ConeTable) : Prop where
  semidefinite : table.SpellsSemidefinite
  numbers : Ecos.hasSemidefinite table = false → table.SpellsNumbers

theorem hasSemidefinite_erase_free (table : ConeTable) :
    Ecos.hasSemidefinite (table.erase .free) = Ecos.hasSemidefinite table := by
  rw [Ecos.hasSemidefinite, get?_erase (by decide), ← Ecos.hasSemidefinite]

theorem hasSemidefinite_eq_false : Ecos.hasSemidefinite table = false ↔
    ∀ extent, table.get? .semidefinite = some extent → extent.items = [] := by
  unfold Ecos.hasSemidefinite
  cases table.get? .semidefinite with
  | none => simp
  | some extent =>
    cases extent with
    | list items => cases items <;> simp [Extent.items]
    | integer | real | flag | text | absent => simp [Extent.items]

theorem hasSemidefinite_of_dims (success : table.blocks = .ok blocks)
    (some : Block.dims .semidefinite blocks ≠ []) : Ecos.hasSemidefinite table = true := by
  by_contra unnamed
  rcases dims_of_blocks success .semidefinite with ⟨_, none⟩ | ⟨extent, values, present, reads, same⟩
  · exact some none
  · have items := hasSemidefinite_eq_false.1 (by simpa using unnamed) extent present
    obtain rfl : values = [] := reads.eq (by rw [items]; rfl)
    exact some same

theorem spellsSemidefinite_iff (success : table.blocks = .ok blocks) : table.SpellsSemidefinite ↔
    (Ecos.hasSemidefinite table = true → Block.dims .semidefinite blocks ≠ []) := by
  rcases dims_of_blocks success .semidefinite with ⟨absent, _⟩ | ⟨extent, values, present, reads, same⟩
  · have unnamed := hasSemidefinite_eq_false.2 (by simp [absent] : ∀ extent,
      table.get? .semidefinite = some extent → extent.items = [])
    simp [SpellsSemidefinite, absent, unnamed]
  · have named : Ecos.hasSemidefinite table = true ↔ extent.items ≠ [] := by
      rw [← Bool.not_eq_false, hasSemidefinite_eq_false]
      simp [present]
    have dims : Block.dims .semidefinite blocks ≠ [] ↔
        ∃ item ∈ extent.items, ∃ dim, item.toInteger = .ok dim ∧ dim ≠ 0 := by
      rw [← exists_mem_mapM_iff reads.items, same, ne_eq, List.filter_eq_nil_iff]
      push Not
      refine exists_congr fun dim => and_congr_right fun listed => ?_
      have nonneg := reads.nonneg dim listed
      rw [decide_eq_true_eq]
      exact nonneg.lt_iff_ne'
    rw [named, dims]
    simp only [SpellsSemidefinite, present, Option.some.injEq, forall_eq']
    tauto

theorem dims_semidefinite_of_merge (same : Block.merge blocks = Block.merge blocks') :
    Block.dims .semidefinite blocks = Block.dims .semidefinite blocks' := by
  rw [← Block.dims_merge_of_listed rfl, same, Block.dims_merge_of_listed rfl]

theorem hasSemidefinite_eq_iff (success : table.blocks = .ok blocks)
    (success' : table'.blocks = .ok blocks') (same : Block.merge blocks = Block.merge blocks') :
    Ecos.hasSemidefinite table = Ecos.hasSemidefinite table' ↔
      (table.SpellsSemidefinite ↔ table'.SpellsSemidefinite) := by
  have dims := dims_semidefinite_of_merge same
  rw [spellsSemidefinite_iff success, spellsSemidefinite_iff success', ← dims, Bool.eq_iff_iff]
  by_cases none : Block.dims .semidefinite blocks = []
  · simp only [none, ne_eq, not_true_eq_false, imp_false]
    exact not_iff_not.symm
  · simp [none, hasSemidefinite_of_dims success none,
      hasSemidefinite_of_dims success' (dims ▸ none)]

theorem tiling_of_merge {rows : Nat} (success' : table'.blocks = .ok blocks')
    (same : Block.merge blocks = Block.merge blocks')
    (tiling : Block.checkTiling blocks rows = .ok ()) : Block.checkTiling blocks' rows = .ok () := by
  have own := Block.checkTiling_ok.1 (tiling_of_blocks success')
  have joined := Block.checkFrom_merge (Block.checkTiling_ok.1 tiling)
  rw [same, Block.checkFrom_merge own] at joined
  rw [Block.checkTiling_ok, own, joined]

theorem SpellsNumbers.hasNumbers (spells : table.SpellsNumbers) (success : table.blocks = .ok blocks) :
    Ecos.HasNumbers table (Block.dims .zero blocks).sum (Block.dims .nonnegative blocks).sum
      (Block.dims .secondOrder blocks) := by
  obtain ⟨_, zero⟩ := spells.zero
  obtain ⟨_, linear⟩ := spells.nonnegative
  obtain ⟨_, secondOrder, nonzero⟩ := spells.secondOrder
  refine ⟨⟨?_, ?_⟩, ?_⟩
  · rw [sum_dims_of_rows success linear, linear]
  · rw [dims_of_sizes? success secondOrder nonzero, secondOrder]
  · rw [sum_dims_of_rows success zero, zero]

theorem hasNumbers_erase_free {count rows : Int} {sizes : List Int}
    (numbers : Ecos.HasNumbers table count rows sizes) :
    Ecos.HasNumbers (table.erase .free) count rows sizes := by
  refine ⟨⟨?_, ?_⟩, ?_⟩
  · rw [rows?, get?_erase (by decide)]
    exact numbers.linear
  · rw [sizes?, get?_erase (by decide)]
    exact numbers.secondOrder
  · rw [rows?, get?_erase (by decide)]
    exact numbers.zero

theorem exists_numbers (success : table.blocks = .ok blocks) (success' : table'.blocks = .ok blocks')
    (same : Block.merge blocks = Block.merge blocks') (spells : table.SpellsNumbers)
    (spells' : table'.SpellsNumbers) : ∃ count rows sizes,
      Ecos.HasNumbers (table.erase .free) count rows sizes ∧
        Ecos.HasNumbers (table'.erase .free) count rows sizes := by
  have sums (cone : Cone) : (Block.dims cone blocks').sum = (Block.dims cone blocks).sum := by
    rw [← Block.sum_dims_merge, ← same, Block.sum_dims_merge]
  have sizes : Block.dims .secondOrder blocks' = Block.dims .secondOrder blocks := by
    rw [← Block.dims_merge_of_listed rfl, ← same, Block.dims_merge_of_listed rfl]
  have numbers' := spells'.hasNumbers success'
  rw [sums, sums, sizes] at numbers'
  exact ⟨_, _, _, hasNumbers_erase_free (spells.hasNumbers success), hasNumbers_erase_free numbers'⟩

end ConeTable

namespace Consulting

variable {α β γ : Type} {solvers : Solvers α} {log : Log α}

/--
Two runs fail alike before they ask anyone, or each of them asks the solver of equations and
inequalities once. Then the questions differ at most in the spelling of the dimensions, and where
the solver has one answer to both, so have the runs.
-/
def SendAlike (solvers : Solvers α) (run run' : Consulting α β) (log : Log α) : Prop :=
  (∃ cause, after run log = (.error cause, log) ∧ after run' log = (.error cause, log)) ∨
    ∃ call cones rows sizes, Ecos.HasDimensions call.cones rows sizes ∧
      Ecos.HasDimensions cones rows sizes ∧
      (after run log).2.calls = log.calls ++ [.ecos call] ∧
      (after run' log).2.calls = log.calls ++ [.ecos { call with cones }] ∧
      (solvers.ecos log.calls.length call = solvers.ecos log.calls.length { call with cones } →
        (after run log).1 = (after run' log).1)

variable {run run' : Consulting α β} {f f' : β → Consulting α γ}

theorem sendAlike_throw (cause : Failure α) :
    SendAlike solvers (throw cause : Consulting α β) (throw cause) log := .inl ⟨cause, rfl, rfl⟩

theorem sendAlike_ofExcept_bind {outcome : Outcome α β}
    (rest : ∀ value, outcome = .ok value → SendAlike solvers (f value) (f' value) log) :
    SendAlike solvers ((monadLift outcome : Consulting α β) >>= f) (monadLift outcome >>= f') log := by
  cases outcome with
  | error cause => exact .inl ⟨cause, rfl, rfl⟩
  | ok value => exact rest value rfl

theorem sendAlike_ok_bind {δ : Type} {outcome outcome' : Outcome α δ} {value value' : δ}
    {g g' : δ → Consulting α γ} (first : outcome = .ok value) (second : outcome' = .ok value')
    (rest : SendAlike solvers (g value) (g' value') log) :
    SendAlike solvers ((monadLift outcome : Consulting α δ) >>= g) (monadLift outcome' >>= g') log := by
  subst first second
  exact rest

theorem sendAlike_guard {refused : Prop} [Decidable refused] {cause : Failure α}
    {g g' : Unit → Consulting α γ} (rest : ¬refused → SendAlike solvers (g ()) (g' ()) log) :
    SendAlike solvers (if refused then throw cause >>= g else g ())
      (if refused then throw cause >>= g' else g' ()) log := by
  split_ifs with fault
  · exact .inl ⟨cause, rfl, rfl⟩
  · exact rest fault

theorem sendAlike_ecos_bind {call : EcosCall α} {cones : ConeTable} {rows : Int} {sizes : List Int}
    {g : EcosReply α → Consulting α β} (dims : Ecos.HasDimensions call.cones rows sizes)
    (dims' : Ecos.HasDimensions cones rows sizes) (quiet : ∀ reply, Quiet (g reply))
    (steady : ∀ reply, Steady (g reply)) :
    SendAlike solvers (ecos solvers call >>= g) (ecos solvers { call with cones } >>= g) log := by
  refine .inr ⟨call, cones, rows, sizes, dims, dims', quiet _ _, quiet _ _, ?_⟩
  intro answer
  change (after (g (solvers.ecos log.calls.length call)) _).1 =
    (after (g (solvers.ecos log.calls.length { call with cones })) _).1
  rw [answer]
  exact steady _ _ _

theorem SendAlike.bind (alike : SendAlike solvers run run' log) (quiet : ∀ value, Quiet (f value))
    (steady : ∀ value, Steady (f value)) : SendAlike solvers (run >>= f) (run' >>= f) log := by
  rcases alike with ⟨cause, failed, failed'⟩ | ⟨call, cones, rows, sizes, dims, dims', sent, sent', ends⟩
  · exact .inl ⟨cause, by rw [after_bind, failed], by rw [after_bind, failed']⟩
  · refine .inr ⟨call, cones, rows, sizes, dims, dims', ?_, ?_, ?_⟩
    · rw [calls_bind quiet, sent]
    · rw [calls_bind quiet, sent']
    · intro answer
      rw [after_bind, after_bind, ends answer]
      cases (after run' log).1 with
      | ok value => exact steady value _ _
      | error cause => rfl

end Consulting

namespace Ecos

variable {α : Type} {cones cones' : ConeTable} {count rows : Int} {sizes : List Int}

theorem equations_of_rows (given : cones.rows? .zero = some count) (rows entries : Nat) :
    equations cones rows entries = (.ok count.toNat : Outcome α Nat) := by
  unfold ConeTable.rows? at given
  unfold equations
  cases present : cones.get? .zero with
  | none =>
    rw [present] at given
    cases given
    rfl
  | some extent =>
    rw [present, Option.elim_some] at given
    cases extent with
    | integer n =>
      cases given
      rfl
    | flag b =>
      cases given
      rfl
    | real | text | absent | list => cases given

theorem exists_inequalityCones (dims : HasDimensions cones rows sizes) : ∃ sent,
    inequalityCones cones = (.ok sent : Outcome α ConeTable) ∧ HasDimensions sent rows sizes := by
  obtain ⟨linear, secondOrder⟩ := dims
  unfold inequalityCones
  unfold ConeTable.rows? at linear
  unfold ConeTable.sizes? at secondOrder
  cases listed : cones.get? .secondOrder with
  | none =>
    rw [listed] at secondOrder
    cases counted : cones.get? .nonnegative with
    | none =>
      rw [counted] at linear
      exact ⟨_, rfl, linear, secondOrder⟩
    | some extent =>
      rw [counted] at linear
      exact ⟨_, rfl, linear, secondOrder⟩
  | some extent =>
    rw [listed] at secondOrder
    cases extent with
    | list items =>
      cases counted : cones.get? .nonnegative with
      | none =>
        rw [counted] at linear
        exact ⟨_, rfl, linear, secondOrder⟩
      | some extent =>
        rw [counted] at linear
        exact ⟨_, rfl, linear, secondOrder⟩
    | integer | real | flag | text | absent => cases secondOrder

theorem solve_sendAlike [Scalar α] {m n : Nat} (solvers : Solvers α) (A : Sparse α m n)
    (b c : List α) (request : Request α) (log : Log α)
    (named : hasSemidefinite cones = hasSemidefinite cones')
    (numbers : hasSemidefinite cones = false → ∃ count rows sizes,
      HasNumbers cones count rows sizes ∧ HasNumbers cones' count rows sizes) :
    SendAlike solvers (solve solvers ⟨A, b, cones⟩ c request)
      (solve solvers ⟨A, b, cones'⟩ c request) log := by
  unfold solve
  rw [← named]
  refine sendAlike_guard fun flat => ?_
  obtain ⟨count, rows, sizes, spelled, spelled'⟩ := numbers (by simpa using flat)
  refine sendAlike_ok_bind (equations_of_rows spelled.zero _ _)
    (equations_of_rows spelled'.zero _ _) ?_
  refine sendAlike_ofExcept_bind fun G _ => ?_
  refine sendAlike_ofExcept_bind fun E _ => ?_
  refine sendAlike_guard fun _ => ?_
  obtain ⟨sent, read, dims⟩ : ∃ sent, inequalityCones cones = (.ok sent : Outcome α ConeTable) ∧
      HasDimensions sent rows sizes := exists_inequalityCones spelled.toHasDimensions
  obtain ⟨sent', read', dims'⟩ : ∃ sent, inequalityCones cones' = (.ok sent : Outcome α ConeTable) ∧
      HasDimensions sent rows sizes := exists_inequalityCones spelled'.toHasDimensions
  refine sendAlike_ok_bind read read' ?_
  refine sendAlike_ecos_bind ?_ dims' ?_ ?_
  · exact dims
  · intro reply
    exact quiet_bind (quiet_accept _) fun _ => quiet_bind (quiet_ofExcept _) fun _ => quiet_pure _
  · intro reply
    exact (steady_accept _).bind fun _ => (steady_ofExcept _).bind fun _ => steady_pure _

end Ecos

theorem Block.kept_merge {blocks : List Block} {rows : Nat}
    (tiling : checkTiling blocks rows = .ok ()) :
    Constraints.kept (merge blocks) rows = Constraints.kept blocks rows := by
  have accepted := checkTiling_ok.1 tiling
  have joined := checkFrom_merge accepted
  apply List.map_congr_left
  intro row listed
  have below := List.mem_range.1 listed
  have above : (0 : Int) ≤ row := Int.natCast_nonneg row
  obtain ⟨block, stored, holds⟩ := exists_of_checkFrom accepted above (Int.ofNat_lt.2 below)
  obtain ⟨other, stored', holds'⟩ := exists_of_checkFrom joined above (Int.ofNat_lt.2 below)
  have alike := sameRows_merge accepted row
  congr 1
  rw [Bool.eq_iff_iff, List.any_eq_true, List.any_eq_true]
  simp only [Bool.and_eq_true, decide_eq_true_eq, and_assoc]
  constructor
  · rintro ⟨free, inside, kind, bounds⟩
    exact ⟨block, stored, ((alike block stored free inside holds bounds).kind).trans kind, holds⟩
  · rintro ⟨free, inside, kind, bounds⟩
    exact ⟨other, stored', ((alike free inside other stored' bounds holds').kind).symm.trans kind,
      holds'⟩

namespace Solve

variable {α : Type} {m n : Nat} {table table' : ConeTable} {blocks blocks' : List Block} {b : List α}

theorem methodFor_absent_eq_iff : methodFor (table.erase .free) (.absent : Setting α) =
      methodFor (table'.erase .free) .absent ↔
    Ecos.hasSemidefinite table = Ecos.hasSemidefinite table' := by
  rw [methodFor, methodFor, ConeTable.hasSemidefinite_erase_free,
    ConeTable.hasSemidefinite_erase_free]
  cases Ecos.hasSemidefinite table <;> cases Ecos.hasSemidefinite table' <;> simp

variable [Scalar α]

theorem reduced_sendAlike (solvers : Solvers α) (A : Sparse α m n) (c : List α)
    {request : Request α} (log : Log α) (method : methodFor table request.method = .ok "ECOS")
    (method' : methodFor table' request.method = .ok "ECOS")
    (named : Ecos.hasSemidefinite table = Ecos.hasSemidefinite table')
    (numbers : Ecos.hasSemidefinite table = false → ∃ count rows sizes,
      Ecos.HasNumbers table count rows sizes ∧ Ecos.HasNumbers table' count rows sizes) :
    SendAlike solvers (reduced solvers ⟨A, b, table⟩ c request)
      (reduced solvers ⟨A, b, table'⟩ c request) log := by
  refine sendAlike_ok_bind method method' ?_
  split_ifs
  · exact sendAlike_throw _
  · exact Ecos.solve_sendAlike solvers A b c request log named numbers

/--
Two tables whose blocks are the same ones, joined, are given the same solver just if both spell their
semidefinite cones or neither does. If both are tidy, a solver of equations and inequalities is sent
the same for both, or nothing for either.
-/
theorem tables_alike (solvers : Solvers α) (A : Sparse α m n) (c : List α) (size : b.length = m)
    (success : table.blocks = .ok blocks) (success' : table'.blocks = .ok blocks')
    (same : Block.merge blocks = Block.merge blocks')
    (tiling : Block.checkTiling blocks m = .ok ()) :
    (methodFor (table.erase .free) (.absent : Setting α) = methodFor (table'.erase .free) .absent ↔
      (table.SpellsSemidefinite ↔ table'.SpellsSemidefinite)) ∧
    (table.IsTidy → table'.IsTidy → ∀ request : Request α,
      methodFor (table.erase .free) request.method = methodFor (table'.erase .free) request.method ∧
      (methodFor (table.erase .free) request.method = .ok "ECOS" → ∀ log,
        SendAlike solvers (full solvers ⟨A, b, table⟩ c request)
          (full solvers ⟨A, b, table'⟩ c request) log)) := by
  have chosen := (methodFor_absent_eq_iff (α := α)).trans
    (ConeTable.hasSemidefinite_eq_iff success success' same)
  refine ⟨chosen, ?_⟩
  intro tidy tidy' request
  have named : Ecos.hasSemidefinite table = Ecos.hasSemidefinite table' :=
    (ConeTable.hasSemidefinite_eq_iff success success' same).2
      (iff_of_true tidy.semidefinite tidy'.semidefinite)
  have method : methodFor (table.erase .free) request.method =
      methodFor (table'.erase .free) request.method := by
    cases request.method with
    | absent => exact methodFor_absent_eq_iff.2 named
    | _ => rfl
  refine ⟨method, ?_⟩
  intro ecos log
  have free : Constraints.kept blocks' m = Constraints.kept blocks m := by
    rw [← Block.kept_merge tiling, same,
      Block.kept_merge (ConeTable.tiling_of_merge success' same tiling)]
  obtain ⟨k, A', b', _, dropped⟩ := Constraints.exists_dropped A size blocks
  rw [full_eq, full_eq]
  refine sendAlike_ok_bind (dropped table blocks success rfl)
    (dropped table' blocks' success' free) ?_
  refine (reduced_sendAlike solvers A' c log ecos (method ▸ ecos) ?_ ?_).bind
    (fun _ => quiet_ofExcept _) fun _ => steady_ofExcept _
  · rw [ConeTable.hasSemidefinite_erase_free, ConeTable.hasSemidefinite_erase_free, named]
  · intro flat
    rw [ConeTable.hasSemidefinite_erase_free] at flat
    exact ConeTable.exists_numbers success success' same (tidy.numbers flat)
      (tidy'.numbers (named ▸ flat))

def bounds : ConeTable := [(.cone .nonnegative, .integer 2)]

def wordyBounds : ConeTable :=
  [(.cone .secondOrder, .list []), (.cone .zero, .flag false), (.cone .nonnegative, .integer 2)]

def boundsAndNothing : ConeTable :=
  [(.cone .nonnegative, .integer 2), (.cone .semidefinite, .list [.integer 0])]

theorem isTidy_bounds : bounds.IsTidy where
  semidefinite := by
    intro extent present
    cases present
  numbers _ := ⟨⟨0, rfl⟩, ⟨2, rfl⟩, ⟨[], rfl, List.not_mem_nil⟩⟩

theorem isTidy_wordyBounds : wordyBounds.IsTidy where
  semidefinite := by
    intro extent present
    cases present
  numbers _ := ⟨⟨0, rfl⟩, ⟨2, rfl⟩, ⟨[], rfl, List.not_mem_nil⟩⟩

theorem tables_alike_of_bounds :
    methodFor (bounds.erase .free) (.absent : Setting ℝ) =
      methodFor (wordyBounds.erase .free) .absent ∧
    SendAlike secondAnswer (full secondAnswer ⟨.identity 2, [1, 1], bounds⟩ [1, 1] {})
      (full secondAnswer ⟨.identity 2, [1, 1], wordyBounds⟩ [1, 1] {}) ⟨[], []⟩ := by
  have success : bounds.blocks = .ok [⟨.cone .nonnegative, 2, 0, 2⟩] := rfl
  have success' : wordyBounds.blocks = .ok [⟨.cone .nonnegative, 2, 0, 2⟩] := rfl
  obtain ⟨_, alike⟩ := tables_alike secondAnswer (.identity 2) [1, 1] (b := [1, 1]) rfl success
    success' rfl rfl
  obtain ⟨method, sent⟩ := alike isTidy_bounds isTidy_wordyBounds {}
  exact ⟨method, sent rfl _⟩

/-- A semidefinite cone without rows leaves no block, and changes the solver. -/
theorem boundsAndNothing_changes_solver : (∃ blocks, bounds.blocks = .ok blocks ∧
      boundsAndNothing.blocks = .ok blocks) ∧
    methodFor (bounds.erase .free) (.absent : Setting ℝ) = .ok "ECOS" ∧
    methodFor (boundsAndNothing.erase .free) (.absent : Setting ℝ) = .ok "SCS" ∧
    (after (full secondAnswer ⟨.identity 2, [1, 1], boundsAndNothing⟩ [1, 1]
      { method := .text "ECOS" }) ⟨[], []⟩).1 = .error .semidefiniteRefused :=
  ⟨⟨_, rfl, rfl⟩, rfl, rfl, rfl⟩

end Solve

end ConicDerivative
