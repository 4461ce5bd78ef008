import ConicDerivative.Proofs.RereadTables

/-!
The block lists that tile a number of rows. The check accepts a list just if it is the layout of its
own cones and dimensions from row zero and ends at the last row; every row then lies in exactly one
block. Any other list is refused for its rows or for a kind that is no cone, as long as the sizes of
its semidefinite blocks are doubles.
-/

namespace ConicDerivative.Block

open Outcomes

variable {blocks rest : List Block} {block : Block} {offset stop rows : Int}

def lastStop (blocks : List Block) (offset : Int) : Int :=
  (blocks.getLast?.map Block.stop).getD offset

theorem lastStop_cons (block : Block) (rest : List Block) (offset : Int) :
    lastStop (block :: rest) offset = lastStop rest block.stop := by
  cases rest with
  | nil => rfl
  | cons next rest => simp [lastStop, List.getLast?_cons]

/-- The block asks for a size, which is not negative. -/
def HasSize (block : Block) : Prop := ∃ size, block.kind.rowCount block.dim = .ok size ∧ 0 ≤ size

theorem checkFrom_of_hasSize (sizes : ∀ block ∈ blocks, block.HasSize)
    (laid : layOut (blocks.map fun block => (block.kind, block.dim)) offset = .ok blocks) :
    checkFrom blocks offset = .ok (lastStop blocks offset) := by
  induction blocks generalizing offset with
  | nil => rfl
  | cons block rest ih =>
    obtain ⟨size, later, counted, laid, same⟩ := layOut_cons_ok.1 laid
    obtain ⟨head, rfl⟩ := List.cons.inj same
    obtain ⟨size', counted', nonneg⟩ := sizes block List.mem_cons_self
    obtain rfl : size' = size := Except.ok.inj (counted'.symm.trans counted)
    have start : block.start = offset := congrArg Block.start head
    have past : block.stop = offset + size' := congrArg Block.stop head
    rw [← past] at laid
    rw [lastStop_cons, checkFrom_cons_ok, Block.size, counted, start, past]
    refine ⟨rfl, le_add_of_nonneg_right nonneg, by rw [add_sub_cancel_left], ?_⟩
    rw [← past]
    exact ih (fun other listed => sizes other (List.mem_cons_of_mem _ listed)) laid

theorem lastStop_of_checkFrom (accepted : checkFrom blocks offset = .ok stop) :
    lastStop blocks offset = stop := by
  induction blocks generalizing offset with
  | nil => exact Except.ok.inj accepted
  | cons block rest ih =>
    obtain ⟨_, _, _, accepted⟩ := checkFrom_cons_ok.1 accepted
    rw [lastStop_cons]
    exact ih accepted

/-- The blocks are cones, laid out with their sizes from row zero up to the last row. -/
structure Tiles (blocks : List Block) (rows : Int) : Prop where
  cone : ∀ block ∈ blocks, ∃ cone, block.kind = .cone cone
  hasSize : ∀ block ∈ blocks, block.HasSize
  layOut_eq : layOut (blocks.map fun block => (block.kind, block.dim)) 0 = .ok blocks
  lastStop_eq : lastStop blocks 0 = rows

theorem tiles_iff : Tiles blocks rows ↔ checkFrom blocks 0 = .ok rows := by
  constructor
  · intro tiles
    rw [checkFrom_of_hasSize tiles.hasSize tiles.layOut_eq, tiles.lastStop_eq]
  · intro accepted
    have counted := rowCount_of_checkFrom accepted
    obtain ⟨_, bounds⟩ := bounds_of_checkFrom accepted
    refine ⟨?_, ?_, layOut_of_checkFrom accepted, lastStop_of_checkFrom accepted⟩
    · intro block listed
      exact Kind.exists_cone (counted block listed)
    · intro block listed
      obtain ⟨_, order, _⟩ := bounds block listed
      exact ⟨block.size, counted block listed, sub_nonneg.2 order⟩

theorem eq_of_hasRow (accepted : checkFrom blocks offset = .ok stop) {row : Int}
    {i j : Fin blocks.length} (holds : (blocks.get i).HasRow row)
    (holds' : (blocks.get j).HasRow row) : i = j := by
  induction blocks generalizing offset with
  | nil => exact i.elim0
  | cons block rest ih =>
    obtain ⟨_, _, _, accepted⟩ := checkFrom_cons_ok.1 accepted
    have later (k : Fin rest.length) : block.stop ≤ (rest.get k).start :=
      ((bounds_of_checkFrom accepted).2 _ (List.get_mem rest k)).1
    cases i using Fin.cases with
    | zero =>
      cases j using Fin.cases with
      | zero => rfl
      | succ j => exact absurd (holds.2.trans_le ((later j).trans holds'.1)) (lt_irrefl row)
    | succ i =>
      cases j using Fin.cases with
      | zero => exact absurd (holds'.2.trans_le ((later i).trans holds.1)) (lt_irrefl row)
      | succ j => exact congrArg Fin.succ (ih accepted holds holds')

/-- Each row has one block, and no block leaves the rows. -/
structure Partitions (blocks : List Block) (rows : Int) : Prop where
  exists_unique : ∀ row, 0 ≤ row → row < rows → ∃! i : Fin blocks.length, (blocks.get i).HasRow row
  inside : ∀ block ∈ blocks, 0 ≤ block.start ∧ block.start ≤ block.stop ∧ block.stop ≤ rows

theorem partitions_of_checkFrom (accepted : checkFrom blocks 0 = .ok rows) :
    Partitions blocks rows := by
  refine ⟨?_, (bounds_of_checkFrom accepted).2⟩
  intro row above below
  obtain ⟨block, listed, holds⟩ := exists_of_checkFrom accepted above below
  obtain ⟨i, rfl⟩ := List.get_of_mem listed
  exact ⟨i, holds, fun j holds' => eq_of_hasRow accepted holds' holds⟩

/-- The number of entries of a semidefinite block is a finite double. -/
def IsCountable (block : Block) : Prop :=
  block.kind = .cone .semidefinite → Binary64.round (block.dim * (block.dim + 1) / 2).toNat ≠ none

/-- The causes that concern rows or kinds. -/
def Misfits (cause : LayoutError) : Prop :=
  cause.category = .dimension ∨ cause.category = .unsupportedCone

theorem rowCount_misfits (countable : block.IsCountable) :
    FailsWith Misfits (block.kind.rowCount block.dim) := by
  unfold IsCountable at countable
  cases kind : block.kind with
  | other | literal | unnamed => exact failsWith_error (.inr rfl)
  | cone cone =>
    cases cone with
    | zero | free | nonnegative | secondOrder => exact failsWith_ok block.dim
    | semidefinite =>
      have finite := countable kind
      unfold Kind.rowCount packedSize
      cases rounded : Binary64.round (block.dim * (block.dim + 1) / 2).toNat with
      | none => exact absurd rounded finite
      | some size => exact failsWith_ok (size : Int)

theorem checkFrom_misfits (countable : ∀ block ∈ blocks, block.IsCountable) (offset : Int) :
    FailsWith Misfits (checkFrom blocks offset) := by
  induction blocks generalizing offset with
  | nil => exact failsWith_ok offset
  | cons block rest ih =>
    rw [checkFrom_cons]
    split_ifs
    · exact failsWith_error (.inl rfl)
    · exact failsWith_error (.inl rfl)
    · refine failsWith_bind (rowCount_misfits (countable block List.mem_cons_self)) fun size => ?_
      split_ifs
      · exact failsWith_error (.inl rfl)
      · exact ih (fun other listed => countable other (List.mem_cons_of_mem _ listed)) block.stop

theorem checkTiling_misfits (countable : ∀ block ∈ blocks, block.IsCountable) (rows : Int) :
    FailsWith Misfits (checkTiling blocks rows) := by
  rw [checkTiling_eq]
  refine failsWith_bind (checkFrom_misfits countable 0) fun covered => ?_
  split_ifs
  · exact failsWith_error (.inl rfl)
  · exact failsWith_ok ()

/--
The check passes just the blocks that tile the rows, which partition them. It refuses all others for
their rows or for a kind, where no size leaves the doubles.
-/
theorem checkTiling_iff_tiles (countable : ∀ block ∈ blocks, block.IsCountable) (rows : Int) :
    (checkTiling blocks rows = .ok () ↔ Tiles blocks rows) ∧
      (Tiles blocks rows → Partitions blocks rows) ∧
      (¬Tiles blocks rows → ∃ cause, checkTiling blocks rows = .error cause ∧ Misfits cause) := by
  have passes : checkTiling blocks rows = .ok () ↔ Tiles blocks rows :=
    checkTiling_ok.trans tiles_iff.symm
  refine ⟨passes, fun tiles => partitions_of_checkFrom (tiles_iff.1 tiles), ?_⟩
  intro apart
  cases checked : checkTiling blocks rows with
  | ok value => exact absurd (passes.1 checked) apart
  | error cause => exact ⟨cause, rfl, checkTiling_misfits countable rows cause checked⟩

def equationsAndMatrix : List Block :=
  [⟨.cone .zero, 2, 0, 2⟩, ⟨.cone .semidefinite, 2, 2, 5⟩]

theorem countable_equationsAndMatrix : ∀ block ∈ equationsAndMatrix, block.IsCountable := by
  unfold equationsAndMatrix
  rw [List.forall_mem_cons, List.forall_mem_singleton]
  refine ⟨nofun, fun _ => ?_⟩
  have count : ((2 : Int) * (2 + 1) / 2).toNat = 3 := rfl
  rw [count, Binary64.round_of_lt (by norm_num)]
  exact Option.some_ne_none 3

theorem checkFrom_equationsAndMatrix : checkFrom equationsAndMatrix 0 = .ok 5 := by
  have matrix : (Kind.cone .semidefinite).rowCount 2 = .ok 3 :=
    rowCount_triangle (d := 2) (by decide)
  unfold equationsAndMatrix
  simp only [checkFrom_cons_ok]
  exact ⟨trivial, by decide, rfl, trivial, by decide, matrix, rfl⟩

theorem checkTiling_equationsAndMatrix : (∀ block ∈ equationsAndMatrix, block.IsCountable) ∧
    checkTiling equationsAndMatrix 5 = .ok () ∧ Partitions equationsAndMatrix 5 ∧
      ∃ cause, checkTiling equationsAndMatrix 6 = .error cause ∧ Misfits cause := by
  have countable := countable_equationsAndMatrix
  have tiles := tiles_iff.2 checkFrom_equationsAndMatrix
  obtain ⟨passes, partitions, _⟩ := checkTiling_iff_tiles countable 5
  obtain ⟨_, _, refused⟩ := checkTiling_iff_tiles countable 6
  have apart : ¬Tiles equationsAndMatrix 6 := by
    intro tiles'
    exact absurd (tiles.lastStop_eq.symm.trans tiles'.lastStop_eq) (by decide)
  exact ⟨countable, passes.2 tiles, partitions tiles, refused apart⟩

end ConicDerivative.Block
