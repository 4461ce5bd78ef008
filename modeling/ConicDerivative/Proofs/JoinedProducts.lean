import ConicDerivative.Proofs.JoinedBlocks
import ConicDerivative.Proofs.ProductDerivatives

/-!
Projections and derivatives of joined blocks. A run of rows is projected row by row, so it makes no
difference whether two adjacent runs of one kind are projected one after the other or as one. The
same holds of the matrix of the derivative, which is the same matrix down to its stored entries. No
sum and no rounding is involved: this holds in any arithmetic and for a vector of any length.
-/

namespace ConicDerivative

open Outcomes Scalar

namespace Vec

variable {α : Type} {n : Nat} {whole first second : Span n}

namespace Span

structure Splits (whole first second : Span n) : Prop where
  start_eq : first.start = whole.start
  adjacent : second.start = first.stop
  stop_eq : second.stop = whole.stop

theorem splits_between (n : Nat) {a b c : Int} (nonneg : 0 ≤ a) (order : a ≤ b) (order' : b ≤ c) :
    (between n a c).Splits (between n a b) (between n b c) := by
  refine ⟨rfl, ?_, ?_⟩
  · simp only [between, edge]
    split_ifs <;> omega
  · simp only [between, edge]
    split_ifs <;> omega

theorem Splits.size (splits : whole.Splits first second) :
    whole.size = first.size + second.size := by
  obtain ⟨start, adjacent, stop⟩ := splits
  have := first.start_le
  have := second.start_le
  simp only [Span.size]
  omega

theorem Splits.contains_iff (splits : whole.Splits first second) (i : Fin n) :
    whole.Contains i ↔ first.Contains i ∨ second.Contains i := by
  obtain ⟨start, adjacent, stop⟩ := splits
  have := first.start_le
  have := second.start_le
  simp only [Contains]
  omega

end Span

theorem slice_of_splits (splits : whole.Splits first second) (x : Vector α n) :
    (slice x whole).cast splits.size = slice x first ++ slice x second := by
  have start := splits.start_eq
  have adjacent := splits.adjacent
  apply ext
  intro i
  have entry : (slice x whole).cast splits.size i = x (whole.index (i.cast splits.size.symm)) :=
    slice_apply x whole (i.cast splits.size.symm)
  rw [entry]
  cases i using Fin.addCases with
  | left i =>
    rw [← left_apply, left_append, slice_apply]
    congr 1
    apply Fin.ext
    simp only [Span.index, Fin.val_cast, Fin.val_castAdd, start]
  | right i =>
    have order := first.start_le
    have count : first.size = first.stop - first.start := rfl
    rw [← right_apply, right_append, slice_apply]
    congr 1
    apply Fin.ext
    simp only [Span.index, Fin.val_cast, Fin.val_natAdd]
    omega

theorem overwrite_map_slice (p x : Vector α n) (s : Span n) (f : α → α) (i : Fin n) :
    overwrite p s ((slice x s).map f) i = if s.Contains i then f (x i) else p i := by
  split_ifs with inside
  · rw [overwrite_of_contains inside, map_apply, slice_apply, Span.index_offset]
  · exact overwrite_of_not_contains inside

theorem overwrite_of_splits (splits : whole.Splits first second) (p x : Vector α n) (f : α → α) :
    overwrite (overwrite p first ((slice x first).map f)) second ((slice x second).map f) =
      overwrite p whole ((slice x whole).map f) := by
  apply ext
  intro i
  simp only [overwrite_map_slice, splits.contains_iff]
  by_cases here : first.Contains i <;> by_cases there : second.Contains i <;> simp [here, there]

end Vec

namespace Sparse

variable {α : Type} {m n k l p q : Nat}

def listing (A : Sparse α m n) : List (List (Nat × α)) :=
  A.columns.toList.map fun column => column.map fun entry => (entry.1.val, entry.2)

theorem listing_diagonal (A : Sparse α m n) (B : Sparse α k l) :
    (diagonal A B).listing =
      A.listing ++ B.listing.map fun column => column.map fun entry => (m + entry.1, entry.2) := by
  simp [listing, diagonal, Vector.toList_append, Vector.toList_map, Function.comp_def]

theorem sized_eq_of_listing {A : Sparse α m n} {B : Sparse α k l} (rows : m = k) (cols : n = l)
    (same : A.listing = B.listing) : (⟨A⟩ : Sized (Sparse α)) = ⟨B⟩ := by
  subst rows cols
  obtain ⟨a⟩ := A
  obtain ⟨b⟩ := B
  have entry : Function.Injective fun entry : Fin m × α => (entry.1.val, entry.2) := by
    rintro ⟨i, v⟩ ⟨j, w⟩ equal
    obtain ⟨row, value⟩ := Prod.mk.inj equal
    exact Prod.ext (Fin.ext row) value
  have columns : a.toList = b.toList :=
    List.map_injective_iff.2 (List.map_injective_iff.2 entry) same
  rw [Vector.toList_inj.1 columns]

theorem diagonal_assoc (A : Sparse α m n) (B : Sparse α k l) (C : Sparse α p q) :
    (⟨diagonal (diagonal A B) C⟩ : Sized (Sparse α)) = ⟨diagonal A (diagonal B C)⟩ := by
  apply sized_eq_of_listing (Nat.add_assoc m k p) (Nat.add_assoc n l q)
  simp [listing_diagonal, Function.comp_def, Nat.add_assoc]

end Sparse

namespace Cone

variable {α : Type} [Scalar α] {cone : Cone} {k l : Nat}

def rowImage : Cone → α → α
  | zero, _ => 0
  | nonnegative, v => positivePart v
  | free, v | secondOrder, v | semidefinite, v => v

def rowKeeps : Cone → α → Bool
  | zero, _ => false
  | nonnegative, v => decide (0 < v)
  | free, _ | secondOrder, _ | semidefinite, _ => true

theorem isListed_dual (cone : Cone) : cone.dual.isListed = cone.isListed := by
  cases cone <;> rfl

section

variable [EigenSolver α]

theorem project_of_run (run : cone.isListed = false) (x : Vector α k) :
    cone.project x = .ok (x.map cone.rowImage) := by
  cases cone with
  | secondOrder | semidefinite => cases run
  | zero =>
    refine congrArg Except.ok (Vector.ext fun i inside => ?_)
    simp [rowImage]
  | free =>
    refine congrArg Except.ok (Vector.ext fun i inside => ?_)
    simp [rowImage]
  | nonnegative => rfl

theorem derivativeMatrix_of_run (run : cone.isListed = false) (x : Vector α k) :
    cone.derivativeMatrix x = .ok (mask (x.map cone.rowKeeps)) := by
  cases cone with
  | secondOrder | semidefinite => cases run
  | zero =>
    refine congrArg (fun keep => Except.ok (mask keep)) (Vector.ext fun i inside => ?_)
    simp [rowKeeps]
  | free =>
    refine congrArg (fun keep => Except.ok (mask keep)) (Vector.ext fun i inside => ?_)
    simp [rowKeeps]
  | nonnegative => rfl

end

theorem mask_append (u : Vector Bool k) (v : Vector Bool l) :
    (mask (u ++ v) : Sparse α (k + l) (k + l)) = Sparse.diagonal (mask u) (mask v) := by
  refine congrArg Sparse.mk (Vec.ext fun i => ?_)
  cases i using Fin.addCases with
  | left i =>
    rw [Vec.ofFn_apply, ← Vec.left_apply, Vec.left_append, ← Vec.left_apply, Vec.left_append,
      Vec.map_apply, mask, Vec.ofFn_apply]
    split_ifs <;> rfl
  | right i =>
    rw [Vec.ofFn_apply, ← Vec.right_apply, Vec.right_append, ← Vec.right_apply, Vec.right_append,
      Vec.map_apply, mask, Vec.ofFn_apply]
    split_ifs <;> rfl

theorem mask_of_cast {r : Nat} {w : Vector Bool r} {u : Vector Bool k} {v : Vector Bool l}
    (size : r = k + l) (same : w.cast size = u ++ v) :
    (⟨mask w⟩ : Sized (Sparse α)) = ⟨Sparse.diagonal (mask u) (mask v)⟩ := by
  subst size
  obtain rfl : w = u ++ v := same
  exact congrArg (fun A : Sparse α (k + l) (k + l) => (⟨A⟩ : Sized (Sparse α))) (mask_append u v)

end Cone

theorem Kind.exists_target_of_isRun {kind : Kind} (run : kind.isRun = true) (dual : Bool) :
    ∃ cone, kind.target dual = .ok cone ∧ cone.isListed = false := by
  cases kind with
  | other | literal | unnamed => cases run
  | cone cone =>
    refine ⟨_, rfl, ?_⟩
    cases dual <;> simpa [isRun, Cone.isListed_dual] using run

namespace Block

variable {α : Type} [Scalar α] [EigenSolver α] {n : Nat} {block : Block} {cone : Cone} {dual : Bool}

theorem project_of_run (target : block.kind.target dual = .ok cone) (run : cone.isListed = false)
    (x : Vector α n) :
    block.project x dual = .ok ((Vec.slice x (block.span n)).map cone.rowImage) :=
  project_eq_ok.2 ⟨cone, target, cone.project_of_run run _⟩

theorem derivativeMatrix_of_run (target : block.kind.target dual = .ok cone)
    (run : cone.isListed = false) (x : Vector α n) :
    block.derivativeMatrix x dual =
      .ok (Cone.mask ((Vec.slice x (block.span n)).map cone.rowKeeps)) :=
  derivativeMatrix_eq_ok.2 ⟨cone, target, cone.derivativeMatrix_of_run run _⟩

structure Joins (whole first second : Block) : Prop where
  isRun : whole.kind.isRun = true
  first_kind : first.kind = whole.kind
  second_kind : second.kind = whole.kind
  splits : ∀ n, (whole.span n).Splits (first.span n) (second.span n)

theorem merge_cons (block : Block) (rest : List Block) :
    merge (block :: rest) = join block (merge rest) := rfl

theorem checkFrom_cons_merge {rest : List Block} {offset stop : Int}
    (accepted : checkFrom (block :: rest) offset = .ok stop) :
    checkFrom (block :: merge rest) offset = .ok stop := by
  obtain ⟨start, order, count, accepted⟩ := checkFrom_cons_ok.1 accepted
  exact checkFrom_cons_ok.2 ⟨start, order, count, checkFrom_merge accepted⟩

theorem joins_of_checkFrom {first second : Block} {rest : List Block} {offset stop : Int}
    (accepted : checkFrom (first :: second :: rest) offset = .ok stop) (nonneg : 0 ≤ offset)
    (same : first.kind = second.kind) (run : first.kind.isRun = true) :
    Joins ⟨first.kind, first.dim + second.dim, first.start, second.stop⟩ first second := by
  obtain ⟨start, order, _, accepted⟩ := checkFrom_cons_ok.1 accepted
  obtain ⟨adjacent, order', _, _⟩ := checkFrom_cons_ok.1 accepted
  refine ⟨run, rfl, same.symm, fun n => ?_⟩
  have splits := Vec.Span.splits_between n (start ▸ nonneg) order (adjacent ▸ order')
  simp only [span, adjacent]
  exact splits

end Block

namespace ProductCone

variable {α : Type} [Scalar α] [EigenSolver α] {n : Nat} {block whole first second : Block}
  {blocks rest : List Block} {offset stop : Int} {dual : Bool}

def place (x : Vector α n) (dual : Bool) (projection : Vector α n) (block : Block) :
    Outcome α (Vector α n) := do
  return Vec.overwrite projection (block.span n) (← block.project x dual)

theorem project_eq_foldlM (blocks : List Block) (x : Vector α n) (dual : Bool) :
    project blocks x dual = blocks.foldlM (place x dual) (Vector.replicate n 0) := rfl

theorem place_of_run {cone : Cone} (target : block.kind.target dual = .ok cone)
    (run : cone.isListed = false) (x p : Vector α n) :
    place x dual p block = .ok (Vec.overwrite p (block.span n)
      ((Vec.slice x (block.span n)).map cone.rowImage)) := by
  rw [place, Block.project_of_run target run]
  rfl

/-- Two runs are projected as the one that has their rows. -/
theorem place_of_joins (joins : Block.Joins whole first second) (x p : Vector α n) :
    (place x dual p first >>= fun q => place x dual q second) = place x dual p whole := by
  obtain ⟨cone, target, flat⟩ := Kind.exists_target_of_isRun joins.isRun dual
  have here : first.kind.target dual = .ok cone := joins.first_kind ▸ target
  have there : second.kind.target dual = .ok cone := joins.second_kind ▸ target
  rw [place_of_run target flat, place_of_run here flat,
    ← Vec.overwrite_of_splits (joins.splits n), ← place_of_run there flat]
  rfl

theorem foldlM_join (accepted : Block.checkFrom (block :: rest) offset = .ok stop)
    (nonneg : 0 ≤ offset) (x p : Vector α n) :
    (Block.join block rest).foldlM (place x dual) p = (block :: rest).foldlM (place x dual) p := by
  cases rest with
  | nil => rfl
  | cons next rest =>
    by_cases joined : block.kind = next.kind ∧ block.kind.isRun = true
    · have joins := Block.joins_of_checkFrom accepted nonneg joined.1 joined.2
      rw [Block.join_of_run joined.1 joined.2, List.foldlM_cons, ← place_of_joins joins, bind_assoc]
      rfl
    · rw [Block.join_of_not_run joined]

theorem foldlM_merge (tiled : Block.checkFrom blocks offset = .ok stop) (nonneg : 0 ≤ offset)
    (x p : Vector α n) :
    (Block.merge blocks).foldlM (place x dual) p = blocks.foldlM (place x dual) p := by
  induction blocks generalizing offset p with
  | nil => rfl
  | cons block rest ih =>
    obtain ⟨start, order, _, accepted⟩ := Block.checkFrom_cons_ok.1 tiled
    have later : 0 ≤ block.stop := nonneg.trans (start ▸ order)
    rw [Block.merge_cons, foldlM_join (Block.checkFrom_cons_merge tiled) nonneg, List.foldlM_cons,
      List.foldlM_cons]
    exact congrArg (place x dual p block >>= ·) (funext fun q => ih accepted later q)

/-- Joined blocks have the projection of the single ones. -/
theorem project_merge (accepted : Block.checkFrom blocks offset = .ok stop) (nonneg : 0 ≤ offset)
    (x : Vector α n) (dual : Bool) :
    project (Block.merge blocks) x dual = project blocks x dual := by
  rw [project_eq_foldlM, project_eq_foldlM]
  exact foldlM_merge accepted nonneg x _

theorem derivativeMatrix_cons (block : Block) (rest : List Block) (x : Vector α n) (dual : Bool) :
    derivativeMatrix (block :: rest) x dual =
      (block.derivativeMatrix x dual >>= fun first => (derivativeMatrix rest x dual).map
        fun whole => ⟨Sparse.diagonal first whole.value⟩) := by
  unfold derivativeMatrix
  rw [List.mapM_cons]
  cases block.derivativeMatrix x dual with
  | error cause => rfl
  | ok first =>
    cases rest.mapM fun block =>
        (do return ⟨← block.derivativeMatrix x dual⟩ : Outcome α (Sized (Sparse α))) with
    | error cause => rfl
    | ok others => rfl

omit [EigenSolver α] in
theorem diagonal_of_joins (joins : Block.Joins whole first second) (x : Vector α n) (cone : Cone)
    (tail : Sized (Sparse α)) :
    (⟨Sparse.diagonal (Cone.mask ((Vec.slice x (whole.span n)).map cone.rowKeeps)) tail.value⟩ :
        Sized (Sparse α)) =
      ⟨Sparse.diagonal (Cone.mask ((Vec.slice x (first.span n)).map cone.rowKeeps))
        (Sparse.diagonal (Cone.mask ((Vec.slice x (second.span n)).map cone.rowKeeps))
          tail.value)⟩ := by
  have keeps : ((Vec.slice x (whole.span n)).map cone.rowKeeps).cast (joins.splits n).size =
      (Vec.slice x (first.span n)).map cone.rowKeeps ++
        (Vec.slice x (second.span n)).map cone.rowKeeps := by
    rw [← Vector.map_append, ← Vec.slice_of_splits (joins.splits n)]
    rfl
  have mask : (⟨Cone.mask ((Vec.slice x (whole.span n)).map cone.rowKeeps)⟩ : Sized (Sparse α)) =
      ⟨Sparse.diagonal _ _⟩ := Cone.mask_of_cast _ keeps
  rw [← Sparse.diagonal_assoc]
  exact congrArg
    (fun A : Sized (Sparse α) => (⟨Sparse.diagonal A.value tail.value⟩ : Sized (Sparse α))) mask

theorem derivativeMatrix_of_joins (joins : Block.Joins whole first second) (rest : List Block)
    (x : Vector α n) (dual : Bool) :
    derivativeMatrix (whole :: rest) x dual =
      derivativeMatrix (first :: second :: rest) x dual := by
  obtain ⟨cone, target, flat⟩ := Kind.exists_target_of_isRun joins.isRun dual
  have here : first.kind.target dual = .ok cone := joins.first_kind ▸ target
  have there : second.kind.target dual = .ok cone := joins.second_kind ▸ target
  rw [derivativeMatrix_cons, derivativeMatrix_cons, derivativeMatrix_cons,
    Block.derivativeMatrix_of_run target flat, Block.derivativeMatrix_of_run here flat,
    Block.derivativeMatrix_of_run there flat]
  cases derivativeMatrix rest x dual with
  | error cause => rfl
  | ok tail => exact congrArg Except.ok (diagonal_of_joins joins x cone tail)

theorem derivativeMatrix_join (accepted : Block.checkFrom (block :: rest) offset = .ok stop)
    (nonneg : 0 ≤ offset) (x : Vector α n) (dual : Bool) :
    derivativeMatrix (Block.join block rest) x dual = derivativeMatrix (block :: rest) x dual := by
  cases rest with
  | nil => rfl
  | cons next rest =>
    by_cases joined : block.kind = next.kind ∧ block.kind.isRun = true
    · rw [Block.join_of_run joined.1 joined.2]
      exact derivativeMatrix_of_joins
        (Block.joins_of_checkFrom accepted nonneg joined.1 joined.2) rest x dual
    · rw [Block.join_of_not_run joined]

/-- Joined blocks have the matrix of the single ones. -/
theorem derivativeMatrix_merge (tiled : Block.checkFrom blocks offset = .ok stop)
    (nonneg : 0 ≤ offset) (x : Vector α n) (dual : Bool) :
    derivativeMatrix (Block.merge blocks) x dual = derivativeMatrix blocks x dual := by
  induction blocks generalizing offset with
  | nil => rfl
  | cons block rest ih =>
    obtain ⟨start, order, _, accepted⟩ := Block.checkFrom_cons_ok.1 tiled
    have later : 0 ≤ block.stop := nonneg.trans (start ▸ order)
    rw [Block.merge_cons, derivativeMatrix_join (Block.checkFrom_cons_merge tiled) nonneg,
      derivativeMatrix_cons, ih accepted later, ← derivativeMatrix_cons]

end ProductCone

end ConicDerivative
