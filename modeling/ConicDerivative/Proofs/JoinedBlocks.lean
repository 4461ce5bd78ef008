import ConicDerivative.Proofs.TableBlocks

/-!
Adjacent blocks joined. A zero, a free and a nonnegative cone are no more than cones on their single
rows, so two of one kind that follow one another may as well be one. Joining them moves no row to
another cone, and leaves second-order and semidefinite blocks as they are.
-/

namespace ConicDerivative

open Outcomes

/-- Whether the blocks of a kind are runs of rows, of any length. -/
def Kind.isRun : Kind → Bool
  | .cone c => !c.isListed
  | .other _ | .literal _ | .unnamed => false

theorem Kind.rowCount_of_isRun {kind : Kind} (run : kind.isRun = true) (dim : Int) :
    kind.rowCount dim = .ok dim := by
  cases kind with
  | other name | literal text | unnamed => cases run
  | cone c =>
    cases c with
    | zero | free | nonnegative => rfl
    | secondOrder | semidefinite => cases run

theorem Cone.rowCount_zero (cone : Cone) : (Kind.cone cone).rowCount 0 = .ok 0 := by
  cases cone with
  | zero | free | nonnegative | secondOrder => rfl
  | semidefinite =>
    have value : ((0 : Int) * (0 + 1) / 2).toNat = 0 := rfl
    have none : Binary64.round 0 = some 0 := Binary64.round_of_lt (by norm_num)
    unfold Kind.rowCount packedSize
    rw [value, none]
    rfl

namespace Block

def join (block : Block) : List Block → List Block
  | [] => [block]
  | next :: rest =>
    if block.kind = next.kind ∧ block.kind.isRun then
      ⟨block.kind, block.dim + next.dim, block.start, next.stop⟩ :: rest
    else block :: next :: rest

/-- The blocks with adjacent runs of one kind joined. -/
def merge (blocks : List Block) : List Block := blocks.foldr join []

def HasRow (block : Block) (row : Int) : Prop := block.start ≤ row ∧ row < block.stop

structure Alike (block other : Block) : Prop where
  kind : block.kind = other.kind
  eq : ¬block.kind.isRun → block = other

/-- On every row that both lists cover, their blocks are alike. -/
def SameRows (blocks others : List Block) : Prop :=
  ∀ row, ∀ block ∈ blocks, ∀ other ∈ others, block.HasRow row → other.HasRow row →
    block.Alike other

variable {block next : Block} {blocks rest : List Block} {offset stop : Int}

theorem join_of_run (same : block.kind = next.kind) (run : block.kind.isRun = true) :
    join block (next :: rest) =
      ⟨block.kind, block.dim + next.dim, block.start, next.stop⟩ :: rest :=
  if_pos ⟨same, run⟩

theorem join_of_not_run (apart : ¬(block.kind = next.kind ∧ block.kind.isRun = true)) :
    join block (next :: rest) = block :: next :: rest :=
  if_neg apart

theorem checkFrom_join (accepted : checkFrom (block :: blocks) offset = .ok stop) :
    checkFrom (join block blocks) offset = .ok stop := by
  cases blocks with
  | nil => exact accepted
  | cons next rest =>
    by_cases joined : block.kind = next.kind ∧ block.kind.isRun = true
    · obtain ⟨same, run⟩ := joined
      obtain ⟨start, order, count, accepted⟩ := checkFrom_cons_ok.1 accepted
      obtain ⟨start', order', count', accepted⟩ := checkFrom_cons_ok.1 accepted
      rw [Kind.rowCount_of_isRun run, Except.ok.injEq, Block.size] at count
      rw [← same, Kind.rowCount_of_isRun run, Except.ok.injEq, Block.size] at count'
      rw [join_of_run same run]
      refine checkFrom_cons_ok.2 ⟨start, by dsimp only; omega, ?_, accepted⟩
      rw [Kind.rowCount_of_isRun run, Except.ok.injEq, Block.size]
      dsimp only
      omega
    · rwa [join_of_not_run joined]

theorem checkFrom_merge (accepted : checkFrom blocks offset = .ok stop) :
    checkFrom (merge blocks) offset = .ok stop := by
  induction blocks generalizing offset with
  | nil => exact accepted
  | cons block rest ih =>
    obtain ⟨start, order, count, accepted⟩ := checkFrom_cons_ok.1 accepted
    exact checkFrom_join (checkFrom_cons_ok.2 ⟨start, order, count, ih accepted⟩)

theorem Alike.refl (block : Block) : block.Alike block := ⟨rfl, fun _ => rfl⟩

theorem sameRows_cons (before : SameRows blocks rest)
    (early : ∀ other ∈ blocks, block.stop ≤ other.start)
    (late : ∀ other ∈ rest, block.stop ≤ other.start) : SameRows (block :: blocks) (block :: rest) := by
  intro row first listed second listed' holds holds'
  obtain ⟨above, below⟩ := holds
  obtain ⟨above', below'⟩ := holds'
  rcases List.mem_cons.1 listed with rfl | inside
  · rcases List.mem_cons.1 listed' with rfl | inside'
    · exact .refl _
    · have := late second inside'
      omega
  · rcases List.mem_cons.1 listed' with rfl | inside'
    · have := early first inside
      omega
    · exact before row first inside second inside' ⟨above, below⟩ ⟨above', below'⟩

theorem sameRows_join_run (same : block.kind = next.kind) (run : block.kind.isRun = true)
    (before : SameRows blocks (next :: rest)) (adjacent : next.start = block.stop)
    (early : ∀ other ∈ blocks, block.stop ≤ other.start)
    (late : ∀ other ∈ rest, block.stop ≤ other.start) :
    SameRows (block :: blocks)
      (⟨block.kind, block.dim + next.dim, block.start, next.stop⟩ :: rest) := by
  intro row first listed second listed' holds holds'
  obtain ⟨above, below⟩ := holds
  obtain ⟨above', below'⟩ := holds'
  rcases List.mem_cons.1 listed with rfl | inside
  · rcases List.mem_cons.1 listed' with rfl | inside'
    · exact ⟨rfl, fun apart => absurd run apart⟩
    · have := late second inside'
      omega
  · rcases List.mem_cons.1 listed' with rfl | inside'
    · have := early first inside
      have alike := before row first inside next List.mem_cons_self ⟨above, below⟩
        ⟨by omega, below'⟩
      have kind : first.kind = block.kind := alike.kind.trans same.symm
      exact ⟨kind, fun apart => absurd run (kind ▸ apart)⟩
    · exact before row first inside second (List.mem_cons_of_mem _ inside') ⟨above, below⟩
        ⟨above', below'⟩

theorem sameRows_join (accepted : checkFrom (block :: rest) offset = .ok stop)
    (before : SameRows blocks rest) (early : ∀ other ∈ blocks, block.stop ≤ other.start) :
    SameRows (block :: blocks) (join block rest) := by
  obtain ⟨_, _, _, accepted⟩ := checkFrom_cons_ok.1 accepted
  have late := fun other listed => ((bounds_of_checkFrom accepted).2 other listed).1
  cases rest with
  | nil => exact sameRows_cons before early late
  | cons next rest =>
    by_cases joined : block.kind = next.kind ∧ block.kind.isRun = true
    · rw [join_of_run joined.1 joined.2]
      obtain ⟨start, _, _, _⟩ := checkFrom_cons_ok.1 accepted
      exact sameRows_join_run joined.1 joined.2 before start early
        fun other listed => late other (List.mem_cons_of_mem _ listed)
    · rw [join_of_not_run joined]
      exact sameRows_cons before early late

/-- Joining blocks moves no row to another cone. -/
theorem sameRows_merge (accepted : checkFrom blocks offset = .ok stop) :
    SameRows blocks (merge blocks) := by
  induction blocks generalizing offset with
  | nil => exact fun _ _ listed => absurd listed List.not_mem_nil
  | cons block rest ih =>
    obtain ⟨start, order, count, accepted⟩ := checkFrom_cons_ok.1 accepted
    have later := (bounds_of_checkFrom accepted).2
    exact sameRows_join (checkFrom_cons_ok.2 ⟨start, order, count, checkFrom_merge accepted⟩)
      (ih accepted) fun other listed => (later other listed).1

end Block

namespace Cone

theorem exists_solverOrder_eq (cone : Cone) : ∃ before after,
    solverOrder = before ++ cone :: after ∧ (∀ other ∈ before, other.rank < cone.rank) ∧
      cone ∉ after := by
  cases cone with
  | zero => exact ⟨[], _, rfl, by decide, by decide⟩
  | free => exact ⟨[zero], _, rfl, by decide, by decide⟩
  | nonnegative => exact ⟨[zero, free], _, rfl, by decide, by decide⟩
  | secondOrder => exact ⟨[zero, free, nonnegative], _, rfl, by decide, by decide⟩
  | semidefinite => exact ⟨[zero, free, nonnegative, secondOrder], _, rfl, by decide, by decide⟩

/-- A list in the solver's order is made of its zero cones, its free cones and so on. -/
theorem flatMap_filter_of_sorted {ι : Type} {f : ι → Cone} {items : List ι}
    (sorted : items.Pairwise fun first second => (f first).rank ≤ (f second).rank) :
    solverOrder.flatMap (fun cone => items.filter (f · = cone)) = items := by
  induction items with
  | nil => rfl
  | cons item items ih =>
    obtain ⟨first, sorted⟩ := List.pairwise_cons.1 sorted
    obtain ⟨before, after, split, lower, apart⟩ := exists_solverOrder_eq (f item)
    have early : ∀ cone ∈ before, (item :: items).filter (f · = cone) = [] := by
      intro cone listed
      rw [List.filter_eq_nil_iff]
      intro other listed' same
      have below := lower cone listed
      rw [← of_decide_eq_true same] at below
      rcases List.mem_cons.1 listed' with rfl | later
      · exact below.false
      · exact (first other later).not_gt below
    have late {cones : List Cone} (others : f item ∉ cones) :
        (cones.flatMap fun cone => (item :: items).filter (f · = cone)) =
          cones.flatMap fun cone => items.filter (f · = cone) := by
      refine List.flatMap_congr fun cone listed => List.filter_cons_of_neg ?_
      simpa using fun same : f item = cone => others (same ▸ listed)
    have none : before.flatMap (fun cone => items.filter (f · = cone)) = [] := by
      rw [← late fun listed => (lower _ listed).false, List.flatMap_eq_nil_iff]
      exact early
    have here : (item :: items).filter (f · = f item) =
        item :: items.filter (f · = f item) := List.filter_cons_of_pos (by simp)
    have whole := ih sorted
    rw [split, List.flatMap_append, List.flatMap_cons, none, List.nil_append] at whole
    rw [split, List.flatMap_append, List.flatMap_cons, List.flatMap_eq_nil_iff.2 early,
      List.nil_append, here, late apart, List.cons_append, whole]

end Cone

namespace ConeProduct

def join (block : Cone × Nat) : ConeProduct → ConeProduct
  | [] => [block]
  | next :: rest =>
    if block.1 = next.1 ∧ block.1.isListed = false then (block.1, block.2 + next.2) :: rest
    else block :: next :: rest

def merge (K : ConeProduct) : ConeProduct := K.foldr join []

variable {K L : ConeProduct} {cone : Cone}

theorem merge_cons (block : Cone × Nat) (K : ConeProduct) :
    merge (block :: K) = join block (merge K) := rfl

theorem exists_kind_of_mem_merge {block : Cone × Nat} (listed : block ∈ merge K) :
    ∃ other ∈ K, other.1 = block.1 := by
  induction K with
  | nil => cases listed
  | cons first K ih =>
    have later (stored : block ∈ merge K) : ∃ other ∈ first :: K, other.1 = block.1 := by
      obtain ⟨other, stored, same⟩ := ih stored
      exact ⟨other, List.mem_cons_of_mem _ stored, same⟩
    have here (same : block.1 = first.1) : ∃ other ∈ first :: K, other.1 = block.1 :=
      ⟨first, List.mem_cons_self, same.symm⟩
    rw [merge_cons] at listed
    cases joined : merge K with
    | nil =>
      rw [joined] at listed
      exact here (congrArg Prod.fst (List.mem_singleton.1 listed))
    | cons next rest =>
      rw [joined, join] at listed
      rw [joined] at later
      split_ifs at listed
      · rcases List.mem_cons.1 listed with rfl | stored
        · exact here rfl
        · exact later (List.mem_cons_of_mem _ stored)
      · rcases List.mem_cons.1 listed with rfl | stored
        · exact here rfl
        · exact later stored

theorem merge_append (apart : ∀ block ∈ K, ∀ other ∈ L, block.1 ≠ other.1) :
    merge (K ++ L) = merge K ++ merge L := by
  induction K with
  | nil => rfl
  | cons first K ih =>
    have rest := ih fun block listed => apart block (List.mem_cons_of_mem _ listed)
    rw [List.cons_append, merge_cons, merge_cons, rest]
    cases merge K with
    | cons next K =>
      rw [List.cons_append, join, join]
      split_ifs <;> rfl
    | nil =>
      rw [List.nil_append]
      cases later : merge L with
      | nil => rfl
      | cons next L' =>
        obtain ⟨other, stored, same⟩ :=
          exists_kind_of_mem_merge (later ▸ List.mem_cons_self : next ∈ merge L)
        refine if_neg fun joined => apart first List.mem_cons_self other stored ?_
        exact joined.1.trans same.symm

theorem merge_of_listed (listed : ∀ block ∈ K, block.1.isListed = true) : merge K = K := by
  induction K with
  | nil => rfl
  | cons first K ih =>
    have rest := ih fun block stored => listed block (List.mem_cons_of_mem _ stored)
    rw [merge_cons, rest]
    cases K with
    | nil => rfl
    | cons next K => exact if_neg (by simp [listed first List.mem_cons_self])

theorem merge_nonempty_of_run (flat : cone.isListed = false) (kinds : ∀ block ∈ K, block.1 = cone) :
    merge (nonempty K) = nonempty [(cone, (K.map Prod.snd).sum)] := by
  induction K with
  | nil => rfl
  | cons block K ih =>
    obtain ⟨other, dim⟩ := block
    obtain rfl : other = cone := kinds _ List.mem_cons_self
    have rest := ih fun block listed => kinds block (List.mem_cons_of_mem _ listed)
    rw [List.map_cons, List.sum_cons]
    rcases Nat.eq_zero_or_pos dim with rfl | positive
    · rw [nonempty_cons_zero, rest, Nat.zero_add]
    · rw [nonempty_cons positive, merge_cons, rest, nonempty_cons (Nat.add_pos_left positive _)]
      rcases Nat.eq_zero_or_pos (K.map Prod.snd).sum with none | some
      · rw [none, nonempty_cons_zero]
        rfl
      · rw [nonempty_cons some]
        exact if_pos ⟨rfl, flat⟩

theorem merge_of_sorted (sorted : K.Pairwise fun block other => block.1.rank ≤ other.1.rank) :
    merge K = Cone.solverOrder.flatMap fun cone => merge (K.filter (·.1 = cone)) := by
  have split {cones : List Cone} (distinct : cones.Nodup) :
      merge (cones.flatMap fun cone => K.filter (·.1 = cone)) =
        cones.flatMap fun cone => merge (K.filter (·.1 = cone)) := by
    induction cones with
    | nil => rfl
    | cons cone cones ih =>
      obtain ⟨new, distinct⟩ := List.nodup_cons.1 distinct
      rw [List.flatMap_cons, List.flatMap_cons, merge_append, ih distinct]
      intro block listed other listed' same
      obtain ⟨kind, stored, filtered⟩ := List.mem_flatMap.1 listed'
      have first := of_decide_eq_true (List.mem_filter.1 listed).2
      have second := of_decide_eq_true (List.mem_filter.1 filtered).2
      exact new ((first.symm.trans (same.trans second)) ▸ stored)
  rw [← split (by decide)]
  exact congrArg merge (Cone.flatMap_filter_of_sorted sorted).symm

end ConeProduct

namespace Block

variable {K : ConeProduct} {blocks : List Block} {offset : Int}

theorem layOut_join {cone : Cone} {dim : Nat} {first : Block}
    (laid : layOut (ConeProduct.dims ((cone, dim) :: K)) offset = .ok (first :: blocks)) :
    layOut (ConeProduct.join (cone, dim) K).dims offset = .ok (join first blocks) := by
  obtain ⟨size, later, count, rest, same⟩ := layOut_cons_ok.1 laid
  obtain ⟨rfl, rfl⟩ := List.cons_eq_cons.1 same
  cases K with
  | nil =>
    cases rest
    exact laid
  | cons next K =>
    obtain ⟨cone', dim'⟩ := next
    obtain ⟨size', later, count', rest, rfl⟩ := layOut_cons_ok.1 rest
    by_cases joined : cone = cone' ∧ cone.isListed = false
    · obtain ⟨rfl, flat⟩ := joined
      have run : (Kind.cone cone).isRun = true := by simp [Kind.isRun, flat]
      rw [Kind.rowCount_of_isRun run] at count count'
      cases count
      cases count'
      rw [join, if_pos ⟨rfl, run⟩, ConeProduct.join, if_pos ⟨rfl, flat⟩]
      refine layOut_cons_ok.2 ⟨_, later, Kind.rowCount_of_isRun run _, ?_, ?_⟩
      · rwa [Nat.cast_add, ← add_assoc]
      · simp [add_assoc]
    · rw [ConeProduct.join, if_neg joined, join_of_not_run (by simpa [Kind.isRun] using joined)]
      exact laid

/-- Joining the cones of a product joins its blocks. -/
theorem layOut_merge (laid : layOut K.dims offset = .ok blocks) :
    layOut K.merge.dims offset = .ok (merge blocks) := by
  induction K generalizing offset blocks with
  | nil =>
    cases laid
    rfl
  | cons block K ih =>
    obtain ⟨cone, dim⟩ := block
    obtain ⟨size, later, count, rest, rfl⟩ := layOut_cons_ok.1 laid
    exact layOut_join (layOut_cons_ok.2 ⟨size, _, count, ih rest, rfl⟩)

theorem layOut_nonempty (laid : layOut K.dims offset = .ok blocks) :
    layOut K.nonempty.dims offset = .ok (blocks.filter (0 < ·.dim)) := by
  induction K generalizing offset blocks with
  | nil =>
    cases laid
    rfl
  | cons block K ih =>
    obtain ⟨cone, dim⟩ := block
    obtain ⟨size, later, count, rest, rfl⟩ := layOut_cons_ok.1 laid
    rcases Nat.eq_zero_or_pos dim with rfl | positive
    · obtain rfl : 0 = size := Except.ok.inj (cone.rowCount_zero.symm.trans count)
      rw [add_zero] at rest
      rw [ConeProduct.nonempty_cons_zero, List.filter_cons_of_neg (by simp)]
      exact ih rest
    · rw [ConeProduct.nonempty_cons positive, List.filter_cons_of_pos (by simpa using positive)]
      exact layOut_cons_ok.2 ⟨size, _, count, ih rest, rfl⟩

end Block

end ConicDerivative
