import ConicDerivative.Proofs.JoinedBlocks

/-!
The dimensions of each cone, in the blocks of a table and in its entries. An entry may be a number
or a list, and a dimension in it a number, a truth value or a text; the blocks have the positive ones.
Joining runs of rows keeps the sums of the dimensions, and the dimensions that are listed.
-/

namespace ConicDerivative

open Outcomes

namespace Block

variable {cone : Cone}

def dims (cone : Cone) (blocks : List Block) : List Int :=
  (blocks.filter (·.kind = .cone cone)).map (·.dim)

theorem dims_cons (cone : Cone) (block : Block) (blocks : List Block) :
    dims cone (block :: blocks) =
      (if block.kind = .cone cone then [block.dim] else []) ++ dims cone blocks := by
  rw [dims, List.filter_cons]
  split_ifs <;> simp_all [dims]

theorem sum_dims_join (cone : Cone) (block : Block) (blocks : List Block) :
    (dims cone (join block blocks)).sum = (dims cone (block :: blocks)).sum := by
  cases blocks with
  | nil => rfl
  | cons next rest =>
    by_cases joined : block.kind = next.kind ∧ block.kind.isRun = true
    · rw [join_of_run joined.1 joined.2, dims_cons, dims_cons, dims_cons, ← joined.1]
      dsimp only
      split_ifs
      · simp [add_assoc]
      · rfl
    · rw [join_of_not_run joined]

theorem dims_join_of_listed (listed : cone.isListed = true) (block : Block) (blocks : List Block) :
    dims cone (join block blocks) = dims cone (block :: blocks) := by
  cases blocks with
  | nil => rfl
  | cons next rest =>
    by_cases joined : block.kind = next.kind ∧ block.kind.isRun = true
    · obtain ⟨same, run⟩ := joined
      have kind : block.kind ≠ .cone cone := by
        intro kind
        rw [kind, Kind.isRun, listed] at run
        cases run
      rw [join_of_run same run, dims_cons, dims_cons, dims_cons, ← same]
      simp only [if_neg kind, List.nil_append]
    · rw [join_of_not_run joined]

theorem sum_dims_merge (cone : Cone) (blocks : List Block) :
    (dims cone (merge blocks)).sum = (dims cone blocks).sum := by
  induction blocks with
  | nil => rfl
  | cons block rest ih =>
    refine (sum_dims_join cone block (merge rest)).trans ?_
    rw [dims_cons, dims_cons, List.sum_append, List.sum_append, ih]

theorem dims_merge_of_listed (listed : cone.isListed = true) (blocks : List Block) :
    dims cone (merge blocks) = dims cone blocks := by
  induction blocks with
  | nil => rfl
  | cons block rest ih =>
    refine (dims_join_of_listed listed block (merge rest)).trans ?_
    rw [dims_cons, dims_cons, ih]

end Block

namespace Extent

/-- The number in an entry that is one whole number; a truth value is one, too. -/
def whole? : Extent → Option Int
  | integer n => some n
  | flag b => some b.toNat
  | real _ | text _ | absent | list _ => none

theorem toInteger_of_whole {extent : Extent} {n : Int} (whole : extent.whole? = some n) :
    extent.toInteger = .ok n := by
  cases extent with
  | integer | flag =>
    cases whole
    rfl
  | real | text | absent | list => cases whole

theorem items_of_whole {extent : Extent} {n : Int} (whole : extent.whole? = some n) :
    extent.items = [extent] := by
  cases extent with
  | integer | flag => rfl
  | real | text | absent | list => cases whole

theorem mapM_toInteger_of_whole {items : List Extent} {values : List Int}
    (whole : items.mapM whole? = some values) : items.mapM toInteger = .ok values := by
  induction items generalizing values with
  | nil =>
    cases whole
    rfl
  | cons item items ih =>
    rw [List.mapM_cons, Option.bind_eq_bind, Option.bind_eq_some_iff] at whole
    obtain ⟨value, first, later⟩ := whole
    obtain ⟨rest, others, joined⟩ := Option.bind_eq_some_iff.1 later
    cases joined
    rw [List.mapM_cons, toInteger_of_whole first, ih others]
    rfl

end Extent

namespace ConeTable

variable {table : ConeTable} {blocks : List Block} {cone : Cone} {extent : Extent}

def rows? (table : ConeTable) (cone : Cone) : Option Int :=
  (table.get? cone).elim (some 0) Extent.whole?

def sizes? (table : ConeTable) (cone : Cone) : Option (List Int) :=
  match table.get? cone with
  | none => some []
  | some (.list items) => items.mapM Extent.whole?
  | some _ => none

theorem filter_flatMap_solverOrder {parts : Cone → List (Kind × Int)}
    (kinds : ∀ cone, ∀ pair ∈ parts cone, pair.1 = .cone cone) (cone : Cone) :
    (Cone.solverOrder.flatMap parts).filter (·.1 = .cone cone) = parts cone := by
  have own : (parts cone).filter (·.1 = .cone cone) = parts cone :=
    List.filter_eq_self.2 fun pair listed => decide_eq_true (kinds cone pair listed)
  have others {cones : List Cone} (absent : cone ∉ cones) :
      (cones.flatMap parts).filter (·.1 = .cone cone) = [] := by
    rw [List.filter_eq_nil_iff]
    intro pair listed same
    obtain ⟨other, stored, inside⟩ := List.mem_flatMap.1 listed
    have kind := (kinds other pair inside).symm.trans (of_decide_eq_true same)
    exact absent (Kind.cone.inj kind ▸ stored)
  obtain ⟨before, after, split, lower, absent⟩ := Cone.exists_solverOrder_eq cone
  rw [split, List.flatMap_append, List.flatMap_cons, List.filter_append, List.filter_append, own,
    others absent, others fun listed => (lower cone listed).false, List.nil_append, List.append_nil]

def LaysPart (table : ConeTable) (cone : Cone) (part : List (Kind × Int)) : Prop :=
  (table.get? cone = none ∧ part = []) ∨
    ∃ extent values, table.get? cone = some extent ∧ Reads extent values ∧
      part = (values.filter (0 < ·)).map (.cone cone, ·)

theorem LaysPart.kind {part : List (Kind × Int)} (lays : table.LaysPart cone part) :
    ∀ pair ∈ part, pair.1 = .cone cone := by
  intro pair listed
  rcases lays with ⟨_, rfl⟩ | ⟨_, _, _, _, rfl⟩
  · cases listed
  · obtain ⟨dim, _, rfl⟩ := List.mem_map.1 listed
    rfl

theorem exists_parts (success : table.blocks = .ok blocks) : ∃ parts : Cone → List (Kind × Int),
    Block.layOut (Cone.solverOrder.flatMap parts) 0 = .ok blocks ∧
      ∀ cone, table.LaysPart cone (parts cone) := by
  obtain ⟨_, _, rest⟩ := bind_eq_ok.1 success
  obtain ⟨dims, mapped, laid⟩ := bind_eq_ok.1 rest
  choose parts read using fun cone =>
    exists_mapM_iff.1 ⟨dims, mapped⟩ cone (by cases cone <;> decide)
  have whole : dims.flatten = Cone.solverOrder.flatMap parts :=
    flatten_of_forall₂ ((mapM_eq_ok.1 mapped).imp fun cone result given =>
      Except.ok.inj (given.symm.trans (read cone)))
  refine ⟨parts, whole ▸ laid, ?_⟩
  intro cone
  have given := read cone
  cases present : table.get? cone with
  | none =>
    rw [present] at given
    exact .inl ⟨present, (pure_eq_ok.1 given).symm⟩
  | some extent =>
    rw [present] at given
    obtain ⟨values, reads, same⟩ := exists_reads given
    exact .inr ⟨extent, values, present, reads, same⟩

theorem dims_of_blocks (success : table.blocks = .ok blocks) (cone : Cone) :
    (table.get? cone = none ∧ Block.dims cone blocks = []) ∨
      ∃ extent values, table.get? cone = some extent ∧ Reads extent values ∧
        Block.dims cone blocks = values.filter (0 < ·) := by
  obtain ⟨parts, laid, lays⟩ := exists_parts success
  have own : Block.dims cone blocks = (parts cone).map Prod.snd := by
    rw [← filter_flatMap_solverOrder (fun cone => (lays cone).kind) cone,
      ← Block.kinds_of_layOut laid, List.filter_map, List.map_map, Block.dims]
    rfl
  rcases lays cone with ⟨absent, none⟩ | ⟨extent, values, present, reads, same⟩
  · exact .inl ⟨absent, by rw [own, none, List.map_nil]⟩
  · refine .inr ⟨extent, values, present, reads, ?_⟩
    rw [own, same, List.map_map]
    exact List.map_id _

theorem Reads.eq {values values' : List Int} (reads : Reads extent values)
    (whole : extent.items.mapM Extent.whole? = some values') : values = values' :=
  Except.ok.inj (reads.items.symm.trans (Extent.mapM_toInteger_of_whole whole))

theorem sum_dims_of_rows {count : Int} (success : table.blocks = .ok blocks)
    (given : table.rows? cone = some count) : (Block.dims cone blocks).sum = count := by
  unfold rows? at given
  rcases dims_of_blocks success cone with ⟨absent, none⟩ | ⟨extent, values, present, reads, same⟩
  · rw [absent] at given
    cases given
    rw [none]
    rfl
  · rw [present, Option.elim_some] at given
    obtain rfl : values = [count] := reads.eq (by simp [Extent.items_of_whole given, given])
    have nonneg := reads.nonneg count List.mem_cons_self
    rw [same]
    rcases nonneg.eq_or_lt with rfl | positive
    · rfl
    · rw [List.filter_cons_of_pos (by simpa using positive), List.filter_nil, List.sum_singleton]

theorem dims_of_sizes? {sizes : List Int} (success : table.blocks = .ok blocks)
    (given : table.sizes? cone = some sizes) (nonzero : 0 ∉ sizes) :
    Block.dims cone blocks = sizes := by
  unfold sizes? at given
  rcases dims_of_blocks success cone with ⟨absent, none⟩ | ⟨extent, values, present, reads, same⟩
  · rw [absent] at given
    cases given
    exact none
  · rw [present] at given
    cases extent with
    | list items =>
      obtain rfl : values = sizes := reads.eq given
      rw [same, List.filter_eq_self]
      intro dim listed
      have nonneg := reads.nonneg dim listed
      exact decide_eq_true (lt_of_le_of_ne nonneg fun zero => nonzero (zero ▸ listed))
    | integer | real | flag | text | absent => cases given

end ConeTable

end ConicDerivative
