import ConicDerivative.Proofs.DoubleSums
import ConicDerivative.Proofs.TableLayouts

/-!
Keys of a table that are no cones. Such a key is refused unless its value is empty, and a value is
taken for empty if the running total of its entries comes out as zero. Entries on one side of zero
never cancel, however the total is rounded; entries on both sides may, and then their key is passed
over although the value is not empty.
-/

namespace ConicDerivative

open Outcomes

namespace Extent

def IsNonzero : Extent → Prop
  | integer n => n ≠ 0
  | flag b => b = true
  | real x => ¬(x == 0) = true
  | text _ | absent | list _ => False

def HasNonzero (extent : Extent) : Prop := ∃ item ∈ extent.items, item.IsNonzero

noncomputable def side : Extent → Option SignType
  | integer n => some (SignType.sign n)
  | flag b => some (SignType.sign (b.toNat : ℤ))
  | real x => Double.side x
  | text _ | absent | list _ => none

/-- Entries on both sides of zero, the running total of which comes out as zero. -/
structure Cancels (extent : Extent) : Prop where
  above : ∃ item ∈ extent.items, item.side = some 1
  below : ∃ item ∈ extent.items, item.side = some (-1)
  total : extent.isEmpty = .ok true

namespace Total

noncomputable def side : Total → Option SignType
  | integer n => some (SignType.sign n)
  | real x => Double.side x

theorem isZero_iff {total : Total} : total.isZero = true ↔ total.side = some 0 := by
  cases total with
  | integer n => simp [isZero, side]
  | real x => exact Double.beq_zero_iff

theorem eq_of_nearest {n : Int} {x : Float} (found : nearest n = .ok x) : Float.ofInt n = x := by
  unfold nearest at found
  dsimp only at found
  split at found
  · cases found
  · exact Except.ok.inj found

variable {total next : Total} {item : Extent}

theorem joins_of_addInteger {n : Int} (added : total.addInteger n = .ok next) :
    Double.Joins total.side (some (SignType.sign n)) next.side := by
  cases total with
  | integer m =>
    cases added
    exact Double.joins_sign m n
  | real x =>
    obtain ⟨y, found, rest⟩ := bind_eq_ok.1 added
    cases rest
    rw [← Double.side_ofInt, eq_of_nearest found]
    exact Double.joins_add x y

theorem joins_of_add (added : total.add item = .ok next) :
    Double.Joins total.side item.side next.side := by
  -- One step adds whole numbers exactly, or doubles with rounding.
  cases item with
  | integer n => exact joins_of_addInteger added
  | flag b => exact joins_of_addInteger added
  | real y =>
    obtain ⟨x, found, rest⟩ := bind_eq_ok.1 added
    cases rest
    have same : total.side = Double.side x := by
      cases total with
      | integer n =>
        rw [← eq_of_nearest found, Double.side_ofInt]
        rfl
      | real _ =>
        rw [← Except.ok.inj found]
        rfl
    rw [same]
    exact Double.joins_add x y
  | text s => cases added
  | absent => cases added
  | list items => cases added

theorem isNonzero_iff (added : total.add item = .ok next) :
    item.IsNonzero ↔ item.side ≠ some 0 := by
  cases item with
  | integer n => simp [IsNonzero, Extent.side]
  | flag b => cases b <;> simp [IsNonzero, Extent.side]
  | real x => exact not_congr Double.beq_zero_iff
  | text s => cases added
  | absent => cases added
  | list items => cases added

/-- Entries on one side of zero add up to zero only if all of them are zero. -/
theorem side_of_foldlM {t : SignType} {items : List Extent} {start : Total}
    (added : items.foldlM add start = .ok total) (first : Double.Within t start.side)
    (within : ∀ item ∈ items, Double.Within t item.side) :
    total.side = some 0 ↔ start.side = some 0 ∧ ∀ item ∈ items, ¬item.IsNonzero := by
  induction items generalizing start with
  | nil =>
    cases added
    simp
  | cons item items ih =>
    obtain ⟨next, step, rest⟩ := foldlM_cons_eq_ok.1 added
    obtain ⟨head, others⟩ := List.forall_mem_cons.1 within
    obtain ⟨inside, zero⟩ := (joins_of_add step).within first head
    rw [ih rest inside others, zero, List.forall_mem_cons, isNonzero_iff step, not_not, and_assoc]

end Total

variable {extent : Extent}

theorem isEmpty_eq_ok {empty : Bool} : extent.isEmpty = .ok empty ↔
    ∃ total, extent.items.foldlM Total.add (.integer 0) = .ok total ∧ total.isZero = empty :=
  map_eq_ok

/-- Whole numbers only, or doubles only. -/
def IsUniform (extent : Extent) : Prop :=
  (∀ item ∈ extent.items, ∃ n, item.whole? = some n) ∨ ∀ item ∈ extent.items, ∃ x, item = .real x

theorem Total.exists_foldlM_of_whole {items : List Extent}
    (whole : ∀ item ∈ items, ∃ n, item.whole? = some n) (start : Int) :
    ∃ total, items.foldlM add (.integer start) = .ok total := by
  induction items generalizing start with
  | nil => exact ⟨_, rfl⟩
  | cons item items ih =>
    obtain ⟨⟨n, first⟩, others⟩ := List.forall_mem_cons.1 whole
    obtain ⟨total, rest⟩ := ih others (start + n)
    refine ⟨total, foldlM_cons_eq_ok.2 ⟨_, ?_, rest⟩⟩
    cases item with
    | integer | flag =>
      cases first
      rfl
    | real | text | absent | list => cases first

theorem Total.exists_foldlM_of_real {items : List Extent}
    (reals : ∀ item ∈ items, ∃ x, item = .real x) {start : Total} {x : Float}
    (ready : start.asReal = .ok x) :
    ∃ total, items.foldlM add start = .ok total := by
  induction items generalizing start x with
  | nil => exact ⟨_, rfl⟩
  | cons item items ih =>
    obtain ⟨⟨y, rfl⟩, others⟩ := List.forall_mem_cons.1 reals
    obtain ⟨total, rest⟩ := @ih others (.real (x + y)) _ rfl
    exact ⟨total, foldlM_cons_eq_ok.2 ⟨_, bind_eq_ok.2 ⟨x, ready, rfl⟩, rest⟩⟩

theorem exists_isEmpty (uniform : extent.IsUniform) : ∃ empty, extent.isEmpty = .ok empty := by
  have zero : (Total.integer 0).asReal = .ok (Float.ofInt 0) := by with_unfolding_all rfl
  obtain ⟨total, added⟩ : ∃ total, extent.items.foldlM Total.add (.integer 0) = .ok total :=
    uniform.elim (Total.exists_foldlM_of_whole · 0) (Total.exists_foldlM_of_real · zero)
  exact ⟨_, isEmpty_eq_ok.2 ⟨total, added, rfl⟩⟩

theorem isEmpty_iff_of_within {t : SignType} {empty : Bool} (summed : extent.isEmpty = .ok empty)
    (within : ∀ item ∈ extent.items, Double.Within t item.side) :
    empty = true ↔ ¬extent.HasNonzero := by
  obtain ⟨total, added, rfl⟩ := isEmpty_eq_ok.1 summed
  have start : (Total.integer 0).side = some 0 := by simp [Total.side]
  have first : Double.Within t (Total.integer 0).side := by
    rw [start]
    exact fun a found => .inl (Option.mem_some.1 found).symm
  rw [Total.isZero_iff, Total.side_of_foldlM added first within, HasNonzero]
  simp [start]

theorem within_of_ne {t : SignType} {side : Option SignType} (away : t = 1 ∨ t = -1)
    (other : side ≠ some (-t)) : Double.Within t side := by
  rintro a rfl
  rcases away with rfl | rfl <;> cases a <;> simp_all

theorem within_of_not_isNonzero {item : Extent} (zero : ¬item.IsNonzero) (t : SignType) :
    Double.Within t item.side := by
  intro a found
  left
  cases item with
  | integer n => simp_all [IsNonzero, side]
  | flag b => simp_all [IsNonzero, side]
  | real x =>
    have none : Double.side x = some 0 := Double.beq_zero_iff.1 (not_not.1 zero)
    exact Option.some.inj (found.symm.trans none)
  | text s => cases found
  | absent => cases found
  | list items => cases found

theorem cancels_of_isEmpty (nonzero : extent.HasNonzero) (empty : extent.isEmpty = .ok true) :
    extent.Cancels := by
  have both (t : SignType) (away : t = 1 ∨ t = -1) :
      ∃ item ∈ extent.items, item.side = some (-t) := by
    by_contra none
    push Not at none
    have within := fun item listed => within_of_ne away (none item listed)
    exact (isEmpty_iff_of_within empty within).1 rfl nonzero
  exact ⟨both (-1) (.inr rfl), both 1 (.inl rfl), empty⟩

theorem isEmpty_eq_false_iff {empty : Bool} (summed : extent.isEmpty = .ok empty) :
    extent.isEmpty = .ok false ↔ extent.HasNonzero ∧ ¬extent.Cancels := by
  cases empty with
  | true =>
    refine iff_of_false (fun other => by rw [summed] at other; cases other) ?_
    rintro ⟨nonzero, kept⟩
    exact kept (cancels_of_isEmpty nonzero summed)
  | false =>
    refine iff_of_true summed ⟨?_, fun cancels => ?_⟩
    · by_contra none
      have within := fun item listed =>
        within_of_not_isNonzero (fun nonzero => none ⟨item, listed, nonzero⟩) 1
      cases (isEmpty_iff_of_within summed within).2 none
    · have other := cancels.total
      rw [summed] at other
      cases other

end Extent

def LayoutError.IsOther (cause : LayoutError) : Prop := ∀ kind, cause ≠ .unsupported kind

theorem Extent.Total.failsWith_add (total : Total) (item : Extent) :
    FailsWith LayoutError.IsOther (total.add item) := by
  have rounded (n : Int) : FailsWith LayoutError.IsOther (nearest n) := by
    unfold nearest
    dsimp only
    split
    · exact failsWith_error nofun
    · exact failsWith_ok _
  have whole (n : Int) : FailsWith LayoutError.IsOther (total.addInteger n) := by
    cases total with
    | integer m => exact failsWith_ok _
    | real x => exact failsWith_bind (rounded n) fun y => failsWith_ok _
  cases item with
  | integer n => exact whole n
  | flag b => exact whole b.toNat
  | real y =>
    refine failsWith_bind ?_ fun x => failsWith_ok _
    cases total with
    | integer n => exact rounded n
    | real x => exact failsWith_ok _
  | text s => exact failsWith_error nofun
  | absent => exact failsWith_error nofun
  | list items => exact failsWith_error nofun

theorem Extent.failsWith_isEmpty (extent : Extent) :
    FailsWith LayoutError.IsOther extent.isEmpty :=
  failsWith_map _ (failsWith_foldlM Total.failsWith_add _ _)

theorem Extent.failsWith_toInteger (item : Extent) :
    FailsWith LayoutError.IsOther item.toInteger := by
  cases item with
  | integer n => exact failsWith_ok _
  | flag b => exact failsWith_ok _
  | real x =>
    unfold toInteger
    dsimp only
    split_ifs
    · exact failsWith_error nofun
    · exact failsWith_error nofun
    · exact failsWith_ok _
  | text s =>
    unfold toInteger
    dsimp only
    cases Text.Integer.value? s with
    | none => exact failsWith_error nofun
    | some n => exact failsWith_ok _
  | absent => exact failsWith_error nofun
  | list items => exact failsWith_error nofun

theorem Block.failsWith_packedSize (dim : Int) :
    FailsWith LayoutError.IsOther (packedSize dim) := by
  unfold packedSize
  split
  · exact failsWith_ok _
  · exact failsWith_error nofun

theorem Block.failsWith_layOut {dims : List (Kind × Int)}
    (cones : ∀ pair ∈ dims, ∃ cone, pair.1 = .cone cone) (offset : Int) :
    FailsWith LayoutError.IsOther (layOut dims offset) := by
  induction dims generalizing offset with
  | nil => exact failsWith_ok []
  | cons pair dims ih =>
    obtain ⟨kind, dim⟩ := pair
    obtain ⟨⟨cone, rfl⟩, others⟩ := List.forall_mem_cons.1 cones
    rw [layOut]
    refine failsWith_bind ?_ fun size => failsWith_bind (ih others _) fun blocks => failsWith_ok _
    cases cone with
    | zero | free | nonnegative | secondOrder => exact failsWith_ok _
    | semidefinite =>
      change FailsWith _ ((packedSize dim).map Int.ofNat)
      exact failsWith_map _ (failsWith_packedSize dim)

namespace ConeTable

variable {table : ConeTable} {kind : Kind} {cone : Cone} {extent : Extent}

theorem failsWith_dimensions (cone : Cone) (extent : Extent) :
    FailsWith LayoutError.IsOther (dimensions cone extent) := by
  refine failsWith_bind ?_ fun dims => failsWith_ok _
  intro cause failed
  obtain ⟨item, _, ended⟩ := failsWith_mapM _ cause failed
  refine failsWith_bind item.failsWith_toInteger (fun dim => ?_) cause ended
  split_ifs
  · exact failsWith_error nofun
  · exact failsWith_ok _

theorem kind_of_dimensions {dims : List (Kind × Int)}
    (success : dimensions cone extent = .ok dims) : ∀ pair ∈ dims, pair.1 = .cone cone := by
  obtain ⟨values, _, rfl⟩ := exists_reads success
  intro pair listed
  obtain ⟨dim, _, rfl⟩ := List.mem_map.1 listed
  rfl

theorem failsWith_blocks (table : ConeTable) :
    FailsWith (fun cause => table.checkKeys = .error cause ∨ cause.IsOther) table.blocks := by
  refine failsWith_bind (fun cause failed => .inl failed) fun _ =>
    failsWith_bind_of_eq ?_ fun dims read => ?_
  · intro cause failed
    obtain ⟨cone, _, ended⟩ := failsWith_mapM _ cause failed
    cases present : table.get? cone with
    | none =>
      rw [present] at ended
      cases ended
    | some extent =>
      rw [present] at ended
      exact .inr (failsWith_dimensions cone extent cause ended)
  · intro cause failed
    refine .inr (Block.failsWith_layOut (fun pair listed => ?_) 0 cause failed)
    obtain ⟨part, member, inside⟩ := List.mem_flatten.1 listed
    obtain ⟨cone, found⟩ := exists_of_mem_mapM read member
    cases present : table.get? cone with
    | none =>
      rw [present] at found
      rw [← pure_eq_ok.1 found] at inside
      cases inside
    | some extent =>
      rw [present] at found
      exact ⟨cone, kind_of_dimensions found pair inside⟩

theorem blocks_eq_unsupported : table.blocks = .error (.unsupported kind) ↔
    table.checkKeys = .error (.unsupported kind) := by
  constructor
  · intro failed
    exact (failsWith_blocks table _ failed).resolve_right fun other => other kind rfl
  · intro failed
    rw [blocks, failed]
    rfl

theorem failsWith_checkKeys (table : ConeTable) :
    FailsWith (fun cause => table.AddsUp ∨ cause.IsOther) table.checkKeys := by
  refine failsWith_bind_of_eq ?_ fun kept filtered => ?_
  · intro cause failed
    refine .inr (failsWith_filterM (fun entry => ?_) _ cause failed)
    exact failsWith_map not entry.2.failsWith_isEmpty
  · exact fun cause _ => .inl (filterM_foreign.1 filtered).1

theorem exists_checkKeys_eq_unsupported : (∃ kind, table.checkKeys = .error (.unsupported kind)) ↔
    table.AddsUp ∧ ∃ entry ∈ table, entry.1.cone? = none ∧ entry.2.isEmpty = .ok false := by
  simp only [← mem_refused]
  constructor
  · rintro ⟨kind, failed⟩
    have summed := (failsWith_checkKeys table _ failed).resolve_right fun other => other kind rfl
    rw [checkKeys_of_addsUp summed] at failed
    cases kept : table.refused with
    | nil =>
      rw [kept] at failed
      cases failed
    | cons first others => exact ⟨summed, first, List.mem_cons_self⟩
  · rintro ⟨summed, entry, member⟩
    obtain ⟨first, others, kept⟩ := List.exists_cons_of_ne_nil (List.ne_nil_of_mem member)
    rw [checkKeys_of_addsUp summed, kept]
    exact ⟨first.1, rfl⟩

/--
A kind that is no cone is refused just if the values of all such keys can be added up, and one of
them has an entry other than zero, unless its entries lie on both sides of zero and cancel. Values
of whole numbers only, or of doubles only, can be added up.
-/
theorem exists_blocks_eq_unsupported_iff (table : ConeTable) :
    ((∃ kind, table.blocks = .error (.unsupported kind)) ↔ table.AddsUp ∧ ∃ entry ∈ table,
      entry.1.cone? = none ∧ entry.2.HasNonzero ∧ ¬entry.2.Cancels) ∧
    ((∀ entry ∈ table, entry.1.cone? = none → entry.2.IsUniform) → table.AddsUp) := by
  refine ⟨?_, fun uniform entry listed foreign =>
    Extent.exists_isEmpty (uniform entry listed foreign)⟩
  simp only [blocks_eq_unsupported, exists_checkKeys_eq_unsupported]
  refine and_congr_right fun summed => exists_congr fun entry => and_congr_right fun listed =>
    and_congr_right fun foreign => ?_
  obtain ⟨empty, found⟩ := summed entry listed foreign
  exact Extent.isEmpty_eq_false_iff found

def powerCones : ConeTable :=
  [(.cone .nonnegative, .integer 2), (.other "p", .list [.real 0.5, .real (-0.5)])]

/-- The exponents cancel, and the rows of the power cones are left out. -/
theorem blocks_powerCones :
    (∃ entry ∈ powerCones, entry.1.cone? = none ∧ entry.2.HasNonzero) ∧
      powerCones.blocks = .ok [⟨.cone .nonnegative, 2, 0, 2⟩] := by
  have listed : (Kind.other "p", Extent.list [.real 0.5, .real (-0.5)]) ∈ powerCones :=
    List.mem_cons_of_mem _ List.mem_cons_self
  refine ⟨⟨_, listed, rfl, .real 0.5, List.mem_cons_self, ?_⟩, ?_⟩
  · change ¬((0.5 : Float) == 0) = true
    decide +kernel
  · with_unfolding_all rfl

end ConeTable

end ConicDerivative
