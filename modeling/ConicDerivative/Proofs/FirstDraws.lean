import ConicDerivative.Draws
import ConicDerivative.Proofs.Reals

/-!
What the fixed draws begin with. The words follow a recurrence that needs no array, so the first of
them can be computed. They give a point inside the circle, and the first two draws are a multiple of
it that is not small.
-/

namespace ConicDerivative.Draws

section

variable (next : Array UInt32 → Nat → UInt32) (start : Array UInt32)

def grow (count : Nat) : Array UInt32 :=
  (List.range count).foldl (fun words k => words.push (next words k)) start

theorem grow_zero : grow next start 0 = start := rfl

theorem grow_succ (count : Nat) : grow next start (count + 1) =
    (grow next start count).push (next (grow next start count) count) := by
  simp only [grow, List.range_succ, List.foldl_append, List.foldl_cons, List.foldl_nil]

theorem size_grow (count : Nat) : (grow next start count).size = start.size + count := by
  induction count with
  | zero => rfl
  | succ count ih => rw [grow_succ, Array.size_push, ih, Nat.add_assoc]

theorem grow_getD_of_le {i k count : Nat} (inside : i < start.size + k) (le : k ≤ count) :
    (grow next start count).getD i 0 = (grow next start k).getD i 0 := by
  obtain ⟨more, rfl⟩ := Nat.exists_eq_add_of_le le
  clear le
  induction more with
  | zero => rfl
  | succ more ih =>
    have earlier : i ≠ (grow next start (k + more)).size := by
      rw [size_grow]
      omega
    rw [← Nat.add_assoc, grow_succ, ← ih, Array.getD_eq_getD_getElem?, Array.getElem?_push,
      if_neg earlier, ← Array.getD_eq_getD_getElem?]

theorem grow_getD_new {k count : Nat} (pushed : k < count) :
    (grow next start count).getD (start.size + k) 0 = next (grow next start k) k := by
  have inside : start.size + k < start.size + (k + 1) := Nat.lt_succ_self _
  rw [grow_getD_of_le next start inside pushed, grow_succ, Array.getD_eq_getD_getElem?,
    Array.getElem?_push, if_pos (size_grow ..).symm, Option.getD_some]

end

def seedWord : Nat → UInt32
  | 0 => 0
  | k + 1 =>
    (1812433253 : UInt32) * (seedWord k ^^^ (seedWord k >>> 30)) + (k + 1).toUInt32

theorem seedWords_getD {k : Nat} (inside : k ≤ 623) : seedWords.getD k 0 = seedWord k := by
  let next (words : Array UInt32) (k : Nat) : UInt32 :=
    (1812433253 : UInt32) * (words.getD k 0 ^^^ (words.getD k 0 >>> 30)) + (k + 1).toUInt32
  have grown : seedWords = grow next #[0] 623 := rfl
  induction k with
  | zero => exact grow_getD_of_le next #[0] (k := 0) Nat.one_pos (Nat.zero_le _)
  | succ k ih =>
    have last : (grow next #[0] k).getD k 0 = seedWord k := by
      rw [← ih (by omega), grown]
      exact (grow_getD_of_le next #[0] (Nat.lt_one_add_iff.2 le_rfl) (by omega)).symm
    have pushed : (grow next #[0] 623).getD (1 + k) 0 = next (grow next #[0] k) k :=
      grow_getD_new next #[0] (Nat.lt_of_succ_le inside)
    rw [grown, Nat.add_comm k 1, pushed, Nat.add_comm 1 k, seedWord, ← last]

theorem size_seedWords : seedWords.size = 624 := size_grow _ #[0] 623

def feedback (words : Array UInt32) (k : Nat) : UInt32 :=
  words.getD (k + 397) 0 ^^^ twist (words.getD k 0) (words.getD (k + 1) 0)

theorem register_eq_grow (count : Nat) : register count = grow feedback seedWords count := rfl

theorem register_getD_seed {i count : Nat} (seed : i ≤ 623) :
    (register count).getD i 0 = seedWord i := by
  have inside : i < seedWords.size + 0 := by
    rw [size_seedWords]
    exact Nat.lt_succ_of_le seed
  rw [register_eq_grow, grow_getD_of_le feedback seedWords inside (Nat.zero_le _), grow_zero,
    seedWords_getD seed]

/-- The recurrence of the register. -/
theorem register_getD {k count : Nat} (pushed : k < count) :
    (register count).getD (624 + k) 0 = feedback (register count) k := by
  have kept {i : Nat} (earlier : i < 624 + k) :
      (register count).getD i 0 = (register k).getD i 0 := by
    rw [← size_seedWords] at earlier
    exact grow_getD_of_le feedback seedWords earlier pushed.le
  have new : (register count).getD (624 + k) 0 = feedback (register k) k := by
    rw [← size_seedWords]
    exact grow_getD_new feedback seedWords pushed
  rw [new, feedback, feedback, kept (by omega), kept (by omega), kept (by omega)]

theorem words_getElem? {k count : Nat} (made : k < count) :
    (words count)[k]? = some (temper (feedback (register count) k)) := by
  have size : 624 + k < (register count).size := by
    rw [register_eq_grow, size_grow, size_seedWords]
    omega
  rw [words, List.getElem?_map, List.getElem?_drop, Array.getElem?_toList,
    Array.getElem?_eq_getElem size, Option.map_some, ← register_getD made,
    Array.getD_eq_getD_getElem?, Array.getElem?_eq_getElem size, Option.getD_some]

/-- Until the register reads its own words, the seed decides. -/
theorem words_getElem?_seed {k count : Nat} (made : k < count) (seed : k < 227) :
    (words count)[k]? =
      some (temper (seedWord (k + 397) ^^^ twist (seedWord k) (seedWord (k + 1)))) := by
  rw [words_getElem? made, feedback, register_getD_seed (by omega), register_getD_seed (by omega),
    register_getD_seed (by omega)]

theorem words_first {count : Nat} (many : 4 ≤ count) :
    ∃ rest, words count = 2357136044 :: 2546248239 :: 3071714933 :: 3626093760 :: rest := by
  have first : (words count)[0]? = some 2357136044 :=
    (words_getElem?_seed (by omega) (by decide)).trans (by decide +kernel)
  have second : (words count)[1]? = some 2546248239 :=
    (words_getElem?_seed (by omega) (by decide)).trans (by decide +kernel)
  have third : (words count)[2]? = some 3071714933 :=
    (words_getElem?_seed (by omega) (by decide)).trans (by decide +kernel)
  have fourth : (words count)[3]? = some 3626093760 :=
    (words_getElem?_seed (by omega) (by decide)).trans (by decide +kernel)
  generalize words count = made at first second third fourth ⊢
  match made with
  | a :: b :: c :: d :: rest =>
    cases first
    cases second
    cases third
    cases fourth
    exact ⟨rest, rfl⟩
  | [_, _, _] => cases fourth
  | [_, _] => cases third
  | [_] => cases second
  | [] => cases first

open Scalar

/-- A point inside the circle is stretched by one factor, and its coordinates change places. -/
theorem polar_of_inside {u v : ℝ}
    (apart : (2 * u - 1) * (2 * u - 1) + (2 * v - 1) * (2 * v - 1) ≠ 0)
    (inside : (2 * u - 1) * (2 * u - 1) + (2 * v - 1) * (2 * v - 1) ≤ 2 / 3) :
    ∃ factor, 1 ≤ factor ∧ polar u v = [factor * (2 * v - 1), factor * (2 * u - 1)] := by
  set square := (2 * u - 1) * (2 * u - 1) + (2 * v - 1) * (2 * v - 1)
  have positive : 0 < square :=
    lt_of_le_of_ne (add_nonneg (mul_self_nonneg _) (mul_self_nonneg _)) apart.symm
  refine ⟨√(-2 * Real.log square / square), ?_, ?_⟩
  · have below := Real.log_le_sub_one_of_pos positive
    rw [Real.one_le_sqrt, le_div_iff₀ positive]
    linarith
  · have taken : ¬(1 ≤ square ∨ isZero square = true) := by
      rw [isZero_iff]
      rintro (outside | null)
      · linarith
      · exact apart null
    exact if_neg taken

theorem normal_two : ∃ factor x y : ℝ, (normal 2 : Vector ℝ 2) = #v[factor * y, factor * x] ∧
    1 ≤ factor ∧ 0.09 ≤ x ∧ x ≤ 0.1 ∧ 0.43 ≤ y ∧ y ≤ 0.44 := by
  have many : 4 ≤ 4 * 2 + 64 := by decide
  obtain ⟨rest, made⟩ := words_first many
  have places (high low : UInt32) : (fraction high low : ℝ) =
      (((high >>> 5).toNat * Nat.pow 2 26 + (low >>> 6).toNat : Nat) : ℝ) / 2 ^ 53 := by
    rw [fraction]
    norm_num
  have left : (fraction 2357136044 2546248239 : ℝ) = (4943272583565992 : Nat) / 2 ^ 53 :=
    (places _ _).trans (congrArg (fun k : Nat => (k : ℝ) / 2 ^ 53) (by decide +kernel))
  have right : (fraction 3071714933 3626093760 : ℝ) = (6441853127788339 : Nat) / 2 ^ 53 :=
    (places _ _).trans (congrArg (fun k : Nat => (k : ℝ) / 2 ^ 53) (by decide +kernel))
  let u : ℝ := (4943272583565992 : Nat) / 2 ^ 53
  let v : ℝ := (6441853127788339 : Nat) / 2 ^ 53
  have apart : (2 * u - 1) * (2 * u - 1) + (2 * v - 1) * (2 * v - 1) ≠ 0 := by
    norm_num [u, v]
  have inside : (2 * u - 1) * (2 * u - 1) + (2 * v - 1) * (2 * v - 1) ≤ 2 / 3 := by
    norm_num [u, v]
  obtain ⟨factor, large, drawn⟩ := polar_of_inside apart inside
  refine ⟨factor, 2 * u - 1, 2 * v - 1, ?_, large, ?_⟩
  · have draws : (pairs (words (4 * 2 + 64)) : List ℝ) =
        factor * (2 * v - 1) :: factor * (2 * u - 1) :: pairs rest := by
      rw [made, pairs, left, right]
      exact congrArg (· ++ pairs rest) drawn
    apply Vec.ext
    intro i
    rw [normal, draws, Vec.ofFn_apply]
    match i with
    | 0 => rfl
    | 1 => rfl
  · norm_num [u, v]

end ConicDerivative.Draws
