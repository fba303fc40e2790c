/-
  A list cut into pieces of one size, the last one possibly shorter.

  `flatten_chunks` puts the list back together and `getElem?_chunks` is one of the pieces.
  `same_count_iff`: two sizes can cut some list into as many pieces, and into more than one,
  exactly if the larger is less than twice the smaller.
-/
import Mathlib

namespace RickydataGit.Lib

variable {α : Type}

/-- At most `fuel` pieces. -/
def chunksFrom (size : Nat) : Nat → List α → List (List α)
  | 0, _ => []
  | fuel + 1, xs => if xs = [] then [] else xs.take size :: chunksFrom size fuel (xs.drop size)

/-- `chunks`, of a size that is not zero. -/
def chunks (size : Nat) (xs : List α) : List (List α) := chunksFrom size xs.length xs

section Chunks

variable {size : Nat} (hsize : 0 < size)
include hsize

theorem flatten_chunksFrom {fuel : Nat} {xs : List α} (h : xs.length ≤ fuel) :
    (chunksFrom size fuel xs).flatten = xs := by
  induction fuel generalizing xs with
  | zero => rw [List.length_eq_zero_iff.mp (Nat.le_zero.mp h), chunksFrom, List.flatten_nil]
  | succ fuel ih =>
    unfold chunksFrom
    split
    · next hx => rw [hx, List.flatten_nil]
    · next hx =>
        have hpos := List.length_pos_of_ne_nil hx
        have hrest : (xs.drop size).length ≤ fuel := by
          rw [List.length_drop]
          omega
        rw [List.flatten_cons, ih hrest, List.take_append_drop]

/-- The pieces make up the list. -/
theorem flatten_chunks (xs : List α) : (chunks size xs).flatten = xs :=
  flatten_chunksFrom hsize le_rfl

/-- A piece of the list. -/
theorem getElem?_chunks (xs : List α) (i : Nat) : (chunks size xs)[i]? =
    if i * size < xs.length then some ((xs.drop (i * size)).take size) else none := by
  have h : ∀ fuel (xs : List α) (i : Nat), xs.length ≤ fuel → (chunksFrom size fuel xs)[i]? =
      if i * size < xs.length then some ((xs.drop (i * size)).take size) else none := by
    intro fuel
    induction fuel with
    | zero =>
      intro xs i hx
      rw [List.length_eq_zero_iff.mp (Nat.le_zero.mp hx)]
      simp [chunksFrom]
    | succ fuel ih =>
      intro xs i hx
      unfold chunksFrom
      split
      · next he => simp [he]
      · next he =>
          have hpos := List.length_pos_of_ne_nil he
          rcases i with _ | i
          · rw [List.getElem?_cons_zero, if_pos (by omega), Nat.zero_mul, List.drop_zero]
          · rw [List.getElem?_cons_succ, ih _ _ (by rw [List.length_drop]; omega),
              List.length_drop, List.drop_drop, Nat.succ_mul, Nat.add_comm (i * size) size]
            have hiff : i * size < xs.length - size ↔ size + i * size < xs.length := by omega
            simp only [hiff]
  exact h _ xs i le_rfl

end Chunks

/-- Sizes that make as many pieces of one list, and more than one. -/
theorem same_count_iff {size size' : Nat} (hsize : 0 < size) (hle : size ≤ size') :
    (∃ n, n ⌈/⌉ size = n ⌈/⌉ size' ∧ 2 ≤ n ⌈/⌉ size) ↔ size' < 2 * size := by
  have hsize' : 0 < size' := Nat.lt_of_lt_of_le hsize hle
  constructor
  · rintro ⟨n, heq, htwo⟩
    obtain ⟨d, hd⟩ := Nat.exists_eq_add_of_le' htwo
    have hfits : n ≤ size * (d + 2) := (ceilDiv_le_iff_le_mul hsize).mp hd.le
    have hover : size' * (d + 1) < n := by
      by_contra hn
      have h := (ceilDiv_le_iff_le_mul hsize').mpr (not_lt.mp hn)
      omega
    have htwice : size * (d + 2) ≤ 2 * size * (d + 1) := by nlinarith
    exact Nat.lt_of_mul_lt_mul_right ((hover.trans_le hfits).trans_le htwice)
  · intro hlt
    have htwo : ∀ k, 0 < k → k ≤ size' → size' < 2 * k → (size' + 1) ⌈/⌉ k = 2 := by
      intro k hk hle hlt
      apply le_antisymm
      · exact (ceilDiv_le_iff_le_mul hk).mpr (by omega)
      · by_contra hn
        have h := (ceilDiv_le_iff_le_mul hk).mp (Nat.lt_succ_iff.mp (not_le.mp hn))
        omega
    have hfirst := htwo size hsize hle hlt
    exact ⟨size' + 1, hfirst.trans (htwo size' hsize' le_rfl (by omega)).symm, hfirst.ge⟩

end RickydataGit.Lib
