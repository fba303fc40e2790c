/-
  Finite binary floating-point numbers with `p` fraction bits and `E` biased
  exponents below the one kept for infinities and NaNs, read as exact dyadic
  rationals.

  Every finite value is a whole number of the least positive value. `mag` and
  `units` count in that unit, so equality, order and integrality of the values
  are statements about natural numbers and integers, with no rounding anywhere.

  `mag_inj`: the count determines the two stored fields. `units_inj`: it
  determines the whole number once it is not zero (`+0` and `-0` share a count).
  `odd_lt_of_mag`: an odd factor of a count is below `2 ^ (p + 1)`; this is what
  says that an integer with too many significant bits is no value at all.
-/
import Mathlib

namespace RickydataGit.Lib

/-- A finite binary float: sign, biased exponent, trailing fraction. Exponent `0`
    holds zero and the subnormals. -/
structure BinaryFloat (p E : Nat) where
  sign : Bool
  exponent : Fin E
  fraction : Fin (2 ^ p)
  deriving DecidableEq

namespace BinaryFloat

variable {p E : Nat}

/-- The absolute value, counted in least positive values. -/
def mag (x : BinaryFloat p E) : Nat :=
  if x.exponent.val = 0 then x.fraction.val
  else (2 ^ p + x.fraction.val) * 2 ^ (x.exponent.val - 1)

/-- The value, counted in least positive values. -/
def units (x : BinaryFloat p E) : Int :=
  if x.sign then -(x.mag : Int) else (x.mag : Int)

theorem mag_eq_significand (x : BinaryFloat p E) :
    ∃ s j, s < 2 ^ (p + 1) ∧ x.mag = s * 2 ^ j := by
  have hf := x.fraction.isLt
  have hp : 2 ^ (p + 1) = 2 ^ p + 2 ^ p := by rw [pow_succ]; omega
  unfold mag
  split
  · exact ⟨x.fraction.val, 0, by omega, by simp⟩
  · exact ⟨2 ^ p + x.fraction.val, x.exponent.val - 1, by omega, rfl⟩

/-- The binade of a normal value. -/
theorem mag_bounds (x : BinaryFloat p E) (h : x.exponent.val ≠ 0) :
    2 ^ (p + (x.exponent.val - 1)) ≤ x.mag ∧ x.mag < 2 ^ (p + x.exponent.val) := by
  have hf := x.fraction.isLt
  have he : x.exponent.val = (x.exponent.val - 1) + 1 := by omega
  have hpos : 0 < 2 ^ (x.exponent.val - 1) := Nat.two_pow_pos _
  unfold mag
  rw [if_neg h]
  constructor
  · rw [pow_add]
    exact Nat.mul_le_mul_right _ (by omega)
  · have : 2 ^ (p + x.exponent.val) = (2 ^ p + 2 ^ p) * 2 ^ (x.exponent.val - 1) := by
      conv_lhs => rw [he]
      rw [pow_add, pow_succ]; ring
    rw [this]
    exact Nat.mul_lt_mul_of_pos_right (by omega) hpos

theorem mag_lt_of_subnormal (x : BinaryFloat p E) (h : x.exponent.val = 0) :
    x.mag < 2 ^ p := by
  unfold mag
  rw [if_pos h]
  exact x.fraction.isLt

/-- A larger exponent is a larger absolute value, whatever the fractions. -/
theorem mag_lt_of_exponent_lt {x y : BinaryFloat p E}
    (h : x.exponent.val < y.exponent.val) : x.mag < y.mag := by
  have hy : y.exponent.val ≠ 0 := by omega
  have hlow := (mag_bounds y hy).1
  by_cases hx : x.exponent.val = 0
  · have hsub := mag_lt_of_subnormal x hx
    have : 2 ^ p ≤ 2 ^ (p + (y.exponent.val - 1)) := Nat.pow_le_pow_right (by decide) (by omega)
    omega
  · have hup := (mag_bounds x hx).2
    have : 2 ^ (p + x.exponent.val) ≤ 2 ^ (p + (y.exponent.val - 1)) :=
      Nat.pow_le_pow_right (by decide) (by omega)
    omega

theorem mag_inj {x y : BinaryFloat p E} (h : x.mag = y.mag) :
    x.exponent = y.exponent ∧ x.fraction = y.fraction := by
  have he : x.exponent.val = y.exponent.val := by
    rcases Nat.lt_trichotomy x.exponent.val y.exponent.val with hlt | heq | hgt
    · have := mag_lt_of_exponent_lt hlt; omega
    · exact heq
    · have := mag_lt_of_exponent_lt hgt; omega
  refine ⟨Fin.ext he, Fin.ext ?_⟩
  unfold mag at h
  rw [he] at h
  split at h
  · exact h
  · have := Nat.eq_of_mul_eq_mul_right (Nat.two_pow_pos _) h
    omega

theorem natAbs_units (x : BinaryFloat p E) : x.units.natAbs = x.mag := by
  unfold units
  split <;> simp

theorem units_eq_zero_iff (x : BinaryFloat p E) : x.units = 0 ↔ x.mag = 0 := by
  rw [← Int.natAbs_eq_zero, natAbs_units]

/-- A value other than zero is held by one float only. -/
theorem units_inj {x y : BinaryFloat p E} (h : x.units = y.units) (h0 : x.units ≠ 0) :
    x = y := by
  have hm : x.mag = y.mag := by rw [← natAbs_units, h, natAbs_units]
  obtain ⟨he, hf⟩ := mag_inj hm
  have hpos : x.mag ≠ 0 := fun hz => h0 ((units_eq_zero_iff x).mpr hz)
  have hs : x.sign = y.sign := by
    unfold units at h
    rw [← hm] at h
    cases hx : x.sign <;> cases hy : y.sign <;> simp [hx, hy] at h ⊢ <;> omega
  cases x; cases y
  simp_all

/-- An odd factor of a count of units fits in the significand. -/
theorem odd_lt_of_mag (x : BinaryFloat p E) {c k : Nat} (hc : c % 2 = 1)
    (h : x.mag = c * 2 ^ k) : c < 2 ^ (p + 1) := by
  obtain ⟨s, j, hs, hx⟩ := mag_eq_significand x
  rw [hx] at h
  rcases Nat.le_total j k with hjk | hkj
  · have hk : 2 ^ k = 2 ^ (k - j) * 2 ^ j := by rw [← pow_add]; congr 1; omega
    rw [hk, ← Nat.mul_assoc] at h
    have hsc := Nat.eq_of_mul_eq_mul_right (Nat.two_pow_pos j) h
    have : c * 1 ≤ c * 2 ^ (k - j) := Nat.mul_le_mul_left c (Nat.two_pow_pos _)
    omega
  · have hj : 2 ^ j = 2 ^ (j - k) * 2 ^ k := by rw [← pow_add]; congr 1; omega
    rw [hj, ← Nat.mul_assoc] at h
    have hsc := Nat.eq_of_mul_eq_mul_right (Nat.two_pow_pos k) h
    -- an odd `c` leaves no factor two in `2 ^ (j - k)`
    have hjk : j - k = 0 := by
      by_contra hne
      obtain ⟨d, hd⟩ := Nat.exists_eq_succ_of_ne_zero hne
      rw [hd, Nat.pow_succ, ← Nat.mul_assoc] at hsc
      omega
    rw [hjk] at hsc
    omega

/-! ## Reading a count back -/

/-- The non-negative float with the given count of units, when the count is one
    (a left inverse of `mag`). -/
def ofMag (p E : Nat) (s : Bool) (m : Nat) : Option (BinaryFloat p E) :=
  if hsub : m < 2 ^ p then
    if hE : 0 < E then some ⟨s, ⟨0, hE⟩, ⟨m, hsub⟩⟩ else none
  else
    let e := m.log2 - p + 1
    if hE : e < E then
      some ⟨s, ⟨e, hE⟩, ⟨(m / 2 ^ (e - 1)) % 2 ^ p, Nat.mod_lt _ (Nat.two_pow_pos p)⟩⟩
    else none

theorem log2_mag (x : BinaryFloat p E) (h : x.exponent.val ≠ 0) :
    x.mag.log2 = p + (x.exponent.val - 1) := by
  obtain ⟨hlow, hup⟩ := mag_bounds x h
  have hne : x.mag ≠ 0 := by have := Nat.two_pow_pos (p + (x.exponent.val - 1)); omega
  have h1 := (Nat.le_log2 hne).mpr hlow
  have h2 := (Nat.log2_lt hne).mpr hup
  omega

theorem ofMag_mag (x : BinaryFloat p E) : ofMag p E x.sign x.mag = some x := by
  have hE : 0 < E := Nat.lt_of_le_of_lt (Nat.zero_le _) x.exponent.isLt
  unfold ofMag
  by_cases h : x.exponent.val = 0
  · have hsub := mag_lt_of_subnormal x h
    rw [dif_pos hsub, dif_pos hE]
    have hm : x.mag = x.fraction.val := by unfold mag; rw [if_pos h]
    cases x with
    | mk s e f =>
      simp only [Option.some.injEq, mk.injEq, true_and]
      exact ⟨Fin.ext h.symm, Fin.ext hm⟩
  · obtain ⟨hlow, hup⟩ := mag_bounds x h
    have hlog := log2_mag x h
    have hnsub : ¬ x.mag < 2 ^ p := by
      have : 2 ^ p ≤ 2 ^ (p + (x.exponent.val - 1)) :=
        Nat.pow_le_pow_right (by decide) (by omega)
      omega
    have he : x.mag.log2 - p + 1 = x.exponent.val := by omega
    have hfrac : x.mag / 2 ^ (x.exponent.val - 1) % 2 ^ p = x.fraction.val := by
      unfold mag
      rw [if_neg h, Nat.mul_div_cancel _ (Nat.two_pow_pos _), Nat.add_mod_left,
        Nat.mod_eq_of_lt x.fraction.isLt]
    rw [dif_neg hnsub]
    simp only [he]
    rw [dif_pos x.exponent.isLt]
    simp only [hfrac]

end BinaryFloat

end RickydataGit.Lib
