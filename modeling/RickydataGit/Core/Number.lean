/-
  JSON numbers as serde_json holds them, and their canonical choice.

  A number is a `u64`, a negative `i64` or a finite `f64`. `canonicalNumber` keeps
  the two integer variants and turns an integral double of the `i64` range into an
  integer. The range test compares against `i64::MAX as f64`, which is `2 ^ 63` and
  not `2 ^ 63 - 1`, and the conversion saturates.

  `canonicalNumber_eq_iff` says which pairs of numbers get one canonical number:
  the numerically equal ones, except a `u64` from `2 ^ 63` on beside a double
  (`Split`), and on top of these the double `2 ^ 63` beside the integer
  `2 ^ 63 - 1` (`Saturates`).
-/
import RickydataGit.Lib.BinaryFloat
import RickydataGit.Lib.JsonText

namespace RickydataGit.Core

open RickydataGit.Lib

/-! ## Doubles -/

/-- A finite `f64`. -/
abbrev F64 := BinaryFloat 52 2047

/-- How many least positive doubles make up `1.0`. -/
@[irreducible] def oneUnits : Nat := 2 ^ 1074

theorem oneUnits_eq : oneUnits = 2 ^ 1074 := by unfold oneUnits; rfl

theorem oneUnits_pos : 0 < oneUnits := by
  rw [oneUnits_eq]
  exact pow_pos (by decide) 1074

/-- The rational a double denotes. -/
def f64Value (x : F64) : ℚ := x.units / oneUnits

/-- `fract() == 0.0`. -/
def isIntegral (x : F64) : Bool := x.units % oneUnits = 0

/-- The integer part, by which an integral double is its value. -/
def wholePart (x : F64) : Int := x.units / oneUnits

/-- `i64::MIN as f64`. -/
def i64MinAsF64 : F64 := ⟨true, 1086, 0⟩

/-- `i64::MAX as f64`: `2 ^ 63 - 1` has 63 significant bits and rounds up to `2 ^ 63`. -/
def i64MaxAsF64 : F64 := ⟨false, 1086, 0⟩

/-- `as i64` of a finite double: towards zero, saturating. -/
def asI64Saturating (x : F64) : Int64 := .ofIntClamp (x.units.tdiv oneUnits)

theorem units_of_isIntegral {x : F64} (h : isIntegral x = true) :
    x.units = wholePart x * oneUnits := by
  have hm : x.units % oneUnits = 0 := by simpa [isIntegral] using h
  unfold wholePart
  have := Int.mul_ediv_add_emod x.units oneUnits
  rw [hm, Int.add_zero] at this
  rw [Int.mul_comm]
  exact this.symm

theorem isIntegral_of_units {x : F64} {z : Int} (h : x.units = z * oneUnits) :
    isIntegral x = true ∧ wholePart x = z := by
  have hpos : (oneUnits : Int) ≠ 0 := by exact_mod_cast oneUnits_pos.ne'
  refine ⟨?_, ?_⟩
  · simp [isIntegral, h]
  · rw [wholePart, h, Int.mul_ediv_cancel _ hpos]

theorem tdiv_of_isIntegral {x : F64} (h : isIntegral x = true) :
    x.units.tdiv oneUnits = wholePart x := by
  have hpos : (oneUnits : Int) ≠ 0 := by exact_mod_cast oneUnits_pos.ne'
  rw [units_of_isIntegral h, Int.mul_tdiv_cancel _ hpos]

theorem units_i64MinAsF64 : i64MinAsF64.units = -2 ^ 63 * oneUnits := by decide +kernel

theorem units_i64MaxAsF64 : i64MaxAsF64.units = 2 ^ 63 * oneUnits := by decide +kernel

/-- The range test of an integral double, on its value. -/
theorem inRange_iff {x : F64} (h : isIntegral x = true) :
    (i64MinAsF64.units ≤ x.units ∧ x.units ≤ i64MaxAsF64.units) ↔
      -2 ^ 63 ≤ wholePart x ∧ wholePart x ≤ 2 ^ 63 := by
  have hpos : (0 : Int) < oneUnits := by exact_mod_cast oneUnits_pos
  rw [units_i64MinAsF64, units_i64MaxAsF64, units_of_isIntegral h,
    Int.mul_le_mul_right hpos, Int.mul_le_mul_right hpos]

/-- `2 ^ 63 - 1` needs 63 significant bits, so it is no double. -/
theorem wholePart_ne_i64Max {x : F64} (h : isIntegral x = true) : wholePart x ≠ 2 ^ 63 - 1 := by
  intro hw
  have hu := units_of_isIntegral h
  have hc : ((2 : Int) ^ 63 - 1).natAbs = 2 ^ 63 - 1 := by decide
  have hm : x.mag = (2 ^ 63 - 1) * 2 ^ 1074 := by
    rw [← BinaryFloat.natAbs_units, hu, hw, Int.natAbs_mul, Int.natAbs_natCast, hc, oneUnits_eq]
  have hlt := BinaryFloat.odd_lt_of_mag x (by decide) hm
  omega

/-! ## Numbers -/

/-- `serde_json::Number`: `PosInt`, `NegInt` (below zero) or `Float` (finite). -/
inductive Number where
  | posInt (n : UInt64)
  | negInt (i : Int64) (neg : i < 0)
  | float (x : F64)
  deriving DecidableEq

namespace Number

/-- `Number::from(i64)`. -/
def ofI64 (i : Int64) : Number :=
  if h : i < 0 then .negInt i h else .posInt i.toUInt64

def asI64 : Number → Option Int64
  | .posInt n => if n.toNat ≤ 2 ^ 63 - 1 then some (.ofNat n.toNat) else none
  | .negInt i _ => some i
  | .float _ => none

def asU64 : Number → Option UInt64
  | .posInt n => some n
  | _ => none

/-- `as_f64` of the variant the other two readings leave over. -/
def asF64 : Number → Option F64
  | .float x => some x
  | _ => none

/-- The mathematical number. -/
def value : Number → ℚ
  | .posInt n => n.toNat
  | .negInt i _ => i.toInt
  | .float x => f64Value x

/-- `value`, counted in least positive doubles. -/
def units : Number → Int
  | .posInt n => n.toNat * oneUnits
  | .negInt i _ => i.toInt * oneUnits
  | .float x => x.units

theorem value_eq_units (n : Number) : n.value = n.units / oneUnits := by
  have hpos : (oneUnits : ℚ) ≠ 0 := by exact_mod_cast oneUnits_pos.ne'
  cases n with
  | posInt n => simp only [value, units]; push_cast; field_simp
  | negInt i _ => simp only [value, units]; push_cast; field_simp
  | float x => rfl

theorem value_eq_iff (x y : Number) : x.value = y.value ↔ x.units = y.units := by
  have hpos : (oneUnits : ℚ) ≠ 0 := by exact_mod_cast oneUnits_pos.ne'
  rw [value_eq_units, value_eq_units, div_left_inj' hpos]
  exact Int.cast_inj

end Number

open Number

/-! ## The canonical number -/

def canonicalNumber (number : Number) : Number :=
  match number.asI64 with
  | some value => .ofI64 value
  | none =>
    match number.asU64 with
    | some value => .posInt value
    | none =>
      match number.asF64 with
      | some value =>
        if isIntegral value ∧ i64MinAsF64.units ≤ value.units ∧
            value.units ≤ i64MaxAsF64.units then
          .ofI64 (asI64Saturating value)
        else .float value
      | none => number

theorem ofI64_toInt64_of_lt {n : UInt64} (h : n.toNat ≤ 2 ^ 63 - 1) :
    ofI64 (.ofNat n.toNat) = .posInt n := by
  have hi : (Int64.ofNat n.toNat).toInt = n.toNat := Int64.toInt_ofNat_of_lt (by omega)
  have hn : ¬ (Int64.ofNat n.toNat) < 0 := by
    rw [Int64.lt_iff_toInt_lt, hi, Int64.toInt_zero]
    omega
  rw [ofI64, dif_neg hn, Int64.toUInt64_ofNat', UInt64.ofNat_toNat]

@[simp] theorem canonicalNumber_posInt (n : UInt64) :
    canonicalNumber (.posInt n) = .posInt n := by
  unfold canonicalNumber asI64
  by_cases h : n.toNat ≤ 2 ^ 63 - 1
  · simp only [if_pos h, ofI64_toInt64_of_lt h]
  · simp only [if_neg h, asU64]

@[simp] theorem canonicalNumber_negInt (i : Int64) (neg : i < 0) :
    canonicalNumber (.negInt i neg) = .negInt i neg := by
  simp [canonicalNumber, asI64, ofI64, neg]

theorem canonicalNumber_float (x : F64) :
    canonicalNumber (.float x) =
      if isIntegral x = true ∧ -2 ^ 63 ≤ wholePart x ∧ wholePart x ≤ 2 ^ 63 then
        .ofI64 (.ofIntClamp (wholePart x))
      else .float x := by
  simp only [canonicalNumber, asI64, asU64, asF64]
  by_cases h : isIntegral x = true
  · simp only [h, true_and, inRange_iff h, asI64Saturating, tdiv_of_isIntegral h]
  · simp [h]

theorem canonicalNumber_ofI64 (i : Int64) : canonicalNumber (.ofI64 i) = .ofI64 i := by
  unfold ofI64
  split <;> simp

theorem canonicalNumber_idem (n : Number) :
    canonicalNumber (canonicalNumber n) = canonicalNumber n := by
  cases n with
  | posInt n => simp
  | negInt i neg => simp
  | float x =>
    by_cases h : isIntegral x = true ∧ -2 ^ 63 ≤ wholePart x ∧ wholePart x ≤ 2 ^ 63
    · rw [canonicalNumber_float, if_pos h, canonicalNumber_ofI64]
    · have hx : canonicalNumber (.float x) = .float x := by rw [canonicalNumber_float, if_neg h]
      rw [hx, hx]

/-- `canonicalNumber` of an integral double of the tested range, by its value. -/
theorem canonicalNumber_float_of_inRange {x : F64} (hi : isIntegral x = true)
    (hlo : -2 ^ 63 ≤ wholePart x) (hhi : wholePart x ≤ 2 ^ 63) :
    canonicalNumber (.float x) = .ofI64 (.ofIntClamp (wholePart x)) := by
  rw [canonicalNumber_float, if_pos ⟨hi, hlo, hhi⟩]

theorem canonicalNumber_float_of_not_inRange {x : F64}
    (h : ¬ (isIntegral x = true ∧ -2 ^ 63 ≤ wholePart x ∧ wholePart x ≤ 2 ^ 63)) :
    canonicalNumber (.float x) = .float x := by
  rw [canonicalNumber_float, if_neg h]

/-! ## Which numbers share a canonical number -/

/-- One number held twice: as a `u64` beyond the `i64` range and as a double. -/
def Split : Number → Number → Prop
  | .posInt n, .float _ => 2 ^ 63 ≤ n.toNat
  | .float _, .posInt n => 2 ^ 63 ≤ n.toNat
  | _, _ => False

/-- The double `2 ^ 63` beside the integer `2 ^ 63 - 1`. -/
def Saturates : Number → Number → Prop
  | .posInt n, .float x => n.toNat = 2 ^ 63 - 1 ∧ f64Value x = 2 ^ 63
  | .float x, .posInt n => n.toNat = 2 ^ 63 - 1 ∧ f64Value x = 2 ^ 63
  | _, _ => False

theorem Split.symm {x y : Number} (h : Split x y) : Split y x := by
  cases x <;> cases y <;> exact h

theorem Saturates.symm {x y : Number} (h : Saturates x y) : Saturates y x := by
  cases x <;> cases y <;> exact h

theorem value_ofI64 (i : Int64) : (ofI64 i).value = i.toInt := by
  unfold ofI64
  split
  · rfl
  · next h =>
      rw [Int64.lt_iff_toInt_lt, Int64.toInt_zero] at h
      have hle : (0 : Int64) ≤ i := by rw [Int64.le_iff_toInt_le, Int64.toInt_zero]; omega
      have hn : i.toUInt64.toNat = i.toInt.toNat := Int64.toNat_toUInt64_of_le hle
      simp only [value, hn]
      exact_mod_cast Int.toNat_of_nonneg (by omega : 0 ≤ i.toInt)

theorem ofI64_inj {i j : Int64} (h : ofI64 i = ofI64 j) : i = j := by
  have hv := congrArg value h
  rw [value_ofI64, value_ofI64] at hv
  exact Int64.toInt_inj.mp (by exact_mod_cast hv)

theorem ofI64_ne_float (i : Int64) (x : F64) : ofI64 i ≠ .float x := by
  unfold ofI64
  split <;> simp

theorem f64Value_eq_iff {x : F64} {z : Int} :
    f64Value x = z ↔ isIntegral x = true ∧ wholePart x = z := by
  have hpos : (oneUnits : ℚ) ≠ 0 := by exact_mod_cast oneUnits_pos.ne'
  rw [f64Value, div_eq_iff hpos]
  constructor
  · intro h
    exact isIntegral_of_units (by exact_mod_cast h)
  · rintro ⟨hi, rfl⟩
    exact_mod_cast units_of_isIntegral hi

/-- The saturated value of the one boundary double, and of nothing else. -/
theorem toInt_ofIntClamp {z : Int} (hlo : -2 ^ 63 ≤ z) (hhi : z ≤ 2 ^ 63) :
    (Int64.ofIntClamp z).toInt = if z = 2 ^ 63 then 2 ^ 63 - 1 else z := by
  have hmin : Int64.minValue.toInt = -2 ^ 63 := by decide
  have hmax : Int64.maxValue.toInt = 2 ^ 63 - 1 := by decide
  split
  · next h => rw [h]; decide
  · exact Int64.toInt_ofIntClamp (by omega) (by omega)

/-- What the canonical number of a double is, by the double's value. -/
theorem value_canonicalNumber_float (x : F64) :
    (canonicalNumber (.float x)).value =
      if f64Value x = 2 ^ 63 then 2 ^ 63 - 1 else f64Value x := by
  have hcast : (2 ^ 63 : ℚ) = ((2 ^ 63 : Int) : ℚ) := by norm_num
  rw [hcast]
  by_cases h : isIntegral x = true ∧ -2 ^ 63 ≤ wholePart x ∧ wholePart x ≤ 2 ^ 63
  · obtain ⟨hi, hlo, hhi⟩ := h
    have hv : f64Value x = wholePart x := f64Value_eq_iff.mpr ⟨hi, rfl⟩
    rw [canonicalNumber_float_of_inRange hi hlo hhi, value_ofI64, toInt_ofIntClamp hlo hhi, hv]
    simp only [Int.cast_inj]
    split
    · norm_num
    · rfl
  · rw [canonicalNumber_float_of_not_inRange h, if_neg]
    · rfl
    · intro hv
      obtain ⟨hi, hw⟩ := f64Value_eq_iff.mp hv
      exact h ⟨hi, by omega, by omega⟩

theorem canonicalNumber_float_eq_ofI64 {x : F64} {z : Int} (hv : f64Value x = z)
    (hlo : -2 ^ 63 ≤ z) (hhi : z < 2 ^ 63) :
    canonicalNumber (.float x) = .ofI64 (.ofInt z) := by
  obtain ⟨hi, rfl⟩ := f64Value_eq_iff.mp hv
  rw [canonicalNumber_float_of_inRange hi hlo (by omega)]
  congr 1
  apply Int64.toInt_inj.mp
  rw [toInt_ofIntClamp hlo (by omega), if_neg (by omega), Int64.toInt_ofInt_of_le hlo hhi]

theorem canonicalNumber_float_cases (x : F64) :
    (∃ j, canonicalNumber (.float x) = .ofI64 j) ∨ canonicalNumber (.float x) = .float x := by
  rw [canonicalNumber_float]
  split
  · exact .inl ⟨_, rfl⟩
  · exact .inr rfl

theorem f64Value_ne_i64Max (x : F64) : f64Value x ≠ 2 ^ 63 - 1 := by
  intro h
  have hz : f64Value x = ((2 ^ 63 - 1 : Int) : ℚ) := by rw [h]; norm_num
  obtain ⟨hi, hw⟩ := f64Value_eq_iff.mp hz
  exact wholePart_ne_i64Max hi hw

/-- A double and an `i64`: equal values, or the saturated pair. -/
theorem canonicalNumber_float_eq_ofI64_iff (x : F64) (j : Int64) :
    canonicalNumber (.float x) = .ofI64 j ↔
      f64Value x = j.toInt ∨ (j.toInt = 2 ^ 63 - 1 ∧ f64Value x = 2 ^ 63) := by
  constructor
  · intro h
    have hv := congrArg value h
    rw [value_canonicalNumber_float, value_ofI64] at hv
    split at hv
    · next hx =>
        refine .inr ⟨?_, hx⟩
        have : ((2 ^ 63 - 1 : Int) : ℚ) = j.toInt := by rw [← hv]; norm_num
        exact (by exact_mod_cast this : (2 ^ 63 - 1 : Int) = j.toInt).symm
    · exact .inl hv
  · rintro (hv | ⟨hj, hv⟩)
    · rw [canonicalNumber_float_eq_ofI64 hv j.le_toInt j.toInt_lt, Int64.ofInt_toInt]
    · have hz : f64Value x = ((2 ^ 63 : Int) : ℚ) := by rw [hv]; norm_num
      obtain ⟨hi, hw⟩ := f64Value_eq_iff.mp hz
      rw [canonicalNumber_float_of_inRange hi (by omega) (by omega)]
      congr 1
      apply Int64.toInt_inj.mp
      rw [toInt_ofIntClamp (by omega) (by omega), if_pos hw, hj]

/-- Two doubles: equal values. -/
theorem canonicalNumber_float_eq_float_iff (x y : F64) :
    canonicalNumber (.float x) = canonicalNumber (.float y) ↔ f64Value x = f64Value y := by
  constructor
  · intro h
    have hv := congrArg value h
    rw [value_canonicalNumber_float, value_canonicalNumber_float] at hv
    have hx := f64Value_ne_i64Max x
    have hy := f64Value_ne_i64Max y
    split at hv <;> split at hv
    · next h1 h2 => rw [h1, h2]
    · exact absurd hv.symm hy
    · exact absurd hv hx
    · exact hv
  · intro h
    by_cases hr : isIntegral x = true ∧ -2 ^ 63 ≤ wholePart x ∧ wholePart x ≤ 2 ^ 63
    · obtain ⟨hi, hlo, hhi⟩ := hr
      have hx : f64Value x = wholePart x := f64Value_eq_iff.mpr ⟨hi, rfl⟩
      obtain ⟨hj, hw⟩ := f64Value_eq_iff.mp (h.symm.trans hx)
      rw [canonicalNumber_float_of_inRange hi hlo hhi,
        canonicalNumber_float_of_inRange hj (by omega) (by omega), hw]
    · have hu : x.units = y.units := (Number.value_eq_iff (.float x) (.float y)).mp h
      -- zero is in range, so a value out of it is held by one double only
      have h0 : x.units ≠ 0 := by
        intro h0
        obtain ⟨hi, hw⟩ := isIntegral_of_units (z := 0) (by rw [h0, Int.zero_mul])
        exact hr ⟨hi, by omega, by omega⟩
      rw [BinaryFloat.units_inj hu h0]

theorem negInt_eq_ofI64 (i : Int64) (neg : i < 0) : Number.negInt i neg = .ofI64 i := by
  rw [ofI64, dif_pos neg]

/-- A double and a `u64`. -/
theorem canonicalNumber_float_eq_posInt_iff (x : F64) (n : UInt64) :
    canonicalNumber (.float x) = .posInt n ↔
      (f64Value x = n.toNat ∧ ¬ 2 ^ 63 ≤ n.toNat) ∨
        (n.toNat = 2 ^ 63 - 1 ∧ f64Value x = 2 ^ 63) := by
  by_cases hn : n.toNat ≤ 2 ^ 63 - 1
  · have hi : (Int64.ofNat n.toNat).toInt = n.toNat := Int64.toInt_ofNat_of_lt (by omega)
    have hle : ¬ 2 ^ 63 ≤ n.toNat := by omega
    rw [← ofI64_toInt64_of_lt hn, canonicalNumber_float_eq_ofI64_iff, hi]
    simp only [hle, not_false_eq_true, and_true, Int.cast_natCast]
    constructor
    · rintro (h | ⟨h, hx⟩)
      · exact .inl h
      · exact .inr ⟨by omega, hx⟩
    · rintro (h | ⟨h, hx⟩)
      · exact .inl h
      · exact .inr ⟨by omega, hx⟩
  · constructor
    · intro h
      rcases canonicalNumber_float_cases x with ⟨j, hj⟩ | hx
      · have hv := congrArg value (hj.symm.trans h)
        rw [value_ofI64] at hv
        have hjn : j.toInt = (n.toNat : Int) := by
          have : (j.toInt : ℚ) = n.toNat := hv
          exact_mod_cast this
        have := j.toInt_lt
        omega
      · rw [hx] at h
        cases h
    · rintro (⟨_, h⟩ | ⟨h, _⟩) <;> omega

/-- Which pairs of numbers get one canonical number. -/
theorem canonicalNumber_eq_iff (x y : Number) :
    canonicalNumber x = canonicalNumber y ↔
      (x.value = y.value ∧ ¬ Split x y) ∨ Saturates x y := by
  cases x with
  | posInt n =>
    cases y with
    | posInt m =>
      simp only [canonicalNumber_posInt, Number.posInt.injEq, value, Split, Saturates,
        not_false_eq_true, and_true, or_false]
      rw [← UInt64.toNat_inj]
      exact_mod_cast Iff.rfl
    | negInt j neg =>
      rw [Int64.lt_iff_toInt_lt, Int64.toInt_zero] at neg
      simp only [canonicalNumber_posInt, canonicalNumber_negInt, reduceCtorEq, value, Split,
        Saturates, not_false_eq_true, and_true, or_false, false_iff]
      intro h
      have : (n.toNat : Int) = j.toInt := by exact_mod_cast h
      omega
    | float y =>
      rw [canonicalNumber_posInt, eq_comm, canonicalNumber_float_eq_posInt_iff,
        eq_comm (a := f64Value y)]
      rfl
  | negInt i neg =>
    cases y with
    | posInt m =>
      rw [Int64.lt_iff_toInt_lt, Int64.toInt_zero] at neg
      simp only [canonicalNumber_posInt, canonicalNumber_negInt, reduceCtorEq, value, Split,
        Saturates, not_false_eq_true, and_true, or_false, false_iff]
      intro h
      have : i.toInt = (m.toNat : Int) := by exact_mod_cast h
      omega
    | negInt j neg' =>
      simp only [canonicalNumber_negInt, Number.negInt.injEq, value, Split, Saturates,
        not_false_eq_true, and_true, or_false, Int.cast_inj, Int64.toInt_inj]
    | float y =>
      have hneg := neg
      rw [Int64.lt_iff_toInt_lt, Int64.toInt_zero] at hneg
      rw [canonicalNumber_negInt, negInt_eq_ofI64, eq_comm, canonicalNumber_float_eq_ofI64_iff,
        eq_comm (a := f64Value y), value_ofI64]
      have hmax : ¬ i.toInt = 2 ^ 63 - 1 := by omega
      simp only [hmax, false_and, or_false, ofI64, dif_pos neg, Split, Saturates,
        not_false_eq_true, and_true]
      rfl
  | float x =>
    cases y with
    | posInt m =>
      rw [canonicalNumber_posInt, canonicalNumber_float_eq_posInt_iff]
      rfl
    | negInt j neg =>
      have hneg := neg
      rw [Int64.lt_iff_toInt_lt, Int64.toInt_zero] at hneg
      rw [canonicalNumber_negInt, negInt_eq_ofI64, canonicalNumber_float_eq_ofI64_iff, value_ofI64]
      have hmax : ¬ j.toInt = 2 ^ 63 - 1 := by omega
      simp only [hmax, false_and, or_false, ofI64, dif_pos neg, Split, Saturates,
        not_false_eq_true, and_true]
      rfl
    | float y =>
      rw [canonicalNumber_float_eq_float_iff]
      simp only [Split, Saturates, not_false_eq_true, and_true, or_false]
      rfl

theorem Saturates.ne {x y : Number} (h : Saturates x y) : x.value ≠ y.value := by
  cases x with
  | posInt n =>
    cases y with
    | float y =>
      obtain ⟨hn, hy⟩ := h
      simp only [value, hn, hy]
      norm_num
    | _ => exact h.elim
  | negInt i neg => exact h.elim
  | float x =>
    cases y with
    | posInt m =>
      obtain ⟨hm, hx⟩ := h
      simp only [value, hm, hx]
      norm_num
    | _ => exact h.elim

theorem Split.not_saturates {x y : Number} (h : Split x y) : ¬ Saturates x y := by
  intro hs
  cases x <;> cases y <;> simp only [Split, Saturates] at h hs <;> omega

end RickydataGit.Core
