/-
  Hexadecimal digits in both cases.

  A digit is one of sixteen small ones or one of six capitals; `hexDigitValue` reads both,
  and the digit written for the value is the small one.
-/
import RickydataGit.Lib.JsonText

namespace RickydataGit.Lib

def smallHexDigits : List Char :=
  ['0', '1', '2', '3', '4', '5', '6', '7', '8', '9', 'a', 'b', 'c', 'd', 'e', 'f']

def capitalHexDigits : List Char := ['A', 'B', 'C', 'D', 'E', 'F']

def SmallHex (c : Char) : Prop := c ∈ smallHexDigits

def CapitalHex (c : Char) : Prop := c ∈ capitalHexDigits

def HexDigit (c : Char) : Prop := SmallHex c ∨ CapitalHex c

instance : DecidablePred SmallHex := fun _ => inferInstanceAs (Decidable (_ ∈ _))

instance : DecidablePred CapitalHex := fun _ => inferInstanceAs (Decidable (_ ∈ _))

instance : DecidablePred HexDigit := fun _ => inferInstanceAs (Decidable (_ ∨ _))

/-! ## Case -/

/-- A test of the list is a test of each digit. -/
theorem SmallHex.of_all {p : Char → Bool} {c : Char} (h : SmallHex c)
    (hall : smallHexDigits.all p = true) : p c = true :=
  List.all_eq_true.mp hall c h

theorem CapitalHex.of_all {p : Char → Bool} {c : Char} (h : CapitalHex c)
    (hall : capitalHexDigits.all p = true) : p c = true :=
  List.all_eq_true.mp hall c h

theorem SmallHex.toLower {c : Char} (h : SmallHex c) : c.toLower = c :=
  of_decide_eq_true (h.of_all (p := fun c => c.toLower = c) (by decide))

theorem SmallHex.isUpper {c : Char} (h : SmallHex c) : c.isUpper = false :=
  of_decide_eq_true (h.of_all (p := fun c => c.isUpper = false) (by decide))

theorem CapitalHex.isUpper {c : Char} (h : CapitalHex c) : c.isUpper = true :=
  h.of_all (by decide)

theorem CapitalHex.toLower {c : Char} (h : CapitalHex c) : SmallHex c.toLower :=
  of_decide_eq_true (h.of_all (p := fun c => SmallHex c.toLower) (by decide))

theorem CapitalHex.not_small {c : Char} (h : CapitalHex c) : ¬ SmallHex c := by
  intro hs
  have hu := h.isUpper
  rw [hs.isUpper] at hu
  cases hu

theorem HexDigit.toLower {c : Char} (h : HexDigit c) : SmallHex c.toLower := by
  rcases h with h | h
  · rwa [h.toLower]
  · exact h.toLower

theorem HexDigit.utf8Size {c : Char} (h : HexDigit c) : c.utf8Size = 1 := by
  rcases h with h | h
  · exact of_decide_eq_true (h.of_all (p := fun c => c.utf8Size = 1) (by decide))
  · exact of_decide_eq_true (h.of_all (p := fun c => c.utf8Size = 1) (by decide))

/-! ## Values -/

theorem ascii_of_hexDigitValue {c : Char} {d : Nat} (h : hexDigitValue c = some d) :
    c.toNat < 128 := by
  have below : ∀ e : Char, c ≤ e → e.toNat < 128 → c.toNat < 128 :=
    fun e hce he => Nat.lt_of_le_of_lt hce he
  unfold hexDigitValue at h
  split at h
  · next hr => exact below '9' hr.2 (by decide)
  · split at h
    · next hr => exact below 'f' hr.2 (by decide)
    · split at h
      · next hr => exact below 'F' hr.2 (by decide)
      · cases h

theorem hexDigit_of_value {c : Char} {d : Nat} (h : hexDigitValue c = some d) : HexDigit c := by
  have hall : ∀ n < 128, (hexDigitValue (.ofNat n)).isSome → HexDigit (.ofNat n) := by decide
  have hc := hall c.toNat (ascii_of_hexDigitValue h)
  rw [Char.ofNat_toNat, h] at hc
  exact hc rfl

/-- The digit of the value of a digit is the digit in lower case. -/
theorem HexDigit.value {c : Char} (h : HexDigit c) :
    ∃ d < 16, hexDigitValue c = some d ∧ d.digitChar = c.toLower := by
  let p : Char → Bool := fun c => (hexDigitValue c).any fun d => d < 16 ∧ d.digitChar = c.toLower
  have hp : p c = true := by
    rcases h with h | h
    · exact h.of_all (by decide)
    · exact h.of_all (by decide)
  obtain ⟨d, hd, hpd⟩ := (Option.any_eq_true _ _).mp hp
  obtain ⟨hlt, hdigit⟩ := of_decide_eq_true hpd
  exact ⟨d, hlt, hd, hdigit⟩

theorem hexDigitValue_isSome_iff {c : Char} : (hexDigitValue c).isSome = true ↔ HexDigit c := by
  constructor
  · intro h
    obtain ⟨d, hd⟩ := Option.isSome_iff_exists.mp h
    exact hexDigit_of_value hd
  · intro h
    obtain ⟨d, -, hd, -⟩ := h.value
    rw [hd]
    rfl

end RickydataGit.Lib
