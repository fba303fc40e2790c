/-
  The text of a number.

  Integers are written in decimal by `numberText` itself. The text of a double is
  left to a `FloatText`: whatever writes every double apart, in number characters,
  with a point or an exponent in it. serde_json writes the shortest decimal that
  reads back as the double (`0.1`, `1e-7`), which is one; `FloatText.exact`, the
  whole decimal expansion, is another.

  `numberText` is the `NumText` the printer of JSON trees asks for.
-/
import RickydataGit.Core.Number

namespace RickydataGit.Core

open RickydataGit.Lib

/-! ## Decimal digits -/

def readDigits (ds : List Char) : Option Nat :=
  if ds ≠ [] ∧ ∀ c ∈ ds, c.isDigit then some (Nat.ofDigitChars 10 ds 0) else none

theorem isDigit_of_mem_toDigits {n : Nat} {c : Char} (hc : c ∈ Nat.toDigits 10 n) :
    c.isDigit = true :=
  Nat.isDigit_of_mem_toDigits (by decide) (by decide) hc

theorem readDigits_toDigits (n : Nat) : readDigits (Nat.toDigits 10 n) = some n := by
  unfold readDigits
  rw [if_pos ⟨Nat.toDigits_ne_nil, fun c hc => isDigit_of_mem_toDigits hc⟩,
    Nat.ofDigitChars_ten_toDigits]

/-- A text of digits does not start with a sign. -/
theorem toDigits_append_ne_neg (n : Nat) (t r : List Char) : Nat.toDigits 10 n ++ t ≠ '-' :: r := by
  intro h
  have hd : ∀ c ∈ Nat.toDigits 10 n, c.isDigit = true := fun c hc => isDigit_of_mem_toDigits hc
  cases hn : Nat.toDigits 10 n with
  | nil => exact Nat.toDigits_ne_nil hn
  | cons c ds =>
    rw [hn, List.cons_append, List.cons.injEq] at h
    have hc := hd c (by rw [hn]; exact List.mem_cons_self)
    rw [h.1] at hc
    exact absurd hc (by decide)

theorem isNumChar_of_isDigit {c : Char} (h : c.isDigit = true) : isNumChar c = true := by
  simp [isNumChar, h]

/-- The characters that tell a double's text from an integer's. -/
def isFloatMark (c : Char) : Bool := c = '.' || c = 'e'

theorem isFloatMark_of_isDigit {c : Char} (h : c.isDigit = true) : isFloatMark c = false := by
  unfold isFloatMark
  by_contra hm
  simp only [Bool.or_eq_true, decide_eq_true_eq, Bool.not_eq_false] at hm
  rcases hm with rfl | rfl <;> revert h <;> decide

theorem any_isFloatMark_toDigits (n : Nat) : (Nat.toDigits 10 n).any isFloatMark = false := by
  rw [List.any_eq_false]
  intro c hc
  rw [isFloatMark_of_isDigit (isDigit_of_mem_toDigits hc)]
  exact Bool.false_ne_true

/-! ## Doubles -/

/-- A way of writing doubles, each one in a text of its own. -/
structure FloatText where
  text : F64 → List Char
  read : List Char → Option F64
  read_text : ∀ x, read (text x) = some x
  text_mark : ∀ x, (text x).any isFloatMark = true
  text_chars : ∀ x, ∀ c ∈ text x, isNumChar c = true

/-! ## Numbers -/

def Number.text (F : FloatText) : Number → List Char
  | .posInt n => Nat.toDigits 10 n.toNat
  | .negInt i _ => '-' :: Nat.toDigits 10 i.toInt.natAbs
  | .float x => F.text x

/-- Reads what `Number.text` writes. -/
def Number.read (F : FloatText) (cs : List Char) : Option Number :=
  if cs.any isFloatMark then (F.read cs).map .float
  else
    match cs with
    | '-' :: ds => do
        let i := Int64.ofInt (-((← readDigits ds) : Int))
        if neg : i < 0 then some (.negInt i neg) else none
    | ds => do
        let n ← readDigits ds
        if n < 2 ^ 64 then some (.posInt (.ofNat n)) else none

theorem read_text_posInt (F : FloatText) (n : UInt64) :
    Number.read F (Nat.toDigits 10 n.toNat) = some (.posInt n) := by
  have hlt := n.toNat_lt
  unfold Number.read
  rw [any_isFloatMark_toDigits, if_neg Bool.false_ne_true]
  split
  · next ds heq => exact absurd (by rw [List.append_nil, heq]) (toDigits_append_ne_neg n.toNat [] ds)
  · next ds heq =>
      simp only [readDigits_toDigits, Option.bind_eq_bind, Option.bind_some]
      rw [if_pos (by simpa using hlt), UInt64.ofNat_toNat]

theorem read_text_negInt (F : FloatText) (i : Int64) (neg : i < 0) :
    Number.read F ('-' :: Nat.toDigits 10 i.toInt.natAbs) = some (.negInt i neg) := by
  have hneg := neg
  rw [Int64.lt_iff_toInt_lt, Int64.toInt_zero] at hneg
  have hmark : ('-' :: Nat.toDigits 10 i.toInt.natAbs).any isFloatMark = false := by
    rw [List.any_cons, any_isFloatMark_toDigits]
    decide
  have hi : Int64.ofInt (-((i.toInt.natAbs : Nat) : Int)) = i := by
    have : -((i.toInt.natAbs : Nat) : Int) = i.toInt := by omega
    rw [this, Int64.ofInt_toInt]
  unfold Number.read
  rw [hmark, if_neg Bool.false_ne_true]
  simp only [readDigits_toDigits, Option.bind_eq_bind, Option.bind_some, hi, dif_pos neg]

/-- How serde_json writes numbers, given how it writes doubles. -/
def numberText (F : FloatText) : NumText Number where
  text := Number.text F
  read := Number.read F
  read_text n := by
    cases n with
    | posInt n => exact read_text_posInt F n
    | negInt i neg => exact read_text_negInt F i neg
    | float x => simp [Number.text, Number.read, F.text_mark, F.read_text]
  text_ne_nil n := by
    cases n with
    | posInt n => exact Nat.toDigits_ne_nil
    | negInt i _ => simp [Number.text]
    | float x =>
      intro h
      have := F.text_mark x
      simp only [Number.text] at h
      simp [h] at this
  text_chars n := by
    cases n with
    | posInt n => exact fun c hc => isNumChar_of_isDigit (isDigit_of_mem_toDigits hc)
    | negInt i _ =>
      intro c hc
      rcases List.mem_cons.mp hc with rfl | hc
      · decide
      · exact isNumChar_of_isDigit (isDigit_of_mem_toDigits hc)
    | float x => exact F.text_chars x

/-! ## The exact decimal expansion -/

/-- `10 ^ 1074 / 2 ^ 1074`: a count of units times this is the value in units of
    `10 ^ -1074`. -/
@[irreducible] def fiveUnits : Nat := 5 ^ 1074

theorem fiveUnits_eq : fiveUnits = 5 ^ 1074 := by unfold fiveUnits; rfl

theorem fiveUnits_pos : 0 < fiveUnits := by
  rw [fiveUnits_eq]
  exact pow_pos (by decide) 1074

def exponentText : List Char := ['e', '-', '1', '0', '7', '4']

def exactText (x : F64) : List Char :=
  (if x.sign then ['-'] else []) ++ Nat.toDigits 10 (x.mag * fiveUnits) ++ exponentText

def readExact (cs : List Char) : Option F64 :=
  match cs with
  | '-' :: ds => magnitude true ds
  | ds => magnitude false ds
where
  magnitude (s : Bool) (ds : List Char) : Option F64 := do
    let n ← readDigits (ds.takeWhile Char.isDigit)
    BinaryFloat.ofMag 52 2047 s (n / fiveUnits)

theorem takeWhile_digits (n : Nat) :
    (Nat.toDigits 10 n ++ exponentText).takeWhile Char.isDigit = Nat.toDigits 10 n := by
  rw [List.takeWhile_append_of_pos fun c hc => isDigit_of_mem_toDigits hc]
  simp [exponentText]

theorem magnitude_text (x : F64) :
    readExact.magnitude x.sign (Nat.toDigits 10 (x.mag * fiveUnits) ++ exponentText) = some x := by
  unfold readExact.magnitude
  rw [takeWhile_digits, readDigits_toDigits, Option.bind_eq_bind, Option.bind_some,
    Nat.mul_div_cancel _ fiveUnits_pos]
  exact BinaryFloat.ofMag_mag x

theorem readExact_neg (ds : List Char) : readExact ('-' :: ds) = readExact.magnitude true ds :=
  rfl

theorem readExact_pos {ds : List Char} (h : ∀ r, ds ≠ '-' :: r) :
    readExact ds = readExact.magnitude false ds := by
  unfold readExact
  split
  · next r => exact absurd rfl (h r)
  · rfl

theorem readExact_exactText (x : F64) : readExact (exactText x) = some x := by
  have hx := magnitude_text x
  unfold exactText
  cases hs : x.sign with
  | true =>
    rw [hs] at hx
    rw [if_pos rfl, List.append_assoc, List.singleton_append, readExact_neg, hx]
  | false =>
    rw [hs] at hx
    rw [if_neg Bool.false_ne_true, List.nil_append,
      readExact_pos fun r => toDigits_append_ne_neg _ _ r, hx]

/-- Every double written as the decimal fraction it denotes. -/
def FloatText.exact : FloatText where
  text := exactText
  read := readExact
  read_text := readExact_exactText
  text_mark x := by
    rw [exactText, List.any_append, Bool.or_eq_true]
    exact .inr (by decide)
  text_chars x := by
    intro c hc
    unfold exactText at hc
    generalize x.mag * fiveUnits = m at hc
    rw [List.mem_append, List.mem_append] at hc
    rcases hc with (hc | hc) | hc
    · split at hc
      · rw [List.mem_singleton.mp hc]; decide
      · exact absurd hc List.not_mem_nil
    · exact isNumChar_of_isDigit (isDigit_of_mem_toDigits hc)
    · exact List.all_eq_true.mp (by decide : exponentText.all isNumChar = true) c hc

end RickydataGit.Core
