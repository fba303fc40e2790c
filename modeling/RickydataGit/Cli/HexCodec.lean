/-
  `encode_hex` and `decode_hex`, the codec of a patch diff.

  The decoder takes two bytes at a time and leaves the digits to `u8::from_str_radix`,
  which reads `+f` as well; a slice that ends inside a character panics. `hexCodec_iff`:
  what is encoded is decoded again, and a text is decoded as its digits say exactly when
  it has odd length or, after the longest run of slices that are read, neither a
  character is cut nor the text is over with a sign in it.
-/
import RickydataGit.Lib.HexDigits
import RickydataGit.Cli.PatchIds

namespace RickydataGit.Cli

open RickydataGit.Lib RickydataGit.Core RickydataGit.Git

/-! ## The encoder -/

/-- `encode_hex`, which takes the digits out of a table. -/
def encodeHex (bytes : Bytes) : String :=
  .ofList (bytes.flatMap fun byte : UInt8 =>
    [smallHexDigits.getD (byte >>> 4).toNat '0', smallHexDigits.getD (byte &&& 0x0f).toNat '0'])

theorem encodeHex_eq (bytes : Bytes) : encodeHex bytes = hexEncode bytes := by
  have hall : ∀ n < 256, [smallHexDigits.getD (UInt8.ofNat n >>> 4).toNat '0',
      smallHexDigits.getD (UInt8.ofNat n &&& 0x0f).toNat '0'] =
        [((UInt8.ofNat n).toNat / 16).digitChar, ((UInt8.ofNat n).toNat % 16).digitChar] := by
    decide +kernel
  apply String.toList_inj.mp
  rw [encodeHex, String.toList_ofList, hexEncode_toList]
  congr 1
  funext byte
  have hbyte := hall byte.toNat byte.toNat_lt
  rwa [UInt8.ofNat_toNat] at hbyte

/-! ## What a text holds -/

/-- An even number of hexadecimal digits. -/
def IsHex (encoded : String) : Prop :=
  encoded.toList.length % 2 = 0 ∧ ∀ c ∈ encoded.toList, HexDigit c

/-- The codec on one text: no panic, the texts of digits are decoded and no others, and
    the bytes are encoded as the text in lower case. -/
structure DecodesHex (encoded : String) : Prop where
  no_panic : decodeHex encoded ≠ .error .panic
  ok_iff : (∃ bytes, decodeHex encoded = .ok bytes) ↔ IsHex encoded
  encode : ∀ bytes, decodeHex encoded = .ok bytes →
    encodeHex bytes = .ofList (encoded.toList.map Char.toLower)

/-- Two characters that are read as a byte: two digits, or a sign and a digit. -/
def ReadsPair (pair : Char × Char) : Prop :=
  (HexDigit pair.1 ∨ pair.1 = '+') ∧ HexDigit pair.2

def spell (pairs : List (Char × Char)) : List Char := pairs.flatMap fun pair => [pair.1, pair.2]

/-- The first slice of two bytes ends inside a character. -/
def CutsCharacter : List Char → Prop
  | [] => False
  | a :: rest => 2 < a.utf8Size ∨ a.utf8Size = 1 ∧ ∃ b ∈ rest.head?, b.utf8Size ≠ 1

/-- The text is a run of slices that are read, with a sign in one of them. -/
def Signed (cs : List Char) : Prop :=
  ∃ pairs, (∀ pair ∈ pairs, ReadsPair pair) ∧ cs = spell pairs ∧ ∃ pair ∈ pairs, pair.1 = '+'

/-- After slices that are read one ends inside a character. -/
def Cut (cs : List Char) : Prop :=
  ∃ pairs rest, (∀ pair ∈ pairs, ReadsPair pair) ∧ cs = spell pairs ++ rest ∧ CutsCharacter rest

/-! ## One slice -/

theorem not_hexDigit_plus : ¬ HexDigit '+' := by
  decide

theorem ReadsPair.utf8Size {pair : Char × Char} (h : ReadsPair pair) :
    pair.1.utf8Size = 1 ∧ pair.2.utf8Size = 1 := by
  refine ⟨?_, h.2.utf8Size⟩
  rcases h.1 with hd | hp
  · exact hd.utf8Size
  · rw [hp]
    rfl

theorem byteOfHex_isSome_iff (pair : Char × Char) :
    (byteOfHex pair.1 pair.2).isSome = true ↔ ReadsPair pair := by
  unfold byteOfHex ReadsPair
  by_cases hp : pair.1 = '+'
  · rw [if_pos hp, Option.isSome_map, hexDigitValue_isSome_iff]
    exact ⟨fun h => ⟨.inr hp, h⟩, fun h => h.2⟩
  · rw [if_neg hp, ← hexDigitValue_isSome_iff, ← hexDigitValue_isSome_iff]
    cases hexDigitValue pair.1 <;> cases hexDigitValue pair.2 <;> simp [hp]

/-- Two digits are read as the byte that is written with them in lower case. -/
theorem byteOfHex_of_digits {a b : Char} (ha : HexDigit a) (hb : HexDigit b) :
    ∃ byte : UInt8, byteOfHex a b = some byte ∧
      [(byte.toNat / 16).digitChar, (byte.toNat % 16).digitChar] = [a.toLower, b.toLower] := by
  have hplus : a ≠ '+' := fun h => not_hexDigit_plus (h ▸ ha)
  obtain ⟨high, hhigh, hva, hca⟩ := ha.value
  obtain ⟨low, hlow, hvb, hcb⟩ := hb.value
  refine ⟨.ofNat (high * 16 + low), ?_, ?_⟩
  · rw [byteOfHex, if_neg hplus, hva, hvb]
    rfl
  · have hbyte : (UInt8.ofNat (high * 16 + low)).toNat = high * 16 + low :=
      UInt8.toNat_ofNat_of_lt' (by rw [UInt8.size]; omega)
    have hdiv : (high * 16 + low) / 16 = high := by omega
    have hmod : (high * 16 + low) % 16 = low := by omega
    rw [hbyte, hdiv, hmod, hca, hcb]

/-- A slice that is read leaves the rest of the text. -/
theorem decodeHexFrom_pair {pair : Char × Char} (h : ReadsPair pair) (index : Nat)
    (rest : List Char) : ∃ byte, byteOfHex pair.1 pair.2 = some byte ∧
      decodeHexFrom index (pair.1 :: pair.2 :: rest) =
        (decodeHexFrom (index + 2) rest).map (byte :: ·) := by
  obtain ⟨byte, hbyte⟩ := Option.isSome_iff_exists.mp ((byteOfHex_isSome_iff pair).mpr h)
  obtain ⟨ha, hb⟩ := h.utf8Size
  refine ⟨byte, hbyte, ?_⟩
  simp only [decodeHexFrom, ha, hb, hbyte, ne_eq, not_true_eq_false, or_self, if_false,
    OfNat.one_ne_ofNat]
  cases decodeHexFrom (index + 2) rest <;> rfl

/-! ## Runs of slices -/

theorem spell_cons (pair : Char × Char) (pairs : List (Char × Char)) :
    spell (pair :: pairs) = pair.1 :: pair.2 :: spell pairs := rfl

/-- Slices that are read are read whatever comes after them. -/
theorem decodeHexFrom_spell {pairs : List (Char × Char)} (h : ∀ pair ∈ pairs, ReadsPair pair)
    (index : Nat) (rest : List Char) : ∃ bytes,
      decodeHexFrom index (spell pairs ++ rest) =
        (decodeHexFrom (index + 2 * pairs.length) rest).map (bytes ++ ·) := by
  induction pairs generalizing index with
  | nil =>
    refine ⟨[], ?_⟩
    change decodeHexFrom index rest = (decodeHexFrom index rest).map ([] ++ ·)
    cases decodeHexFrom index rest <;> rfl
  | cons pair pairs ih =>
    obtain ⟨bytes, hbytes⟩ := ih (fun p hp => h p (.tail _ hp)) (index + 2)
    obtain ⟨byte, -, hpair⟩ := decodeHexFrom_pair (h pair (.head _)) index (spell pairs ++ rest)
    have hindex : index + 2 * (pair :: pairs).length = index + 2 + 2 * pairs.length := by
      rw [List.length_cons]
      omega
    refine ⟨byte :: bytes, ?_⟩
    rw [spell_cons, List.cons_append, List.cons_append, hpair, hbytes, hindex]
    cases decodeHexFrom (index + 2 + 2 * pairs.length) rest <;> rfl

/-- Slices of digits are read as the bytes that are written with them in lower case. -/
theorem decodeHexFrom_digits {pairs : List (Char × Char)}
    (h : ∀ pair ∈ pairs, HexDigit pair.1 ∧ HexDigit pair.2) (index : Nat) :
    ∃ bytes, decodeHexFrom index (spell pairs) = .ok bytes ∧
      (hexEncode bytes).toList = (spell pairs).map Char.toLower := by
  induction pairs generalizing index with
  | nil => exact ⟨[], rfl, rfl⟩
  | cons pair pairs ih =>
    obtain ⟨ha, hb⟩ := h pair (.head _)
    obtain ⟨bytes, hbytes, hlower⟩ := ih (fun p hp => h p (.tail _ hp)) (index + 2)
    have hreads : ReadsPair pair := ⟨.inl ha, hb⟩
    obtain ⟨byte, hbyte, hpair⟩ := decodeHexFrom_pair hreads index (spell pairs)
    obtain ⟨byte', hbyte', hdigits⟩ := byteOfHex_of_digits ha hb
    obtain rfl := Option.some.inj (hbyte.symm.trans hbyte')
    refine ⟨byte :: bytes, by rw [spell_cons, hpair, hbytes]; rfl, ?_⟩
    rw [hexEncode_toList] at hlower ⊢
    rw [List.flatMap_cons, hlower, hdigits]
    rfl

/-- The text after the longest run of slices that are read. -/
def Stuck : List Char → Prop
  | a :: b :: _ => ¬ ReadsPair (a, b)
  | _ => True

theorem exists_spell (cs : List Char) :
    ∃ pairs rest, (∀ pair ∈ pairs, ReadsPair pair) ∧ cs = spell pairs ++ rest ∧ Stuck rest := by
  induction cs using List.twoStepInduction with
  | nil => exact ⟨[], [], by simp, rfl, trivial⟩
  | singleton a => exact ⟨[], [a], by simp, rfl, trivial⟩
  | cons_cons a b cs ih _ =>
    by_cases hpair : ReadsPair (a, b)
    · obtain ⟨pairs, rest, hpairs, rfl, hrest⟩ := ih
      refine ⟨(a, b) :: pairs, rest, ?_, rfl, hrest⟩
      rintro pair (_ | hmem)
      · exact hpair
      · exact hpairs pair ‹_›
    · exact ⟨[], a :: b :: cs, by simp, rfl, hpair⟩

/-! ## Where the run ends -/

theorem decodeHexFrom_cuts {rest : List Char} (h : CutsCharacter rest) (index : Nat) :
    decodeHexFrom index rest = .error .panic := by
  rcases rest with _ | ⟨a, rest⟩
  · exact h.elim
  rcases h with hlong | ⟨hone, b, hb, hsize⟩
  · have htwo : a.utf8Size ≠ 2 := by omega
    have hone : a.utf8Size ≠ 1 := by omega
    rw [decodeHexFrom.eq_def]
    dsimp only
    rw [if_neg htwo]
    rcases rest with _ | ⟨b, rest⟩
    · rfl
    · exact if_pos (.inl hone)
  · rcases rest with _ | ⟨b', rest⟩
    · cases hb
    · obtain rfl := Option.some.inj hb
      have htwo : a.utf8Size ≠ 2 := by omega
      rw [decodeHexFrom.eq_def]
      dsimp only
      rw [if_neg htwo]
      exact if_pos (.inr hsize)

/-- A run ends with an error unless a character is cut or one byte is left. -/
theorem decodeHexFrom_stuck {rest : List Char} (h : Stuck rest) (hne : rest ≠ [])
    (hone : ∀ a, rest = [a] → a.utf8Size ≠ 1) (hcut : ¬ CutsCharacter rest) (index : Nat) :
    ∃ message, decodeHexFrom index rest = .error (.bail message) := by
  rcases rest with _ | ⟨a, rest⟩
  · exact absurd rfl hne
  have hpos := a.utf8Size_pos
  rw [CutsCharacter, not_or] at hcut
  obtain ⟨hlong, hshort⟩ := hcut
  rw [decodeHexFrom.eq_def]
  dsimp only
  by_cases htwo : a.utf8Size = 2
  · exact ⟨_, if_pos htwo⟩
  have ha : a.utf8Size = 1 := by omega
  rw [if_neg htwo]
  rcases rest with _ | ⟨b, rest⟩
  · exact absurd ha (hone a rfl)
  · have hb : b.utf8Size = 1 := by
      by_contra hb
      exact hshort ⟨ha, b, rfl, hb⟩
    have hnone : byteOfHex a b = none := by
      have hsome : ¬ (byteOfHex a b).isSome = true :=
        fun hs => h ((byteOfHex_isSome_iff (a, b)).mp hs)
      exact Option.not_isSome_iff_eq_none.mp hsome
    refine ⟨s!"invalid hex byte at offset {index}", ?_⟩
    dsimp only
    rw [if_neg (by simp [ha, hb]), hnone]

/-! ## Sizes -/

theorem sum_utf8Size_of_digits {cs : List Char} (h : ∀ c ∈ cs, HexDigit c) :
    (cs.map Char.utf8Size).sum = cs.length := by
  have hones : cs.map Char.utf8Size = List.replicate cs.length 1 := by
    refine List.eq_replicate_iff.mpr ⟨List.length_map .., fun n hn => ?_⟩
    obtain ⟨c, hc, rfl⟩ := List.mem_map.mp hn
    exact (h c hc).utf8Size
  rw [hones, List.sum_replicate, smul_eq_mul, mul_one]

theorem sum_utf8Size_spell {pairs : List (Char × Char)} (h : ∀ pair ∈ pairs, ReadsPair pair) :
    ((spell pairs).map Char.utf8Size).sum = 2 * pairs.length := by
  induction pairs with
  | nil => rfl
  | cons pair pairs ih =>
    obtain ⟨ha, hb⟩ := (h pair (.head _)).utf8Size
    rw [spell_cons, List.map_cons, List.map_cons, List.sum_cons, List.sum_cons,
      ih fun p hp => h p (.tail _ hp), ha, hb, List.length_cons]
    omega

theorem length_spell (pairs : List (Char × Char)) : (spell pairs).length = 2 * pairs.length := by
  induction pairs with
  | nil => rfl
  | cons pair pairs ih =>
    rw [spell_cons, List.length_cons, List.length_cons, List.length_cons, ih]
    omega

theorem mem_spell {pairs : List (Char × Char)} {c : Char} :
    c ∈ spell pairs ↔ ∃ pair ∈ pairs, c = pair.1 ∨ c = pair.2 := by
  simp only [spell, List.mem_flatMap, List.mem_cons, List.not_mem_nil, or_false]

theorem utf8ByteSize_eq (encoded : String) :
    encoded.utf8ByteSize = (encoded.toList.map Char.utf8Size).sum := by
  rw [← utf8ByteSize_ofList, String.ofList_toList]

/-- Digits do not get stuck. -/
theorem not_stuck_of_digits {rest : List Char} (h : ∀ c ∈ rest, HexDigit c)
    (heven : rest.length % 2 = 0) (hne : rest ≠ []) : ¬ Stuck rest := by
  rcases rest with _ | ⟨a, _ | ⟨b, rest⟩⟩
  · exact absurd rfl hne
  · simp at heven
  · exact fun hs => hs ⟨.inl (h a (.head _)), h b (.tail _ (.head _))⟩

/-! ## The codec -/

theorem not_signed_of_decodes {encoded : String} (heven : encoded.utf8ByteSize % 2 = 0)
    (h : DecodesHex encoded) : ¬ Signed encoded.toList := by
  rintro ⟨pairs, hpairs, heq, pair, hmem, hplus⟩
  obtain ⟨bytes, hbytes⟩ := decodeHexFrom_spell hpairs 0 []
  rw [List.append_nil, ← heq] at hbytes
  have hok : decodeHex encoded = .ok (bytes ++ []) := by
    rw [decodeHex, if_neg (not_not.mpr heven), hbytes]
    rfl
  have hdigit := (h.ok_iff.mp ⟨_, hok⟩).2 pair.1 (heq ▸ mem_spell.mpr ⟨pair, hmem, .inl rfl⟩)
  exact not_hexDigit_plus (hplus ▸ hdigit)

theorem not_cut_of_decodes {encoded : String} (heven : encoded.utf8ByteSize % 2 = 0)
    (h : DecodesHex encoded) : ¬ Cut encoded.toList := by
  rintro ⟨pairs, rest, hpairs, heq, hcut⟩
  obtain ⟨bytes, hbytes⟩ := decodeHexFrom_spell hpairs 0 rest
  refine h.no_panic ?_
  rw [decodeHex, if_neg (not_not.mpr heven), heq, hbytes, decodeHexFrom_cuts hcut]
  rfl

theorem decodes_of_odd {encoded : String} (hodd : encoded.utf8ByteSize % 2 ≠ 0) :
    DecodesHex encoded := by
  have herr : decodeHex encoded = .error (.bail "hex-encoded patch diff has odd length") :=
    if_pos hodd
  refine ⟨by rw [herr]; rintro ⟨⟩, ?_, by rw [herr]; rintro _ ⟨⟩⟩
  rw [herr]
  constructor
  · rintro ⟨_, ⟨⟩⟩
  · rintro ⟨heven, hdigits⟩
    rw [utf8ByteSize_eq, sum_utf8Size_of_digits hdigits] at hodd
    exact absurd heven hodd

/-- A text that is all slices that are read, without a sign. -/
theorem decodes_of_spell {encoded : String} {pairs : List (Char × Char)}
    (hpairs : ∀ pair ∈ pairs, ReadsPair pair) (heq : encoded.toList = spell pairs)
    (hsigned : ¬ Signed encoded.toList) (heven : encoded.utf8ByteSize % 2 = 0) :
    DecodesHex encoded := by
  have hdigits : ∀ pair ∈ pairs, HexDigit pair.1 ∧ HexDigit pair.2 := by
    intro pair hmem
    refine ⟨(hpairs pair hmem).1.resolve_right fun hplus => ?_, (hpairs pair hmem).2⟩
    exact hsigned ⟨pairs, hpairs, heq, pair, hmem, hplus⟩
  obtain ⟨bytes, hbytes, hlower⟩ := decodeHexFrom_digits hdigits 0
  have hok : decodeHex encoded = .ok bytes := by
    rw [decodeHex, if_neg (not_not.mpr heven), heq, hbytes]
  have hhex : IsHex encoded := by
    refine ⟨by rw [heq, length_spell]; omega, fun c hc => ?_⟩
    obtain ⟨pair, hmem, rfl | rfl⟩ := mem_spell.mp (heq ▸ hc)
    · exact (hdigits pair hmem).1
    · exact (hdigits pair hmem).2
  refine ⟨by rw [hok]; rintro ⟨⟩, ⟨fun _ => hhex, fun _ => ⟨bytes, hok⟩⟩, ?_⟩
  intro bytes' hok'
  obtain rfl := Except.ok.inj (hok.symm.trans hok')
  rw [encodeHex_eq, heq, ← hlower, String.ofList_toList]

/-- A text whose run ends early, with no character cut. -/
theorem decodes_of_stuck {encoded : String} {pairs : List (Char × Char)} {rest : List Char}
    (hpairs : ∀ pair ∈ pairs, ReadsPair pair) (heq : encoded.toList = spell pairs ++ rest)
    (hstuck : Stuck rest) (hne : rest ≠ []) (hcut : ¬ Cut encoded.toList)
    (heven : encoded.utf8ByteSize % 2 = 0) : DecodesHex encoded := by
  have hone : ∀ a, rest = [a] → a.utf8Size ≠ 1 := by
    rintro a rfl ha
    rw [utf8ByteSize_eq, heq, List.map_append, List.sum_append, sum_utf8Size_spell hpairs,
      List.map_singleton, List.sum_singleton, ha] at heven
    omega
  have hcuts : ¬ CutsCharacter rest := fun h => hcut ⟨pairs, rest, hpairs, heq, h⟩
  obtain ⟨bytes, hbytes⟩ := decodeHexFrom_spell hpairs 0 rest
  obtain ⟨message, hmessage⟩ := decodeHexFrom_stuck hstuck hne hone hcuts (0 + 2 * pairs.length)
  have herr : decodeHex encoded = .error (.bail message) := by
    rw [decodeHex, if_neg (not_not.mpr heven), heq, hbytes, hmessage]
    rfl
  refine ⟨by rw [herr]; rintro ⟨⟩, ?_, by rw [herr]; rintro _ ⟨⟩⟩
  rw [herr]
  constructor
  · rintro ⟨_, ⟨⟩⟩
  · rintro ⟨hlength, hdigits⟩
    rw [heq] at hlength hdigits
    rw [List.length_append, length_spell] at hlength
    have hrest : rest.length % 2 = 0 := by omega
    exact absurd hstuck
      (not_stuck_of_digits (fun c hc => hdigits c (List.mem_append_right _ hc)) hrest hne)

/-- What is encoded is decoded again, and a text is decoded as its digits say exactly when
    it has odd length or neither ends in a run with a sign nor has a character cut. -/
theorem hexCodec_iff (bytes : Bytes) (encoded : String) :
    decodeHex (encodeHex bytes) = .ok bytes ∧
      (DecodesHex encoded ↔
        (encoded.utf8ByteSize % 2 = 0 → ¬ Signed encoded.toList ∧ ¬ Cut encoded.toList)) := by
  refine ⟨by rw [encodeHex_eq, decodeHex_hexEncode], ?_⟩
  constructor
  · intro h heven
    exact ⟨not_signed_of_decodes heven h, not_cut_of_decodes heven h⟩
  · intro h
    by_cases heven : encoded.utf8ByteSize % 2 = 0
    · obtain ⟨hsigned, hcut⟩ := h heven
      obtain ⟨pairs, rest, hpairs, heq, hstuck⟩ := exists_spell encoded.toList
      by_cases hne : rest = []
      · rw [hne, List.append_nil] at heq
        exact decodes_of_spell hpairs heq hsigned heven
      · exact decodes_of_stuck hpairs heq hstuck hne hcut heven
    · exact decodes_of_odd heven

/-- A sign is read as a digit, and a letter with an accent is cut. -/
theorem signedDigit_and_cut_letter :
    decodeHex "+f" = .ok [15] ∧ ¬ IsHex "+f" ∧ ¬ DecodesHex "+f" ∧
      decodeHex "aé1" = .error .panic ∧ ¬ DecodesHex "aé1" := by
  have hplus : decodeHex "+f" = .ok [15] := by decide +kernel
  have hcut : decodeHex "aé1" = .error .panic := by decide +kernel
  have hnot : ¬ IsHex "+f" := by
    rintro ⟨-, hdigits⟩
    exact not_hexDigit_plus (hdigits '+' (by decide +kernel))
  exact ⟨hplus, hnot, fun h => hnot (h.ok_iff.mp ⟨_, hplus⟩), hcut, fun h => h.no_panic hcut⟩

end RickydataGit.Cli
