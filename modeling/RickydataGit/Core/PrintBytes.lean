/-
  The bytes of a value without the text in between.

  `Json.print` gives characters, and `utf8` goes through a `String`. `printBytes` goes
  from the UTF-8 bytes of the strings of a value to the bytes of the whole, byte by byte:
  what is escaped is ASCII, and the bytes of every other character are passed on.

  `toVec_eq`: both are the same. On a given value the bytes are computed in this way, and
  so are the hashes (`stableJsonHash_eq`).
-/
import RickydataGit.Core.Object

namespace RickydataGit.Core

open RickydataGit.Lib

/-- The UTF-8 bytes of some characters. -/
def encodeChars (cs : List Char) : Bytes := cs.flatMap String.utf8EncodeChar

theorem encodeChars_append (cs ds : List Char) :
    encodeChars (cs ++ ds) = encodeChars cs ++ encodeChars ds :=
  List.flatMap_append

theorem encodeChars_cons (c : Char) (cs : List Char) :
    encodeChars (c :: cs) = String.utf8EncodeChar c ++ encodeChars cs := rfl

theorem utf8_ofList (cs : List Char) : utf8 (.ofList cs) = encodeChars cs := by
  have h : (String.ofList cs).toByteArray = (encodeChars cs).toByteArray := by
    rw [String.toByteArray_ofList]
    rfl
  rw [utf8, h]
  simp

theorem utf8_eq (s : String) : utf8 s = encodeChars s.toList := by
  rw [← utf8_ofList, String.ofList_toList]

/-! ## Escapes -/

/-- A byte within a string: the escape of an ASCII character that has one. -/
def escapeByte (b : UInt8) : Bytes :=
  if b.toNat < 0x20 ∨ b.toNat = 0x22 ∨ b.toNat = 0x5c then
    encodeChars (escapeChar (.ofNat b.toNat))
  else [b]

theorem escapeByte_plain {b : UInt8} (h : 0x80 ≤ b.toNat) : escapeByte b = [b] := by
  rw [escapeByte, if_neg (by omega)]

/-- A character without an escape. -/
theorem escapeChar_plain {c : Char} (h : 0x20 ≤ c.toNat) (hq : c.toNat ≠ 0x22)
    (hb : c.toNat ≠ 0x5c) : escapeChar c = [c] := by
  have hquote : c ≠ '"' := fun he => hq (by rw [he]; rfl)
  have hslash : c ≠ '\\' := fun he => hb (by rw [he]; rfl)
  rw [escapeChar, if_neg hquote, if_neg hslash, if_neg (by omega)]

/-- The bytes of a character outside of ASCII. -/
theorem high_of_mem_utf8EncodeChar {c : Char} (h : 0x80 ≤ c.toNat) {b : UInt8}
    (hb : b ∈ String.utf8EncodeChar c) : 0x80 ≤ b.toNat := by
  have hc : c.val.toNat = c.toNat := rfl
  have hbyte : ∀ n < 256, 0x80 ≤ n → 0x80 ≤ (UInt8.ofNat n).toNat := by
    intro n hn hhigh
    rw [UInt8.toNat_ofNat']
    omega
  unfold String.utf8EncodeChar at hb
  dsimp only at hb
  split at hb
  · omega
  · split at hb
    · simp only [List.mem_cons, List.not_mem_nil, or_false] at hb
      rcases hb with rfl | rfl
      · exact hbyte _ (by omega) (by omega)
      · exact hbyte _ (by omega) (by omega)
    · split at hb
      · simp only [List.mem_cons, List.not_mem_nil, or_false] at hb
        rcases hb with rfl | rfl | rfl
        · exact hbyte _ (by omega) (by omega)
        · exact hbyte _ (by omega) (by omega)
        · exact hbyte _ (by omega) (by omega)
      · simp only [List.mem_cons, List.not_mem_nil, or_false] at hb
        rcases hb with rfl | rfl | rfl | rfl
        · exact hbyte _ (by omega) (by omega)
        · exact hbyte _ (by omega) (by omega)
        · exact hbyte _ (by omega) (by omega)
        · exact hbyte _ (by omega) (by omega)

theorem flatMap_escapeByte (c : Char) :
    (String.utf8EncodeChar c).flatMap escapeByte = encodeChars (escapeChar c) := by
  by_cases h : c.toNat < 0x80
  · have hencode : String.utf8EncodeChar c = [.ofNat c.toNat] := by
      have hle : c.val.toNat ≤ 0x7f := Nat.le_of_lt_succ h
      rw [String.utf8EncodeChar]
      simp only [hle, if_true]
      rfl
    have hb : (UInt8.ofNat c.toNat).toNat = c.toNat := by
      rw [UInt8.toNat_ofNat']
      omega
    rw [hencode, List.flatMap_singleton, escapeByte, hb]
    split
    · rw [Char.ofNat_toNat]
    · next hs =>
        rw [escapeChar_plain (by omega) (by omega) (by omega), encodeChars, List.flatMap_singleton,
          hencode]
  · rw [escapeChar_plain (by omega) (by omega) (by omega), encodeChars, List.flatMap_singleton]
    refine (List.flatMap_congr fun b hb => ?_).trans (List.flatMap_singleton' _)
    exact escapeByte_plain (high_of_mem_utf8EncodeChar (by omega) hb)

/-- `quote` on bytes. -/
def quoteBytes (s : String) : Bytes := 0x22 :: ((utf8 s).flatMap escapeByte ++ [0x22])

theorem encodeChars_quote (s : String) : encodeChars (quote s) = quoteBytes s := by
  have hescaped : encodeChars (s.toList.flatMap escapeChar) = (utf8 s).flatMap escapeByte := by
    rw [utf8_eq, encodeChars, encodeChars, List.flatMap_assoc, List.flatMap_assoc]
    exact List.flatMap_congr fun c _ => (flatMap_escapeByte c).symm
  rw [quote, encodeChars_cons, encodeChars_append, hescaped]
  rfl

/-! ## Values -/

section

variable {N : Type} (C : NumText N)

mutual
/-- The bytes of the compact text of a tree. -/
def printBytes : Json N → Bytes
  | .null => encodeChars ['n', 'u', 'l', 'l']
  | .bool true => encodeChars ['t', 'r', 'u', 'e']
  | .bool false => encodeChars ['f', 'a', 'l', 's', 'e']
  | .num n => encodeChars (C.text n)
  | .str s => quoteBytes s
  | .arr [] => [0x5b, 0x5d]
  | .arr (x :: xs) => 0x5b :: (printBytes x ++ (printElemBytes xs ++ [0x5d]))
  | .obj [] => [0x7b, 0x7d]
  | .obj ((k, v) :: ms) =>
      0x7b :: (quoteBytes k ++ (0x3a :: (printBytes v ++ (printMemberBytes ms ++ [0x7d]))))

/-- The bytes of the elements behind the first one. -/
def printElemBytes : List (Json N) → Bytes
  | [] => []
  | x :: xs => 0x2c :: (printBytes x ++ printElemBytes xs)

/-- The bytes of the members behind the first one. -/
def printMemberBytes : List (String × Json N) → Bytes
  | [] => []
  | (k, v) :: ms => 0x2c :: (quoteBytes k ++ (0x3a :: (printBytes v ++ printMemberBytes ms)))
end

mutual
theorem encodeChars_print (d : Nat) :
    ∀ v : Json N, encodeChars (v.print C .compact d) = printBytes C v
  | .null => rfl
  | .bool true => rfl
  | .bool false => rfl
  | .num n => rfl
  | .str s => encodeChars_quote s
  | .arr [] => rfl
  | .arr (x :: xs) => by
    have hx := encodeChars_print (d + 1) x
    have hxs := encodeChars_printElems (d + 1) xs
    simp only [Json.print, printBytes, Layout.compact, List.nil_append, encodeChars_cons,
      encodeChars_append] at hx hxs ⊢
    rw [hx, hxs]
    rfl
  | .obj [] => rfl
  | .obj ((k, v) :: ms) => by
    have hv := encodeChars_print (d + 1) v
    have hms := encodeChars_printMembers (d + 1) ms
    simp only [Json.print, printBytes, Layout.compact, List.nil_append, encodeChars_cons,
      encodeChars_append, encodeChars_quote] at hv hms ⊢
    rw [hv, hms]
    rfl

theorem encodeChars_printElems (d : Nat) :
    ∀ xs : List (Json N), encodeChars (Json.printElems C .compact d xs) = printElemBytes C xs
  | [] => rfl
  | x :: xs => by
    have hx := encodeChars_print d x
    have hxs := encodeChars_printElems d xs
    simp only [Json.printElems, printElemBytes, Layout.compact, List.nil_append, encodeChars_cons,
      encodeChars_append] at hx hxs ⊢
    rw [hx, hxs]
    rfl

theorem encodeChars_printMembers (d : Nat) :
    ∀ ms : List (String × Json N),
      encodeChars (Json.printMembers C .compact d ms) = printMemberBytes C ms
  | [] => rfl
  | (k, v) :: ms => by
    have hv := encodeChars_print d v
    have hms := encodeChars_printMembers d ms
    simp only [Json.printMembers, printMemberBytes, Layout.compact, List.nil_append,
      encodeChars_cons, encodeChars_append, encodeChars_quote] at hv hms ⊢
    rw [hv, hms]
    rfl
end

end

theorem toVec_eq (F : FloatText) (v : Value) : toVec F v = printBytes (numberText F) v.tree := by
  rw [toVec, utf8_ofList, encodeChars_print]

theorem stableJsonHash_eq (X : Crates) (v : Value) : stableJsonHash X v =
    hashText X (printBytes (numberText X.floatText) (canonicalJson v).tree) := by
  rw [stableJsonHash, canonicalBytes, toVec_eq]

/-- The id of an object is computed from the bytes of its body. -/
theorem objectId_new (X : Crates) (kind schemaVersion : String) (createdAtMs : UInt64)
    (body : Value) : (CanonicalObject.new X kind schemaVersion createdAtMs body).objectId =
      hashText X (printBytes (numberText X.floatText) (canonicalJson (.obj [("kind", .str kind),
        ("schema_version", .str schemaVersion), ("body", body)] (by simp))).tree) :=
  stableJsonHash_eq X _

end RickydataGit.Core
