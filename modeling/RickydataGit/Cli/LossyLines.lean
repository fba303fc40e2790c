/-
  Lines of a text that was decoded with replacement characters.

  An ASCII byte is never part of what is replaced, so decoding goes by parts between such
  bytes: the lines of the decoded bytes are the decoded lines (`linesOf_toStringLossy`).
-/
import RickydataGit.Core.PrintBytes
import RickydataGit.Cli.GraphScan

namespace RickydataGit.Cli

open RickydataGit.Lib RickydataGit.Core

/-! ## Ranges -/

/-- No ASCII byte follows a leading byte. -/
theorem low_of_mem_continuationRanges {lead low high : UInt8}
    (h : (low, high) ∈ continuationRanges lead) : 0x80 ≤ low := by
  unfold continuationRanges at h
  split_ifs at h <;> simp at h <;> rcases h with h | h | h <;> simp_all

theorem continuationRanges_ascii {b : UInt8} (hb : b < 0x80) : continuationRanges b = [] := by
  have hall : ∀ n < 128, continuationRanges (.ofNat n) = [] := by decide
  have h := hall b.toNat hb
  rwa [UInt8.ofNat_toNat] at h

theorem continuationLength_le (ranges : List (UInt8 × UInt8)) (bytes : Bytes) :
    continuationLength ranges bytes ≤ bytes.length := by
  induction ranges generalizing bytes with
  | nil => simp [continuationLength]
  | cons range ranges ih =>
    rcases bytes with _ | ⟨b, bytes⟩
    · simp [continuationLength]
    · have h := ih bytes
      simp only [continuationLength, List.length_cons]
      split <;> omega

/-- The bytes of a character end before an ASCII byte. -/
theorem continuationLength_append {ranges : List (UInt8 × UInt8)}
    (hlow : ∀ range ∈ ranges, 0x80 ≤ range.1) {a : UInt8} (ha : a < 0x80) (bytes rest : Bytes) :
    continuationLength ranges (bytes ++ a :: rest) = continuationLength ranges bytes := by
  induction ranges generalizing bytes with
  | nil => cases bytes <;> rfl
  | cons range ranges ih =>
    have hr := hlow range (.head _)
    rcases bytes with _ | ⟨b, bytes⟩
    · have hnot : ¬ range.1 ≤ a := by
        rw [UInt8.not_le]
        exact UInt8.lt_of_lt_of_le ha hr
      simp [continuationLength, hnot]
    · have htail := ih (fun r hmem => hlow r (.tail _ hmem)) bytes
      simp only [List.cons_append, continuationLength, htail]

/-! ## Decoding by parts -/

theorem fromUtf8_ascii {a : UInt8} (ha : a < 0x80) :
    fromUtf8 [a] = some (.ofList [.ofNat a.toNat]) := by
  have hall : ∀ n < 128, fromUtf8 [.ofNat n] = some (.ofList [.ofNat n]) := by decide
  have h := hall a.toNat ha
  rwa [UInt8.ofNat_toNat] at h

theorem lossyChars_ascii {a : UInt8} (ha : a < 0x80) (rest : Bytes) :
    lossyChars 0 (a :: rest) = .ofNat a.toNat :: lossyChars 0 rest := by
  rw [lossyChars, continuationRanges_ascii ha]
  simp only [continuationLength, List.take_zero]
  rw [fromUtf8_ascii ha, Option.getD_some, String.toList_ofList]
  rfl

/-- An ASCII byte ends what is before it. -/
theorem lossyChars_append {a : UInt8} (ha : a < 0x80) (rest bytes : Bytes) (skip : Nat)
    (hskip : skip ≤ bytes.length) : lossyChars skip (bytes ++ a :: rest) =
      lossyChars skip bytes ++ .ofNat a.toNat :: lossyChars 0 rest := by
  induction bytes generalizing skip with
  | nil =>
    obtain rfl : skip = 0 := Nat.le_zero.mp hskip
    exact lossyChars_ascii ha rest
  | cons b bytes ih =>
    rcases skip with _ | skip
    · have hlow : ∀ range ∈ continuationRanges b, 0x80 ≤ range.1 :=
        fun range hmem => low_of_mem_continuationRanges hmem
      have hle := continuationLength_le (continuationRanges b) bytes
      rw [List.cons_append, lossyChars, lossyChars, continuationLength_append hlow ha,
        List.take_append_of_le_length hle, ih _ hle, List.append_assoc]
    · rw [List.cons_append, lossyChars, lossyChars]
      exact ih skip (Nat.le_of_succ_le_succ hskip)

/-! ## Line feeds -/

/-- Something is decoded of every byte string but the empty one. -/
theorem toStringLossy_ne_empty {bytes : Bytes} (h : bytes ≠ []) : toStringLossy bytes ≠ "" := by
  rcases bytes with _ | ⟨b, bytes⟩
  · exact absurd rfl h
  intro hempty
  have hchars : lossyChars 0 (b :: bytes) = [] := ofList_inj (hempty.trans rfl)
  rw [lossyChars] at hchars
  have hfirst := (List.append_eq_nil_iff.mp hchars).1
  rcases hs : fromUtf8 (b :: bytes.take (continuationLength (continuationRanges b) bytes)) with _ | s
  · rw [hs] at hfirst
    exact absurd hfirst (by decide)
  · rw [hs, Option.getD_some] at hfirst
    have hbytes := utf8_of_fromUtf8 hs
    rw [utf8_eq, hfirst] at hbytes
    cases hbytes

/-- A line feed is decoded from the byte alone. -/
theorem lineFeed_not_mem_of_fromUtf8 {bytes : Bytes} (hlf : (10 : UInt8) ∉ bytes) :
    '\n' ∉ ((fromUtf8 bytes).getD "\uFFFD").toList := by
  rcases h : fromUtf8 bytes with _ | s
  · decide
  · intro hmem
    have hbytes := utf8_of_fromUtf8 h
    rw [utf8_eq] at hbytes
    refine hlf (hbytes ▸ List.mem_flatMap.mpr ⟨'\n', hmem, ?_⟩)
    decide

theorem lineFeed_not_mem_lossyChars {bytes : Bytes} (hlf : (10 : UInt8) ∉ bytes) (skip : Nat) :
    '\n' ∉ lossyChars skip bytes := by
  induction bytes generalizing skip with
  | nil => simp [lossyChars]
  | cons b bytes ih =>
    rw [List.mem_cons, not_or] at hlf
    rcases skip with _ | skip
    · rw [lossyChars, List.mem_append, not_or]
      refine ⟨lineFeed_not_mem_of_fromUtf8 fun hmem => ?_, ih hlf.2 _⟩
      rcases List.mem_cons.mp hmem with heq | hmem
      · exact hlf.1 heq
      · exact hlf.2 (List.mem_of_mem_take hmem)
    · rw [lossyChars]
      exact ih hlf.2 skip

/-! ## Lines -/

/-- A carriage return at the end of a line goes with the line feed. -/
def stripReturn (line : String) : String :=
  if line.toList.getLast? = some '\r' then .ofList line.toList.dropLast else line

/-- Parts that each end with the separator, and nothing behind the last. -/
theorem splitOn_terminated {α : Type} [BEq α] [LawfulBEq α] {separator : α}
    {parts : List (List α)} (h : ∀ part ∈ parts, separator ∉ part) :
    (parts.flatMap fun part => part ++ [separator]).splitOn separator = parts ++ [[]] := by
  induction parts with
  | nil => rfl
  | cons part parts ih =>
    rw [List.flatMap_cons, List.append_assoc, List.singleton_append,
      List.splitOn_append_cons_self_of_not_mem (h part (.head _)),
      ih fun p hmem => h p (.tail _ hmem)]
    rfl

theorem linesOf_lines {lines : List (List Char)} (h : ∀ line ∈ lines, '\n' ∉ line) :
    linesOf (.ofList (lines.flatMap fun line => line ++ ['\n'])) =
      lines.map fun line => stripReturn (.ofList line) := by
  have hsplit : (splitAt '\n' (.ofList (lines.flatMap fun line => line ++ ['\n']))).reverse =
      "" :: (lines.map String.ofList).reverse := by
    rw [splitAt, String.toList_ofList, splitOn_terminated h, List.map_append, List.reverse_append]
    rfl
  rw [linesOf, hsplit]
  dsimp only
  rw [if_pos rfl, List.reverse_reverse, List.map_map]
  rfl

/-- The lines of decoded bytes are the lines decoded one by one. -/
theorem linesOf_toStringLossy {lines : List Bytes} (h : ∀ line ∈ lines, (10 : UInt8) ∉ line) :
    linesOf (toStringLossy (lines.flatMap fun line => line ++ [10])) =
      lines.map fun line => stripReturn (toStringLossy line) := by
  have hchars : lossyChars 0 (lines.flatMap fun line => line ++ [10]) =
      (lines.map (lossyChars 0)).flatMap fun line => line ++ ['\n'] := by
    induction lines with
    | nil => rfl
    | cons line lines ih =>
      rw [List.flatMap_cons, List.append_assoc, List.singleton_append,
        lossyChars_append (by decide) _ _ _ (Nat.zero_le _), ih fun l hmem => h l (.tail _ hmem),
        List.map_cons, List.flatMap_cons, List.append_assoc]
      rfl
  have hfree : ∀ line ∈ lines.map (lossyChars 0), '\n' ∉ line := by
    intro line hmem
    obtain ⟨bytes, hbytes, rfl⟩ := List.mem_map.mp hmem
    exact lineFeed_not_mem_lossyChars (h bytes hbytes) 0
  rw [toStringLossy, hchars, linesOf_lines hfree, List.map_map]
  rfl

theorem utf8EncodeChar_ascii {c : Char} (hc : c.toNat < 128) :
    String.utf8EncodeChar c = [.ofNat c.toNat] := by
  have hall : ∀ n < 128, String.utf8EncodeChar (.ofNat n) = [.ofNat n] := by decide
  have h := hall c.toNat hc
  rwa [Char.ofNat_toNat] at h

/-- Decoding keeps an ASCII text at the start. -/
theorem lossyChars_utf8_append {cs : List Char} (h : ∀ c ∈ cs, c.toNat < 128) (rest : Bytes) :
    lossyChars 0 (utf8 (.ofList cs) ++ rest) = cs ++ lossyChars 0 rest := by
  rw [utf8_ofList]
  induction cs with
  | nil => rfl
  | cons c cs ih =>
    have hc := h c (.head _)
    have hsmall : (UInt8.ofNat c.toNat).toNat = c.toNat :=
      UInt8.toNat_ofNat_of_lt' (by rw [UInt8.size]; omega)
    have hascii : UInt8.ofNat c.toNat < 0x80 := by
      rw [UInt8.lt_iff_toNat_lt, hsmall]
      exact hc
    rw [encodeChars_cons, utf8EncodeChar_ascii hc, List.append_assoc, List.singleton_append,
      lossyChars_ascii hascii, ih fun d hmem => h d (.tail _ hmem), hsmall, Char.ofNat_toNat]
    rfl

theorem lineFeed_not_mem_utf8 {cs : List Char} (h : ∀ c ∈ cs, c.toNat < 128 ∧ c ≠ '\n') :
    (10 : UInt8) ∉ utf8 (.ofList cs) := by
  rw [utf8_ofList, encodeChars, List.mem_flatMap]
  rintro ⟨c, hmem, hbyte⟩
  obtain ⟨hc, hne⟩ := h c hmem
  rw [utf8EncodeChar_ascii hc, List.mem_singleton] at hbyte
  have hten : c.toNat = 10 := by
    have hsmall : (UInt8.ofNat c.toNat).toNat = c.toNat :=
      UInt8.toNat_ofNat_of_lt' (by rw [UInt8.size]; omega)
    rw [← hsmall, ← hbyte]
    rfl
  refine hne ?_
  rw [← Char.ofNat_toNat c, hten]

end RickydataGit.Cli
