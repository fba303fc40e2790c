/-
  The order of keys in a JSON tree, and the order of texts by their bytes.

  `Json.Ordered lt j` : the keys of every object of `j` increase. A normal form is ordered
  (`ordered_normalize`).

  Strings are compared character by character, their UTF-8 bytes byte by byte, and this is
  one order (`utf8_lt`): where two characters differ their bytes differ in the same way, at
  the latest in the last byte that is not common to both.
-/
import RickydataGit.Lib.Json

namespace RickydataGit.Lib

/-! ## Keys -/

namespace Json

variable {N : Type}

/-- The keys of every object increase, from left to right. -/
inductive Ordered (lt : String → String → Prop) : Json N → Prop where
  | null : Ordered lt .null
  | bool (b : Bool) : Ordered lt (.bool b)
  | num (n : N) : Ordered lt (.num n)
  | str (s : String) : Ordered lt (.str s)
  | arr {xs : List (Json N)} : (∀ x ∈ xs, Ordered lt x) → Ordered lt (.arr xs)
  | obj {ms : List (String × Json N)} : ms.Pairwise (fun a b => lt a.1 b.1) →
      (∀ m ∈ ms, Ordered lt m.2) → Ordered lt (.obj ms)

theorem Ordered.mono {lt lt' : String → String → Prop} {j : Json N}
    (himp : ∀ a b, lt a b → lt' a b) (h : Ordered lt j) : Ordered lt' j := by
  induction h with
  | null => exact .null
  | bool b => exact .bool b
  | num n => exact .num n
  | str s => exact .str s
  | arr _ ih => exact .arr ih
  | obj hkeys _ ih => exact .obj (hkeys.imp fun hlt => himp _ _ hlt) ih

/-- Sorting unique keys makes them increase. -/
theorem sortKeys_increasing {α : Type} {ms : List (String × α)} (h : (ms.map Prod.fst).Nodup) :
    (sortKeys ms).Pairwise fun a b => a.1 < b.1 := by
  have hnodup := ((sortKeys_perm ms).map Prod.fst).nodup_iff.mpr h
  exact (sortKeys_pairwise ms).imp₂ (fun a b hle hne => lt_of_le_of_ne hle hne)
    (List.pairwise_map.mp hnodup)

theorem ordered_normalize {f : N → N} {j : Json N} (h : uniqueKeys j = true) :
    Ordered (· < ·) (normalize f j) := by
  induction j with
  | null => exact .null
  | bool b => exact .bool b
  | num n => exact .num (f n)
  | str s => exact .str s
  | arr xs ih =>
    rw [uniqueKeys_arr] at h
    rw [normalize_arr]
    refine .arr fun y hy => ?_
    obtain ⟨x, hx, rfl⟩ := List.mem_map.mp hy
    exact ih x hx (h x hx)
  | obj ms ih =>
    rw [uniqueKeys_obj] at h
    rw [normalize_obj]
    refine .obj (sortKeys_increasing (by rw [keys_normalizeMembers]; exact h.1)) fun m hm => ?_
    obtain ⟨n, hn, rfl⟩ := List.mem_map.mp (mem_sortKeys.mp hm)
    exact ih n hn (h.2 n hn)

end Json

/-! ## Bytes -/

section Bytes

variable {x y : List UInt8}

/-- One byte of a comparison: it decides, or the next ones do. -/
theorem cons_lt_cons_of {a b : Nat} (hb : b < 256) (hle : a ≤ b) (h : a = b → x < y) :
    UInt8.ofNat a :: x < UInt8.ofNat b :: y := by
  rw [List.cons_lt_cons_iff]
  rcases Nat.lt_or_eq_of_le hle with hlt | rfl
  · refine .inl ?_
    rw [UInt8.lt_iff_toNat_lt, UInt8.toNat_ofNat', UInt8.toNat_ofNat']
    omega
  · exact .inr ⟨rfl, h rfl⟩

/-- The bytes of a character, by their number. -/
theorem utf8EncodeChar_cases (c : Char) :
    (c.val.toNat < 0x80 ∧ String.utf8EncodeChar c = [.ofNat c.val.toNat]) ∨
    ((0x80 ≤ c.val.toNat ∧ c.val.toNat < 0x800) ∧ String.utf8EncodeChar c =
      [.ofNat (c.val.toNat / 64 % 0x20 + 0xc0), .ofNat (c.val.toNat % 0x40 + 0x80)]) ∨
    ((0x800 ≤ c.val.toNat ∧ c.val.toNat < 0x10000) ∧ String.utf8EncodeChar c =
      [.ofNat (c.val.toNat / 4096 % 0x10 + 0xe0), .ofNat (c.val.toNat / 64 % 0x40 + 0x80),
        .ofNat (c.val.toNat % 0x40 + 0x80)]) ∨
    ((0x10000 ≤ c.val.toNat ∧ c.val.toNat < 0x110000) ∧ String.utf8EncodeChar c =
      [.ofNat (c.val.toNat / 262144 % 0x08 + 0xf0), .ofNat (c.val.toNat / 4096 % 0x40 + 0x80),
        .ofNat (c.val.toNat / 64 % 0x40 + 0x80), .ofNat (c.val.toNat % 0x40 + 0x80)]) := by
  have hmax : c.val.toNat < 0x110000 := by
    rcases c.valid with hsmall | ⟨-, hlarge⟩
    · exact lt_trans hsmall (by decide)
    · exact hlarge
  unfold String.utf8EncodeChar
  dsimp only
  split
  · exact .inl ⟨by omega, rfl⟩
  · split
    · exact .inr (.inl ⟨⟨by omega, by omega⟩, rfl⟩)
    · split
      · exact .inr (.inr (.inl ⟨⟨by omega, by omega⟩, rfl⟩))
      · exact .inr (.inr (.inr ⟨⟨by omega, by omega⟩, rfl⟩))

/-- The bytes of a smaller character come first, whatever follows. -/
theorem utf8EncodeChar_lt {c d : Char} (h : c < d) :
    String.utf8EncodeChar c ++ x < String.utf8EncodeChar d ++ y := by
  have hlt : c.val.toNat < d.val.toNat := h
  rcases utf8EncodeChar_cases c with ⟨hc, ec⟩ | ⟨hc, ec⟩ | ⟨hc, ec⟩ | ⟨hc, ec⟩ <;>
    rcases utf8EncodeChar_cases d with ⟨hd, ed⟩ | ⟨hd, ed⟩ | ⟨hd, ed⟩ | ⟨hd, ed⟩ <;>
    rw [ec, ed]
  -- characters of one length first
  case inl.inl => exact cons_lt_cons_of (by omega) (by omega) fun _ => by omega
  case inr.inl.inr.inl =>
    exact cons_lt_cons_of (by omega) (by omega) fun _ =>
      cons_lt_cons_of (by omega) (by omega) fun _ => by omega
  case inr.inr.inl.inr.inr.inl =>
    exact cons_lt_cons_of (by omega) (by omega) fun _ =>
      cons_lt_cons_of (by omega) (by omega) fun _ =>
        cons_lt_cons_of (by omega) (by omega) fun _ => by omega
  case inr.inr.inr.inr.inr.inr =>
    exact cons_lt_cons_of (by omega) (by omega) fun _ =>
      cons_lt_cons_of (by omega) (by omega) fun _ =>
        cons_lt_cons_of (by omega) (by omega) fun _ =>
          cons_lt_cons_of (by omega) (by omega) fun _ => by omega
  -- otherwise the leading bytes differ, or the longer one is not the greater one
  all_goals exact cons_lt_cons_of (by omega) (by omega) fun _ => by omega

theorem flatMap_utf8EncodeChar_lt {cs ds : List Char} (h : cs < ds) :
    cs.flatMap String.utf8EncodeChar < ds.flatMap String.utf8EncodeChar := by
  induction cs generalizing ds with
  | nil =>
    rcases ds with _ | ⟨d, ds⟩
    · exact absurd h (List.not_lt_nil _)
    · rw [List.flatMap_nil, List.flatMap_cons]
      rcases utf8EncodeChar_cases d with ⟨-, ed⟩ | ⟨-, ed⟩ | ⟨-, ed⟩ | ⟨-, ed⟩
      all_goals
        rw [ed]
        exact List.nil_lt_cons _ _
  | cons c cs ih =>
    rcases ds with _ | ⟨d, ds⟩
    · exact absurd h (List.not_lt_nil _)
    · rw [List.flatMap_cons, List.flatMap_cons]
      rcases List.cons_lt_cons_iff.mp h with hlt | ⟨rfl, hlt⟩
      · exact utf8EncodeChar_lt hlt
      · exact List.append_left_lt (ih hlt)

end Bytes

end RickydataGit.Lib
