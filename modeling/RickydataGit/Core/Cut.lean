/-
  The text of an object that a write has broken off.

  Bytes of UTF-8 that are cut anywhere decode to the text up to there, or not at all:
  `fromUtf8_prefix`. `RefusesCut` is what is asked of serde_json, that it has no value for
  the beginning of the text of an object. `refusesCut_reference` is that the reader of the
  reference crates is such, by `Json.read_cut`.
-/
import RickydataGit.Core.PrintBytes
import RickydataGit.Lib.JsonOrder
import RickydataGit.Lib.JsonPrefix

namespace RickydataGit.Core

open RickydataGit.Lib

/-! ## Bytes -/

/-- Characters that start one byte string are one character. -/
theorem utf8EncodeChar_unique {c d : Char} {x y : Bytes}
    (h : String.utf8EncodeChar c ++ x = String.utf8EncodeChar d ++ y) : c = d := by
  rcases lt_trichotomy c d with hlt | heq | hgt
  · have hless := utf8EncodeChar_lt (x := x) (y := y) hlt
    rw [h] at hless
    exact absurd hless (List.lt_irrefl _)
  · exact heq
  · have hless := utf8EncodeChar_lt (x := y) (y := x) hgt
    rw [h] at hless
    exact absurd hless (List.lt_irrefl _)

theorem encodeChars_prefix {cs ds : List Char} {x : Bytes}
    (h : encodeChars cs ++ x = encodeChars ds) : cs <+: ds := by
  induction cs generalizing ds with
  | nil => exact List.nil_prefix
  | cons c cs ih =>
    rw [encodeChars_cons, List.append_assoc] at h
    cases ds with
    | nil =>
      have hnil : String.utf8EncodeChar c = [] := (List.append_eq_nil_iff.mp h).1
      exact absurd (congrArg List.length hnil) (by simp [c.utf8Size_pos.ne'])
    | cons d ds =>
      rw [encodeChars_cons] at h
      obtain rfl := utf8EncodeChar_unique h
      exact (List.prefix_cons_inj c).mpr (ih (List.append_cancel_left h))

/-- Bytes of a text that decode are those of its beginning. -/
theorem fromUtf8_prefix {b x : Bytes} {s t : String} (hb : b ++ x = utf8 s)
    (ht : fromUtf8 b = some t) : t.toList <+: s.toList := by
  rw [← utf8_of_fromUtf8 ht, utf8_eq, utf8_eq] at hb
  exact encodeChars_prefix hb

/-! ## Values -/

/-- What is asked of serde_json: it refuses a text that ends within an object. -/
structure RefusesCut (X : Crates) : Prop where
  compact : ∀ v ms, v.tree = .obj ms → ∀ k < (toVec X.floatText v).length,
    X.readJson ((toVec X.floatText v).take k) = none
  pretty : ∀ v ms, v.tree = .obj ms → ∀ k < (toVecPretty X.floatText v).length,
    X.readJson ((toVecPretty X.floatText v).take k) = none

theorem number_read_nil (F : FloatText) : (numberText F).read [] = none := by
  simp [numberText, Number.read, readDigits]

theorem readText_cut (F : FloatText) (L : Layout) {v : Value} {ms : List (String × Json Number)}
    (hv : v.tree = .obj ms) {k : Nat}
    (hk : k < (utf8 (.ofList (Json.print (numberText F) L 0 v.tree))).length) :
    readText F ((utf8 (.ofList (Json.print (numberText F) L 0 v.tree))).take k) = none := by
  have hwhole := List.take_append_drop k (utf8 (.ofList (Json.print (numberText F) L 0 v.tree)))
  unfold readText
  cases ht : fromUtf8 ((utf8 (.ofList (Json.print (numberText F) L 0 v.tree))).take k) with
  | none => rfl
  | some t =>
    obtain ⟨q, hq⟩ := fromUtf8_prefix hwhole ht
    rw [String.toList_ofList] at hq
    have hne : q ≠ [] := by
      rintro rfl
      -- the whole text was decoded, so nothing is cut
      have hb := utf8_of_fromUtf8 ht
      rw [List.append_nil] at hq
      rw [utf8_eq, hq, ← utf8_ofList] at hb
      have hlen := congrArg List.length hb
      rw [List.length_take] at hlen
      omega
    have hend : v.tree.Ended [] := by
      rw [hv]
      trivial
    simp only [Option.bind_eq_bind, Option.bind_some,
      Json.read_cut (number_read_nil F) hend hq hne, Option.bind_none]

theorem refusesCut_reference : RefusesCut .reference where
  compact _ _ hv _ hk := readText_cut .exact .compact hv hk
  pretty _ _ hv _ hk := readText_cut .exact .pretty hv hk

variable {X : Crates}

theorem canonicalObjectBytes_ne_nil (o : CanonicalObject) : canonicalObjectBytes X o ≠ [] := by
  intro h
  have hprint := Json.print_length_pos (C := numberText X.floatText) (L := .compact) 0
    (canonicalJson o.toValue).tree
  have hempty : Json.print (numberText X.floatText) .compact 0 (canonicalJson o.toValue).tree = [] :=
    ofList_inj (utf8_inj (t := .ofList []) h)
  rw [hempty] at hprint
  cases hprint

/-- An object that is not all there is no object. -/
theorem objectFromSlice_cut (hX : RefusesCut X) (o : CanonicalObject) {k : Nat}
    (hk : k < (canonicalObjectBytes X o).length) :
    ∃ e, objectFromSlice X ((canonicalObjectBytes X o).take k) = .error e := by
  unfold objectFromSlice canonicalObjectBytes canonicalBytes at *
  rw [hX.compact _ _ rfl k hk]
  exact ⟨_, rfl⟩

end RickydataGit.Core
