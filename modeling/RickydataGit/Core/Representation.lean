/-
  What canonicalisation identifies.

  `SameJson` is equality of JSON values: the same constructors, strings, booleans
  and key sets, numerically equal numbers, members in any order. The canonical form
  is meant to be a faithful name of such a value. It is one, up to the two pairs of
  numbers at the edge of the `i64` range:

  * `identified_iff_same`: values with one canonical form (or one hash, one object
    id, one signature) are the same JSON value, unless all that keeps them apart is
    the double `2 ^ 63` on one side and the integer `2 ^ 63 - 1` on the other;
  * `same_identified_iff`: the same JSON value has one canonical form, unless some
    number from `2 ^ 63` on is held as `u64` on one side and as a double on the
    other.
-/
import RickydataGit.Core.Signing

namespace RickydataGit.Core

open RickydataGit.Lib

/-! ## The same JSON value -/

/-- One JSON value: order of members and representation of numbers aside. -/
def SameJson (a b : Value) : Prop := Json.Rel (fun x y => x.value = y.value) a.tree b.tree

/-- Equal numbers, and not a `u64` beyond the `i64` range beside a double. -/
def Agree (x y : Number) : Prop := x.value = y.value ∧ ¬ Split x y

/-- The canonical form, as a relation of the values it is taken of. -/
theorem canonicalJson_eq_iff_rel (a b : Value) :
    canonicalJson a = canonicalJson b ↔
      Json.Rel (fun x y => Agree x y ∨ Saturates x y) a.tree b.tree := by
  rw [canonicalJson_eq_iff]
  constructor
  · exact fun h => h.mono fun x y => (canonicalNumber_eq_iff x y).mp
  · exact fun h => h.mono fun x y => (canonicalNumber_eq_iff x y).mpr

/-- The values differ, in that some positions hold the double `2 ^ 63` beside the
    integer `2 ^ 63 - 1`, and in nothing else. -/
def DifferBySaturation (a b : Value) : Prop :=
  Json.Somewhere Saturates a.tree b.tree ∧
    Json.Rel (fun x y => Agree x y ∨ Saturates x y) a.tree b.tree

/-- Some number is held as a `u64` beyond the `i64` range and as a double. -/
def HoldSplit (a b : Value) : Prop := Json.Somewhere Split a.tree b.tree

theorem DifferBySaturation.not_same {a b : Value} (h : DifferBySaturation a b) :
    ¬ SameJson a b :=
  h.1.not_rel fun _ _ => Saturates.ne

theorem DifferBySaturation.canonicalJson_eq {a b : Value} (h : DifferBySaturation a b) :
    canonicalJson a = canonicalJson b :=
  (canonicalJson_eq_iff_rel a b).mpr h.2

theorem same_of_canonicalJson_eq {a b : Value} (hn : ¬ DifferBySaturation a b)
    (h : canonicalJson a = canonicalJson b) : SameJson a b := by
  have hr := (canonicalJson_eq_iff_rel a b).mp h
  have hs : ¬ Json.Somewhere Saturates a.tree b.tree := fun hs => hn ⟨hs, hr⟩
  exact (Json.rel_of_not_somewhere hr hs).mono fun _ _ => And.left

theorem canonicalJson_eq_of_same {a b : Value} (h : SameJson a b) (hn : ¬ HoldSplit a b) :
    canonicalJson a = canonicalJson b := by
  rw [canonicalJson_eq_iff_rel]
  have hr : Json.Rel (fun x y => Agree x y ∨ Split x y) a.tree b.tree := by
    refine h.mono fun x y hxy => ?_
    by_cases hs : Split x y
    · exact .inr hs
    · exact .inl ⟨hxy, hs⟩
  exact (Json.rel_of_not_somewhere hr hn).mono fun _ _ => Or.inl

theorem HoldSplit.canonicalJson_ne {a b : Value} (h : HoldSplit a b) :
    canonicalJson a ≠ canonicalJson b := by
  intro he
  refine h.not_rel (T := fun x y => Agree x y ∨ Saturates x y) ?_
    ((canonicalJson_eq_iff_rel a b).mp he)
  rintro x y hs (ha | ht)
  · exact ha.2 hs
  · exact hs.not_saturates ht

/-! ## One value, written in two ways -/

/-- The double `1.0`. -/
def oneAsF64 : F64 := ⟨false, ⟨1023, by decide⟩, ⟨0, by decide⟩⟩

/-- `{"n": 1, "ok": null}`. -/
def oneAsInteger : Value := .obj [("n", .ofU64 1), ("ok", .null)] (by simp)

/-- `{"ok": null, "n": 1.0}`. -/
def oneAsDouble : Value := .obj [("ok", .null), ("n", .num (.float oneAsF64))] (by simp)

theorem mem_oneAsInteger {k : String} {v w : Json Number}
    (hv : (k, v) ∈ [("n", Json.num (.posInt 1)), ("ok", .null)])
    (hw : (k, w) ∈ [("ok", Json.null), ("n", .num (.float oneAsF64))]) :
    (v = .num (.posInt 1) ∧ w = .num (.float oneAsF64)) ∨ (v = .null ∧ w = .null) := by
  simp only [List.mem_cons, Prod.mk.injEq, List.not_mem_nil, or_false] at hv hw
  rcases hv with ⟨rfl, rfl⟩ | ⟨rfl, rfl⟩ <;> rcases hw with ⟨hk, rfl⟩ | ⟨hk, rfl⟩
  · exact absurd hk (by decide)
  · exact .inl ⟨rfl, rfl⟩
  · exact .inr ⟨rfl, rfl⟩
  · exact absurd hk (by decide)

theorem oneAsInteger_same : SameJson oneAsInteger oneAsDouble := by
  have hone : f64Value oneAsF64 = ((1 : Int) : ℚ) :=
    f64Value_eq_iff.mpr (isIntegral_of_units (by decide +kernel))
  refine .obj (by simp [or_comm]) fun k v w hv hw => ?_
  rcases mem_oneAsInteger hv hw with ⟨rfl, rfl⟩ | ⟨rfl, rfl⟩
  · exact .num (by simp [Number.value, hone])
  · exact .null

theorem oneAsInteger_not_holdSplit : ¬ HoldSplit oneAsInteger oneAsDouble := by
  intro hs
  cases hs with
  | obj k hv hw hs =>
    rcases mem_oneAsInteger hv hw with ⟨rfl, rfl⟩ | ⟨rfl, rfl⟩
    · cases hs with
      | num hs => exact absurd hs (by simp [Split])
    · cases hs

/-! ## Information kept -/

/-- Two bodies that share a canonical form, an object id, a body hash or a valid
    signature are the same JSON value, except for the saturated pair. -/
theorem identified_iff_same (X : Crates) (k₁ v₁ k₂ v₂ : String) (a b : Value)
    (s : ActorSignature)
    (hbody : NoCollision X (canonicalBytes X a) (canonicalBytes X b))
    (hobject : NoCollision X (signingMessage X k₁ v₁ a) (signingMessage X k₂ v₂ b))
    (hkey : Binds X s (signingMessage X k₁ v₁ a) (signingMessage X k₂ v₂ b)) :
    ((canonicalJson a = canonicalJson b → SameJson a b) ∧
      (canonicalObjectId X k₁ v₁ a = canonicalObjectId X k₂ v₂ b → SameJson a b) ∧
      (stableJsonHash X a = stableJsonHash X b → SameJson a b) ∧
      (verifySignature X k₁ v₁ a s = .ok true → verifySignature X k₂ v₂ b s = .ok true →
        SameJson a b)) ↔
      ¬ DifferBySaturation a b := by
  constructor
  · rintro ⟨h, _⟩ hd
    exact hd.not_same (h hd.canonicalJson_eq)
  · intro hd
    have hsame := same_of_canonicalJson_eq hd
    refine ⟨hsame, ?_, ?_, ?_⟩
    · intro h
      rw [canonicalObjectId_eq, canonicalObjectId_eq] at h
      exact hsame (signingMessage_eq_iff.mp (hashText_inj hobject h)).2.2
    · intro h
      exact hsame (canonicalBytes_eq_iff.mp (hashText_inj hbody h))
    · intro h₁ h₂
      exact hsame (signingMessage_eq_iff.mp (hkey h₁ h₂)).2.2

/-- Two texts of one value are identified, and are the same JSON value. -/
theorem one_identified_same :
    SameJson oneAsInteger oneAsDouble ∧ ¬ DifferBySaturation oneAsInteger oneAsDouble := by
  have he := canonicalJson_eq_of_same oneAsInteger_same oneAsInteger_not_holdSplit
  have hm : signingMessage .reference "agent.intent" defaultSchemaVersion oneAsInteger =
      signingMessage .reference "agent.intent" defaultSchemaVersion oneAsDouble :=
    signingMessage_eq_iff.mpr ⟨rfl, rfl, he⟩
  refine ⟨oneAsInteger_same, (identified_iff_same .reference "agent.intent" defaultSchemaVersion
    "agent.intent" defaultSchemaVersion oneAsInteger oneAsDouble
    ⟨signatureAlgorithmEd25519, "", "", none, none⟩ (fun _ => canonicalBytes_eq_iff.mpr he)
    (fun _ => hm) (fun _ _ => hm)).mp ?_⟩
  exact ⟨fun _ => oneAsInteger_same, fun _ => oneAsInteger_same, fun _ => oneAsInteger_same,
    fun _ _ => oneAsInteger_same⟩

/-- `9223372036854775808.0` and `9223372036854775807`. -/
theorem saturated_pair_identified :
    let a := Value.num (.float i64MaxAsF64)
    let b := Value.num (.posInt 9223372036854775807)
    canonicalJson a = canonicalJson b ∧ stableJsonHash .reference a = stableJsonHash .reference b ∧
      ¬ SameJson a b := by
  have hd : DifferBySaturation (.num (.float i64MaxAsF64)) (.num (.posInt 9223372036854775807)) := by
    have hs : Saturates (.float i64MaxAsF64) (.posInt 9223372036854775807) :=
      ⟨by decide, by
        have h : i64MaxAsF64.units = (2 ^ 63 : Int) * oneUnits := units_i64MaxAsF64
        have hv := f64Value_eq_iff.mpr (isIntegral_of_units h)
        rw [hv]
        norm_num⟩
    exact ⟨.num hs, .num (.inr hs)⟩
  have he := hd.canonicalJson_eq
  exact ⟨he, by rw [stableJsonHash, stableJsonHash, canonicalBytes_eq_iff.mpr he], hd.not_same⟩

/-! ## Representations identified -/

/-- The same JSON value has one canonical form, one hash and one object id, except
    for numbers held in two ways beyond the `i64` range. -/
theorem same_identified_iff (X : Crates) (kind schemaVersion : String) (a b : Value)
    (h : SameJson a b) :
    (canonicalJson a = canonicalJson b ∧ stableJsonHash X a = stableJsonHash X b ∧
      canonicalObjectId X kind schemaVersion a = canonicalObjectId X kind schemaVersion b) ↔
      ¬ HoldSplit a b := by
  constructor
  · rintro ⟨he, _⟩ hs
    exact hs.canonicalJson_ne he
  · intro hs
    have he := canonicalJson_eq_of_same h hs
    refine ⟨he, ?_, ?_⟩
    · rw [stableJsonHash, stableJsonHash, canonicalBytes_eq_iff.mpr he]
    · rw [canonicalObjectId_eq, canonicalObjectId_eq, signingMessage_eq_iff.mpr ⟨rfl, rfl, he⟩]

/-- `{"n": 1, "ok": null}` and `{"ok": null, "n": 1.0}`. -/
theorem one_identified :
    canonicalObjectId .reference "agent.intent" defaultSchemaVersion oneAsInteger =
      canonicalObjectId .reference "agent.intent" defaultSchemaVersion oneAsDouble :=
  ((same_identified_iff .reference "agent.intent" defaultSchemaVersion oneAsInteger oneAsDouble
    oneAsInteger_same).mpr oneAsInteger_not_holdSplit).2.2

/-- `9223372036854775808`, read as a `u64` by one adapter and as a double by another. -/
theorem split_pair_not_identified :
    let a := Value.num (.posInt 9223372036854775808)
    let b := Value.num (.float i64MaxAsF64)
    SameJson a b ∧ canonicalJson a ≠ canonicalJson b ∧
      stableJsonHash .reference a ≠ stableJsonHash .reference b ∧
      canonicalObjectId .reference "agent.intent" defaultSchemaVersion a ≠
        canonicalObjectId .reference "agent.intent" defaultSchemaVersion b := by
  intro a b
  have hv : f64Value i64MaxAsF64 = ((2 ^ 63 : Int) : ℚ) :=
    f64Value_eq_iff.mpr (isIntegral_of_units units_i64MaxAsF64)
  have hn : (9223372036854775808 : UInt64).toNat = 2 ^ 63 := by decide
  refine ⟨.num ?_, ?_, by decide +kernel, by decide +kernel⟩
  · rw [Number.value, Number.value, hv, hn]
    norm_num
  · exact HoldSplit.canonicalJson_ne (.num (Nat.le_of_eq hn.symm))

end RickydataGit.Core
