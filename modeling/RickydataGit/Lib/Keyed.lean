/-
  Stores addressed by key, on top of `Std.ExtTreeMap`.

  `Extends m m'` : everything `m` holds, `m'` holds too, with the same bytes. It is
  what a write-once store keeps, and it is a preorder (`Extends.refl`,
  `Extends.trans`) that an insertion at a free key satisfies (`extends_insert`).
  `Entries E m` : every key and its bytes satisfy `E`. `Grows E m m'` : what is new in
  `m'` satisfies `E`.

  A listing is a function of the keys. `keys_filterMap_congr`: two stores that agree
  on the keys a listing looks at give the same listing, in the same order.
-/
import Mathlib

namespace RickydataGit.Lib

open Std

variable {κ β γ : Type} [Ord κ] [TransOrd κ]

def Extends (m m' : ExtTreeMap κ β compare) : Prop :=
  ∀ (k : κ) (v : β), m[k]? = some v → m'[k]? = some v

namespace Extends

theorem refl (m : ExtTreeMap κ β compare) : Extends m m := fun _ _ h => h

theorem trans {a b c : ExtTreeMap κ β compare} (h : Extends a b) (h' : Extends b c) :
    Extends a c :=
  fun k v hk => h' k v (h k v hk)

end Extends

variable [LawfulEqOrd κ]

theorem extends_insert {m : ExtTreeMap κ β compare} {k : κ} (h : m[k]? = none) (v : β) :
    Extends m (m.insert k v) := by
  intro k' v' hk
  rw [ExtTreeMap.getElem?_insert]
  split
  · next he =>
      rw [LawfulEqOrd.eq_of_compare he, hk] at h
      cases h
  · exact hk

theorem getElem?_insert_eq [DecidableEq κ] (m : ExtTreeMap κ β compare) (k a : κ) (v : β) :
    (m.insert k v)[a]? = if k = a then some v else m[a]? := by
  simp [ExtTreeMap.getElem?_insert]

/-- Every entry of the store satisfies `E`. -/
def Entries (E : κ → β → Prop) (m : ExtTreeMap κ β compare) : Prop :=
  ∀ (k : κ) (v : β), m[k]? = some v → E k v

omit [LawfulEqOrd κ] in
theorem entries_empty (E : κ → β → Prop) : Entries E (∅ : ExtTreeMap κ β compare) := by
  intro k v h
  simp at h

theorem entries_insert {E : κ → β → Prop} {m : ExtTreeMap κ β compare} (h : Entries E m) {k : κ}
    {v : β} (hk : E k v) : Entries E (m.insert k v) := by
  intro k' v' hk'
  rw [ExtTreeMap.getElem?_insert] at hk'
  split at hk'
  · next he =>
      cases hk'
      rw [← LawfulEqOrd.eq_of_compare he]
      exact hk
  · exact h k' v' hk'

/-- Nothing changes but that some free keys are taken, by entries that satisfy `E`. -/
def Grows (E : κ → β → Prop) (m m' : ExtTreeMap κ β compare) : Prop :=
  ∀ k, m'[k]? = m[k]? ∨ m[k]? = none ∧ ∃ v, E k v ∧ m'[k]? = some v

namespace Grows

variable {E E' : κ → β → Prop} {a b c : ExtTreeMap κ β compare}

omit [LawfulEqOrd κ] in
theorem refl (E : κ → β → Prop) (m : ExtTreeMap κ β compare) : Grows E m m := fun _ => .inl rfl

omit [LawfulEqOrd κ] in
theorem trans (h : Grows E a b) (h' : Grows E b c) : Grows E a c := by
  intro k
  rcases h' k with he' | ⟨hn', v, hv, hs⟩
  · rcases h k with he | ⟨hn, hnew⟩
    · exact .inl (he'.trans he)
    · rw [he']
      exact .inr ⟨hn, hnew⟩
  · rcases h k with he | ⟨hn, w, _, hw⟩
    · exact .inr ⟨he ▸ hn', v, hv, hs⟩
    · rw [hw] at hn'
      cases hn'

omit [LawfulEqOrd κ] in
theorem mono (h : Grows E a b) (hE : ∀ k v, E k v → E' k v) : Grows E' a b := by
  intro k
  rcases h k with he | ⟨hn, v, hv, hs⟩
  · exact .inl he
  · exact .inr ⟨hn, v, hE k v hv, hs⟩

theorem insert [DecidableEq κ] {m : ExtTreeMap κ β compare} {k : κ} {v : β} (hn : m[k]? = none)
    (hv : E k v) : Grows E m (m.insert k v) := by
  intro k'
  rw [getElem?_insert_eq]
  split
  · next he => exact he ▸ .inr ⟨hn, v, hv, rfl⟩
  · exact .inl rfl

omit [LawfulEqOrd κ] in
/-- What is there stays. -/
theorem toExtends (h : Grows E a b) : Extends a b := by
  intro k v hv
  rcases h k with he | ⟨hn, _⟩
  · exact he.trans hv
  · rw [hv] at hn
    cases hn

omit [LawfulEqOrd κ] in
/-- A key that `E` does not allow is as it was. -/
theorem other (h : Grows E a b) {k : κ} (hk : ∀ v, ¬ E k v) : b[k]? = a[k]? := by
  rcases h k with he | ⟨_, v, hv, _⟩
  · exact he
  · exact absurd hv (hk v)

omit [LawfulEqOrd κ] in
/-- What is there was there, or is new. -/
theorem some_cases (h : Grows E a b) {k : κ} {v : β} (hv : b[k]? = some v) :
    a[k]? = some v ∨ a[k]? = none ∧ E k v := by
  rcases h k with he | ⟨hn, w, hw, hs⟩
  · exact .inl (he ▸ hv)
  · cases hs.symm.trans hv
    exact .inr ⟨hn, hw⟩

end Grows

/-! ## Listings -/

theorem mem_keys_iff (m : ExtTreeMap κ β compare) (k : κ) : k ∈ m.keys ↔ m[k]? ≠ none := by
  rw [ExtTreeMap.mem_keys, ← ExtTreeMap.isSome_getElem?_iff_mem, Option.isSome_iff_ne_none]

theorem keys_nodup (m : ExtTreeMap κ β compare) : m.keys.Nodup := by
  simpa [List.Nodup] using m.distinct_keys

/-- The listed keys depend on what is stored under them only. -/
theorem keys_filter_congr {m m' : ExtTreeMap κ β compare} {P : κ → Bool}
    (h : ∀ k, P k = true → m[k]? = m'[k]?) : m.keys.filter P = m'.keys.filter P := by
  refine List.Perm.eq_of_pairwise ?_ (m.ordered_keys.filter _) (m'.ordered_keys.filter _) ?_
  · intro a b _ _ hab hba
    exact absurd hba (OrientedCmp.not_lt_of_lt hab)
  · rw [List.perm_ext_iff_of_nodup ((keys_nodup m).filter _) ((keys_nodup m').filter _)]
    intro k
    rw [List.mem_filter, List.mem_filter, mem_keys_iff, mem_keys_iff]
    constructor
    · intro ⟨hk, hp⟩
      exact ⟨h k hp ▸ hk, hp⟩
    · intro ⟨hk, hp⟩
      exact ⟨(h k hp).symm ▸ hk, hp⟩

theorem keys_filterMap_congr {m m' : ExtTreeMap κ β compare} {f : κ → Option γ}
    (h : ∀ k, (f k).isSome = true → m[k]? = m'[k]?) : m.keys.filterMap f = m'.keys.filterMap f := by
  have hf : ∀ l : List κ, l.filterMap f = (l.filter fun k => (f k).isSome).filterMap f := by
    intro l
    rw [List.filterMap_filter]
    refine List.filterMap_congr fun k _ => ?_
    split
    · rfl
    · next hk => simpa using hk
  rw [hf m.keys, hf m'.keys, keys_filter_congr h]

/-- Maps with related entries under the same keys list them in one order. -/
theorem forall₂_toList {R : β → β → Prop} {m m' : ExtTreeMap κ β compare}
    (h : ∀ k : κ, Option.Rel R m[k]? m'[k]?) :
    List.Forall₂ (fun r r' => r'.1 = r.1 ∧ R r.2 r'.2) m.toList m'.toList := by
  have hunits : m'.map (fun _ _ => ()) = m.map fun _ _ => () := by
    refine ExtTreeMap.ext_getElem? fun k => ?_
    rw [ExtTreeMap.getElem?_map, ExtTreeMap.getElem?_map]
    have hk := h k
    generalize m[k]? = x at hk ⊢
    generalize m'[k]? = x' at hk ⊢
    cases hk with
    | none => rfl
    | some hr => rfl
  have hkeys : m'.toList.map Prod.fst = m.toList.map Prod.fst := by
    rw [ExtTreeMap.map_fst_toList_eq_keys, ExtTreeMap.map_fst_toList_eq_keys,
      ← ExtTreeMap.keys_map (f := fun _ _ => ()), hunits, ExtTreeMap.keys_map]
  have hlength : m.toList.length = m'.toList.length := by
    have hl := congrArg List.length hkeys
    rw [List.length_map, List.length_map] at hl
    exact hl.symm
  refine List.forall₂_iff_get.mpr ⟨hlength, fun i hi hi' => ?_⟩
  have hkey : (m'.toList.get ⟨i, hi'⟩).1 = (m.toList.get ⟨i, hi⟩).1 := by
    have hget := List.getElem_of_eq hkeys (i := i) (by rw [List.length_map]; exact hi')
    rw [List.getElem_map, List.getElem_map] at hget
    exact hget
  have hv := ExtTreeMap.mem_toList_iff_getElem?_eq_some.mp (List.get_mem m.toList ⟨i, hi⟩)
  have hv' := ExtTreeMap.mem_toList_iff_getElem?_eq_some.mp (List.get_mem m'.toList ⟨i, hi'⟩)
  have hr := h (m.toList.get ⟨i, hi⟩).1
  rw [hv, ← hkey, hv'] at hr
  cases hr with
  | some hr => exact ⟨hkey, hr⟩

end RickydataGit.Lib
