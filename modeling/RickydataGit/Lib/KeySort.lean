/-
  Lists sorted by a key, one element for each key.

  `sortByKey` sorts stably and drops what has the key of the element before it. The keys are
  then strictly increasing. Where elements with one key are equal, nothing else is dropped
  (`mem_sortByKey`), so the result depends on the members alone (`sortByKey_congr`).
-/
import Mathlib

namespace RickydataGit.Lib

variable {α κ : Type} [LinearOrder κ] {key : α → κ} {l l' : List α}

def sortByKey (key : α → κ) (l : List α) : List α :=
  (l.mergeSort fun a b => decide (key a ≤ key b)).destutter fun a b => key a ≠ key b

/-- Elements with one key are one element. -/
def KeyInjOn (key : α → κ) (l : List α) : Prop :=
  ∀ a ∈ l, ∀ b ∈ l, key a = key b → a = b

omit [LinearOrder κ] in
theorem KeyInjOn.subset (h : KeyInjOn key l) (hsub : ∀ a ∈ l', a ∈ l) : KeyInjOn key l' :=
  fun a ha b hb => h a (hsub a ha) b (hsub b hb)

theorem pairwise_mergeSort_key (key : α → κ) (l : List α) :
    (l.mergeSort fun a b => decide (key a ≤ key b)).Pairwise fun a b => key a ≤ key b := by
  have hsorted := @List.pairwise_mergeSort _ (fun a b : α => decide (key a ≤ key b))
    (fun a b c hab hbc => decide_eq_true (le_trans (of_decide_eq_true hab) (of_decide_eq_true hbc)))
    (fun a b => by simpa using le_total (key a) (key b)) l
  exact hsorted.imp of_decide_eq_true

/-- The keys, sorted without repetitions. -/
theorem map_sortByKey (key : α → κ) (l : List α) : (sortByKey key l).map key =
    ((l.mergeSort fun a b => decide (key a ≤ key b)).map key).dedup := by
  have hmap : (sortByKey key l).map key =
      ((l.mergeSort fun a b => decide (key a ≤ key b)).map key).destutter (· ≠ ·) :=
    List.map_destutter fun a _ b _ => Iff.rfl
  have hsorted : ((l.mergeSort fun a b => decide (key a ≤ key b)).map key).Pairwise (· ≤ ·) :=
    List.pairwise_map.mpr (pairwise_mergeSort_key key l)
  exact hmap.trans hsorted.destutter_eq_dedup

theorem pairwise_sortByKey (key : α → κ) (l : List α) :
    (sortByKey key l).Pairwise fun a b => key a < key b := by
  rw [← List.pairwise_map (f := key) (R := (· < ·)), map_sortByKey]
  have hsorted : ((l.mergeSort fun a b => decide (key a ≤ key b)).map key).Pairwise (· ≤ ·) :=
    List.pairwise_map.mpr (pairwise_mergeSort_key key l)
  exact (hsorted.sublist (List.dedup_sublist _)).imp₂ (fun a b hle hne => lt_of_le_of_ne hle hne)
    (List.nodup_dedup _)

theorem mem_of_mem_sortByKey {a : α} (h : a ∈ sortByKey key l) : a ∈ l :=
  List.mem_mergeSort.mp ((List.destutter_sublist _ _).mem h)

theorem mem_sortByKey (hinj : KeyInjOn key l) {a : α} : a ∈ sortByKey key l ↔ a ∈ l := by
  refine ⟨mem_of_mem_sortByKey, fun h => ?_⟩
  have hkey : key a ∈ (sortByKey key l).map key := by
    rw [map_sortByKey, List.mem_dedup]
    exact List.mem_map_of_mem (List.mem_mergeSort.mpr h)
  obtain ⟨b, hb, hab⟩ := List.mem_map.mp hkey
  rwa [hinj a h b (mem_of_mem_sortByKey hb) hab.symm]

/-- Strictly increasing lists with the same members are equal. -/
theorem eq_of_pairwise_key (h : l.Pairwise fun a b => key a < key b)
    (h' : l'.Pairwise fun a b => key a < key b) (hmem : ∀ a, a ∈ l ↔ a ∈ l') : l = l' := by
  have hnodup : ∀ {m : List α}, (m.Pairwise fun a b => key a < key b) → m.Nodup :=
    fun hm => hm.imp fun {a b} hlt heq => absurd (congrArg key heq) (ne_of_lt hlt)
  have hperm : l.Perm l' := (List.perm_ext_iff_of_nodup (hnodup h) (hnodup h')).mpr hmem
  refine hperm.eq_of_pairwise (fun a b _ _ hab hba => ?_) h h'
  exact absurd hba (lt_asymm hab)

/-- Where keys are unique, the order before sorting does not matter. -/
theorem mergeSort_key_congr (hnodup : (l.map key).Nodup) (hperm : l.Perm l') :
    (l.mergeSort fun a b => decide (key a ≤ key b)) =
      l'.mergeSort fun a b => decide (key a ≤ key b) := by
  have hstrict : ∀ {m : List α}, (m.map key).Nodup →
      (m.mergeSort fun a b => decide (key a ≤ key b)).Pairwise fun a b => key a < key b := by
    intro m hm
    have hsorted := (List.mergeSort_perm m fun a b => decide (key a ≤ key b)).map key
    have hne := List.pairwise_map.mp (hsorted.nodup_iff.mpr hm)
    exact (pairwise_mergeSort_key key m).imp₂ (fun a b hle hlt => lt_of_le_of_ne hle hlt) hne
  refine eq_of_pairwise_key (hstrict hnodup) (hstrict ((hperm.map key).nodup_iff.mp hnodup))
    fun a => ?_
  rw [List.mem_mergeSort, List.mem_mergeSort, hperm.mem_iff]

/-- The members determine the result. -/
theorem sortByKey_congr (hinj : KeyInjOn key l) (hmem : ∀ a, a ∈ l ↔ a ∈ l') :
    sortByKey key l = sortByKey key l' := by
  have hinj' : KeyInjOn key l' := hinj.subset fun a ha => (hmem a).mpr ha
  refine eq_of_pairwise_key (pairwise_sortByKey key l) (pairwise_sortByKey key l') fun a => ?_
  rw [mem_sortByKey hinj, mem_sortByKey hinj', hmem]

end RickydataGit.Lib
