/-
  Two finite maps side by side.

  The keys of one are those it shares with the other and those only it has, and the
  shared keys are as many from either side.
-/
import RickydataGit.Lib.Keyed

namespace RickydataGit.Lib

open Std

variable {κ β : Type} [Ord κ] [TransOrd κ]

/-- The keys of the first map that the second one has too. -/
def sharedKeys (m m' : ExtTreeMap κ β compare) : List κ := m.keys.filter fun k => m'.contains k

/-- The keys of the first map that the second one lacks. -/
def onlyKeys (m m' : ExtTreeMap κ β compare) : List κ := m.keys.filter fun k => !m'.contains k

section Keys

variable {m m' : ExtTreeMap κ β compare}

/-- A key is shared or not. -/
theorem length_shared_add_only (m m' : ExtTreeMap κ β compare) :
    (sharedKeys m m').length + (onlyKeys m m').length = m.size := by
  rw [← ExtTreeMap.length_keys, sharedKeys, onlyKeys]
  have h := List.length_eq_length_filter_add (l := m.keys) fun k => m'.contains k
  omega

theorem ordered_onlyKeys : (onlyKeys m m').Pairwise fun a b => compare a b = .lt :=
  ExtTreeMap.ordered_keys.filter _

theorem contains_iff_isSome {k : κ} : m.contains k = true ↔ (m[k]?).isSome = true := by
  rw [ExtTreeMap.isSome_getElem?_eq_contains]

variable [LawfulEqOrd κ]

theorem mem_onlyKeys {k : κ} : k ∈ onlyKeys m m' ↔ (m[k]?).isSome = true ∧ m'[k]? = none := by
  rw [onlyKeys, List.mem_filter, ExtTreeMap.mem_keys, ← ExtTreeMap.contains_iff_mem,
    contains_iff_isSome, Bool.not_eq_true', ← Bool.not_eq_true, contains_iff_isSome,
    Option.not_isSome_iff_eq_none]

theorem mem_sharedKeys {k : κ} :
    k ∈ sharedKeys m m' ↔ (m[k]?).isSome = true ∧ (m'[k]?).isSome = true := by
  rw [sharedKeys, List.mem_filter, ExtTreeMap.mem_keys, ← ExtTreeMap.contains_iff_mem,
    contains_iff_isSome, contains_iff_isSome]

theorem length_sharedKeys_comm (m m' : ExtTreeMap κ β compare) :
    (sharedKeys m m').length = (sharedKeys m' m).length := by
  have hn : (sharedKeys m m').Nodup := ExtTreeMap.nodup_keys.filter _
  have hn' : (sharedKeys m' m).Nodup := ExtTreeMap.nodup_keys.filter _
  refine ((List.perm_ext_iff_of_nodup hn hn').mpr fun k => ?_).length_eq
  rw [mem_sharedKeys, mem_sharedKeys, and_comm]

end Keys

end RickydataGit.Lib
