/-
  Graphs that are collected in pieces.

  A `Net` is a list of nodes and a list of edges, as a program pushes them. It is `Within` a
  set of ids when its edges join ids of the set (`within_append`, `within_flatMap`), and it is
  closed when it is within the ids of its own nodes.

  `firstByKey` keeps the first element of each key and sorts by the key. Keys are strictly
  increasing afterwards and no key is lost, so a closed net stays closed (`Net.Closed.tidy`).
-/
import RickydataGit.Lib.KeySort

namespace RickydataGit.Lib

/-! ## The first of each key -/

section Keys

variable {α κ : Type} [LinearOrder κ] {key : α → κ} {seen : List κ} {l : List α}

/-- The elements whose keys are new, from left to right. -/
def keepFirst (key : α → κ) (seen : List κ) : List α → List α
  | [] => []
  | a :: l => if key a ∈ seen then keepFirst key seen l else a :: keepFirst key (key a :: seen) l

theorem keepFirst_sublist : (keepFirst key seen l).Sublist l := by
  induction l generalizing seen with
  | nil => exact .slnil
  | cons a l ih =>
    rw [keepFirst]
    split
    · exact ih.cons _
    · exact ih.cons_cons _

theorem mem_keys_keepFirst {k : κ} :
    k ∈ (keepFirst key seen l).map key ↔ k ∈ l.map key ∧ k ∉ seen := by
  induction l generalizing seen with
  | nil => simp [keepFirst]
  | cons a l ih =>
    rw [keepFirst]
    split
    · next ha =>
        rw [ih, List.map_cons, List.mem_cons]
        refine ⟨fun h => ⟨.inr h.1, h.2⟩, fun ⟨hk, hseen⟩ => ⟨hk.resolve_left ?_, hseen⟩⟩
        rintro rfl
        exact hseen ha
    · next ha =>
        rw [List.map_cons, List.map_cons, List.mem_cons, List.mem_cons, ih, List.mem_cons]
        by_cases hk : k = key a
        · subst hk
          simp [ha]
        · simp [hk]

theorem nodup_keys_keepFirst : ((keepFirst key seen l).map key).Nodup := by
  induction l generalizing seen with
  | nil => exact List.nodup_nil
  | cons a l ih =>
    rw [keepFirst]
    split
    · exact ih
    · rw [List.map_cons]
      refine List.nodup_cons.mpr ⟨fun h => ?_, ih⟩
      exact (mem_keys_keepFirst.mp h).2 List.mem_cons_self

/-- `retain` on new keys, then a stable sort by the key. -/
def firstByKey (key : α → κ) (l : List α) : List α :=
  (keepFirst key [] l).mergeSort fun a b => decide (key a ≤ key b)

theorem mem_of_mem_firstByKey {a : α} (h : a ∈ firstByKey key l) : a ∈ l :=
  keepFirst_sublist.mem (List.mem_mergeSort.mp h)

/-- No key is lost. -/
theorem mem_keys_firstByKey {k : κ} : k ∈ (firstByKey key l).map key ↔ k ∈ l.map key := by
  have hperm := (List.mergeSort_perm (keepFirst key [] l)
    fun a b => decide (key a ≤ key b)).map key
  rw [firstByKey, hperm.mem_iff, mem_keys_keepFirst]
  simp

theorem pairwise_firstByKey : (firstByKey key l).Pairwise fun a b => key a < key b := by
  have hperm := (List.mergeSort_perm (keepFirst key [] l)
    fun a b => decide (key a ≤ key b)).map key
  have hnodup := List.pairwise_map.mp (hperm.nodup_iff.mpr nodup_keys_keepFirst)
  exact (pairwise_mergeSort_key key _).imp₂ (fun a b hle hne => lt_of_le_of_ne hle hne) hnodup

theorem firstByKey_singleton (a : α) : firstByKey key [a] = [a] := by
  rw [firstByKey, keepFirst, if_neg List.not_mem_nil, keepFirst, List.mergeSort_singleton]

theorem firstByKey_pair {a b : α} (h : key b < key a) : firstByKey key [a, b] = [b, a] := by
  have hne : key b ∉ [key a] := fun hm => absurd (List.mem_singleton.mp hm) (ne_of_lt h)
  rw [firstByKey, keepFirst, if_neg List.not_mem_nil, keepFirst, if_neg hne, keepFirst,
    List.mergeSort]
  simp [List.MergeSort.Internal.splitInTwo, not_le.mpr h]

end Keys

/-! ## Nets -/

structure Net (ν ε : Type) where
  nodes : List ν
  edges : List ε

namespace Net

variable {ν ε α : Type}

def empty : Net ν ε := ⟨[], []⟩

def append (n m : Net ν ε) : Net ν ε := ⟨n.nodes ++ m.nodes, n.edges ++ m.edges⟩

instance : Append (Net ν ε) := ⟨append⟩

/-- The pieces of a loop. -/
def flatMap (l : List α) (f : α → Net ν ε) : Net ν ε :=
  ⟨l.flatMap fun a => (f a).nodes, l.flatMap fun a => (f a).edges⟩

@[simp] theorem nodes_append (n m : Net ν ε) : (n ++ m).nodes = n.nodes ++ m.nodes := rfl

@[simp] theorem edges_append (n m : Net ν ε) : (n ++ m).edges = n.edges ++ m.edges := rfl

@[simp] theorem nodes_flatMap (l : List α) (f : α → Net ν ε) :
    (flatMap l f).nodes = l.flatMap fun a => (f a).nodes := rfl

@[simp] theorem edges_flatMap (l : List α) (f : α → Net ν ε) :
    (flatMap l f).edges = l.flatMap fun a => (f a).edges := rfl

section Within

variable {ι : Type} (source target : ε → ι) {S S' : ι → Prop} {n m : Net ν ε}

/-- All edges join members of the set. -/
def Within (S : ι → Prop) (n : Net ν ε) : Prop :=
  ∀ e ∈ n.edges, S (source e) ∧ S (target e)

variable {source target}

theorem within_append (hn : n.Within source target S) (hm : m.Within source target S) :
    (n ++ m).Within source target S := by
  intro e he
  rw [edges_append, List.mem_append] at he
  exact he.elim (hn e) (hm e)

theorem within_flatMap {l : List α} {f : α → Net ν ε}
    (h : ∀ a ∈ l, (f a).Within source target S) : (flatMap l f).Within source target S := by
  intro e he
  obtain ⟨a, ha, he⟩ := List.mem_flatMap.mp he
  exact h a ha e he

theorem within_singleton {nodes : List ν} {e : ε} (hs : S (source e)) (ht : S (target e)) :
    (⟨nodes, [e]⟩ : Net ν ε).Within source target S := by
  intro e' he
  obtain rfl := List.mem_singleton.mp he
  exact ⟨hs, ht⟩

variable (source target)

/-- All edges join nodes. -/
def Closed (id : ν → ι) (n : Net ν ε) : Prop :=
  n.Within source target fun i => i ∈ n.nodes.map id

variable {source target}

/-- Dropping what repeats an id, of nodes and of edges, drops no end of an edge. -/
theorem Closed.tidy {κ : Type} [LinearOrder ι] [LinearOrder κ] {id : ν → ι} {edgeId : ε → κ}
    (h : n.Closed source target id) :
    Closed source target id ⟨firstByKey id n.nodes, firstByKey edgeId n.edges⟩ := by
  intro e he
  obtain ⟨hs, ht⟩ := h e (mem_of_mem_firstByKey he)
  exact ⟨mem_keys_firstByKey.mpr hs, mem_keys_firstByKey.mpr ht⟩

end Within

end Net

end RickydataGit.Lib
