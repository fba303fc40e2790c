/-
  JSON trees over an arbitrary number type `N`, and their normal form: members
  sorted by key at every depth, numbers mapped by a function `f`.

  `Rel R a b` is equality of trees up to member order and up to `R` on numbers.
  `normalize_eq_iff`: two trees with unique keys have equal normal forms exactly
  when they are `Rel`-related by "`f` sends the two numbers to one".
  `Somewhere S a b` says that one position of the two trees holds `S`-related
  numbers; `rel_of_not_somewhere` and `Somewhere.not_rel` relate the two.
  `normalize_idem`: normalising twice is normalising once, for idempotent `f`.

  Nothing here fixes what a number is, so the results carry over to any number
  representation and any canonical choice of it.
-/
import Mathlib

namespace RickydataGit.Lib

/-- A JSON tree. An object keeps its members in the order they are stored in. -/
inductive Json (N : Type) where
  | null
  | bool (b : Bool)
  | num (n : N)
  | str (s : String)
  | arr (xs : List (Json N))
  | obj (ms : List (String × Json N))

namespace Json

variable {N : Type}

/-- Induction over a tree: the children of an array and of an object satisfy the
    motive one by one. -/
@[elab_as_elim, induction_eliminator]
theorem tree_induction {motive : Json N → Prop} (null : motive .null)
    (bool : ∀ b, motive (.bool b)) (num : ∀ n, motive (.num n)) (str : ∀ s, motive (.str s))
    (arr : ∀ xs, (∀ x ∈ xs, motive x) → motive (.arr xs))
    (obj : ∀ ms, (∀ m ∈ ms, motive m.2) → motive (.obj ms)) : ∀ j, motive j :=
  Json.rec (motive_1 := motive) (motive_2 := fun xs => ∀ x ∈ xs, motive x)
    (motive_3 := fun ms => ∀ m ∈ ms, motive m.2) (motive_4 := fun m => motive m.2)
    null bool num str arr obj (by simp)
    (fun x xs hx hxs y hy => by
      rcases List.mem_cons.mp hy with rfl | hy
      · exact hx
      · exact hxs y hy)
    (by simp)
    (fun m ms hm hms n hn => by
      rcases List.mem_cons.mp hn with rfl | hn
      · exact hm
      · exact hms n hn)
    (fun _ _ hv => hv)

/-- The value stored under a key, the first one if a key is repeated. -/
def member (key : String) : Json N → Option (Json N)
  | .obj ms => (ms.find? fun m => m.1 = key).map Prod.snd
  | _ => none

/-! ## Unique keys -/

mutual
/-- No object of the tree repeats a key. -/
def uniqueKeys : Json N → Bool
  | .arr xs => uniqueKeysList xs
  | .obj ms => decide (ms.map Prod.fst).Nodup && uniqueKeysMembers ms
  | _ => true

def uniqueKeysList : List (Json N) → Bool
  | [] => true
  | x :: xs => uniqueKeys x && uniqueKeysList xs

def uniqueKeysMembers : List (String × Json N) → Bool
  | [] => true
  | (_, v) :: ms => uniqueKeys v && uniqueKeysMembers ms
end

theorem uniqueKeysList_iff (xs : List (Json N)) :
    uniqueKeysList xs = true ↔ ∀ x ∈ xs, uniqueKeys x = true := by
  induction xs with
  | nil => simp [uniqueKeysList]
  | cons x xs ih => simp [uniqueKeysList, ih]

theorem uniqueKeysMembers_iff (ms : List (String × Json N)) :
    uniqueKeysMembers ms = true ↔ ∀ m ∈ ms, uniqueKeys m.2 = true := by
  induction ms with
  | nil => simp [uniqueKeysMembers]
  | cons m ms ih => simp [uniqueKeysMembers, ih]

@[simp] theorem uniqueKeys_arr (xs : List (Json N)) :
    uniqueKeys (.arr xs) = true ↔ ∀ x ∈ xs, uniqueKeys x = true := by
  rw [uniqueKeys, uniqueKeysList_iff]

@[simp] theorem uniqueKeys_obj (ms : List (String × Json N)) :
    uniqueKeys (.obj ms) = true ↔
      (ms.map Prod.fst).Nodup ∧ ∀ m ∈ ms, uniqueKeys m.2 = true := by
  rw [uniqueKeys, Bool.and_eq_true, decide_eq_true_iff, uniqueKeysMembers_iff]

@[simp] theorem uniqueKeys_null : uniqueKeys (.null : Json N) = true := rfl
@[simp] theorem uniqueKeys_bool (b : Bool) : uniqueKeys (.bool b : Json N) = true := rfl
@[simp] theorem uniqueKeys_num (n : N) : uniqueKeys (.num n) = true := rfl
@[simp] theorem uniqueKeys_str (s : String) : uniqueKeys (.str s : Json N) = true := rfl

theorem uniqueKeys_member {j v : Json N} {key : String} (hj : uniqueKeys j = true)
    (hv : j.member key = some v) : uniqueKeys v = true := by
  cases j with
  | obj ms =>
    simp only [member, Option.map_eq_some_iff] at hv
    obtain ⟨m, hm, rfl⟩ := hv
    exact ((uniqueKeys_obj ms).mp hj).2 m (List.mem_of_find?_eq_some hm)
  | _ => simp [member] at hv

/-! ## Members with unique keys -/

theorem eq_of_mem_of_key {α : Type} {ms : List (String × α)} (hn : (ms.map Prod.fst).Nodup)
    {m n : String × α} (hm : m ∈ ms) (hk : n ∈ ms) (he : m.1 = n.1) : m = n :=
  List.inj_on_of_nodup_map hn hm hk he

/-- With unique keys, a key is found exactly where it stands. -/
theorem member_obj_eq_some_iff {ms : List (String × Json N)} (hn : (ms.map Prod.fst).Nodup)
    {k : String} {v : Json N} : (Json.obj ms).member k = some v ↔ (k, v) ∈ ms := by
  simp only [member, Option.map_eq_some_iff]
  constructor
  · rintro ⟨⟨k', v'⟩, hm, rfl⟩
    have hk : k' = k := by simpa using List.find?_some hm
    exact hk ▸ List.mem_of_find?_eq_some hm
  · intro hm
    cases hf : ms.find? fun m => m.1 = k with
    | none => exact absurd (List.find?_eq_none.mp hf _ hm) (by simp)
    | some m =>
      have hk : m.1 = k := by simpa using List.find?_some hf
      exact ⟨m, rfl, by rw [eq_of_mem_of_key hn (List.mem_of_find?_eq_some hf) hm hk]⟩

/-- Members sorted by key. -/
def sortKeys {α : Type} (ms : List (String × α)) : List (String × α) :=
  ms.insertionSort fun a b => a.1 ≤ b.1

theorem sortKeys_perm {α : Type} (ms : List (String × α)) : (sortKeys ms).Perm ms :=
  List.perm_insertionSort _ ms

theorem mem_sortKeys {α : Type} {ms : List (String × α)} {m : String × α} :
    m ∈ sortKeys ms ↔ m ∈ ms := (sortKeys_perm ms).mem_iff

instance byKey_total {α : Type} : Std.Total fun a b : String × α => a.1 ≤ b.1 :=
  ⟨fun a b => le_total a.1 b.1⟩

instance byKey_trans {α : Type} : IsTrans (String × α) fun a b => a.1 ≤ b.1 :=
  ⟨fun _ _ _ h1 h2 => le_trans h1 h2⟩

theorem sortKeys_pairwise {α : Type} (ms : List (String × α)) :
    (sortKeys ms).Pairwise fun a b => a.1 ≤ b.1 :=
  List.pairwise_insertionSort (fun a b : String × α => a.1 ≤ b.1) ms

theorem sortKeys_of_pairwise {α : Type} {ms : List (String × α)}
    (h : ms.Pairwise fun a b => a.1 ≤ b.1) : sortKeys ms = ms :=
  List.Pairwise.insertionSort_eq h

theorem sortKeys_idem {α : Type} (ms : List (String × α)) :
    sortKeys (sortKeys ms) = sortKeys ms :=
  sortKeys_of_pairwise (sortKeys_pairwise ms)

/-- With unique keys, the sorted list depends on the set of members only. -/
theorem sortKeys_eq_iff_perm {α : Type} {ms ns : List (String × α)}
    (hm : (ms.map Prod.fst).Nodup) : sortKeys ms = sortKeys ns ↔ ms.Perm ns := by
  constructor
  · intro h
    exact (sortKeys_perm ms).symm.trans (h ▸ sortKeys_perm ns)
  · intro h
    refine List.Perm.eq_of_pairwise ?_ (sortKeys_pairwise ms) (sortKeys_pairwise ns)
      ((sortKeys_perm ms).trans (h.trans (sortKeys_perm ns).symm))
    intro a b ha hb hab hba
    exact eq_of_mem_of_key hm (mem_sortKeys.mp ha) (h.mem_iff.mpr (mem_sortKeys.mp hb))
      (le_antisymm hab hba)

/-- Sorting by key commutes with a map that keeps the keys. -/
theorem sortKeys_map {α β : Type} (g : α → β) (ms : List (String × α)) :
    sortKeys (ms.map fun m => (m.1, g m.2)) = (sortKeys ms).map fun m => (m.1, g m.2) := by
  unfold sortKeys
  rw [List.map_insertionSort (fun a b : String × α => a.1 ≤ b.1)
    (fun a b : String × β => a.1 ≤ b.1)]
  intro a _ b _
  rfl

/-! ## The normal form -/

mutual
/-- Members sorted by key at every depth, every number mapped by `f`. -/
def normalize (f : N → N) : Json N → Json N
  | .arr xs => .arr (normalizeList f xs)
  | .num n => .num (f n)
  | .obj ms => .obj (sortKeys (normalizeMembers f ms))
  | .null => .null
  | .bool b => .bool b
  | .str s => .str s

def normalizeList (f : N → N) : List (Json N) → List (Json N)
  | [] => []
  | x :: xs => normalize f x :: normalizeList f xs

def normalizeMembers (f : N → N) : List (String × Json N) → List (String × Json N)
  | [] => []
  | (k, v) :: ms => (k, normalize f v) :: normalizeMembers f ms
end

theorem normalizeList_eq_map (f : N → N) (xs : List (Json N)) :
    normalizeList f xs = xs.map (normalize f) := by
  induction xs with
  | nil => rfl
  | cons x xs ih => simp [normalizeList, ih]

theorem normalizeMembers_eq_map (f : N → N) (ms : List (String × Json N)) :
    normalizeMembers f ms = ms.map fun m => (m.1, normalize f m.2) := by
  induction ms with
  | nil => rfl
  | cons m ms ih => simp [normalizeMembers, ih]

@[simp] theorem normalize_arr (f : N → N) (xs : List (Json N)) :
    normalize f (.arr xs) = .arr (xs.map (normalize f)) := by
  rw [normalize, normalizeList_eq_map]

@[simp] theorem normalize_obj (f : N → N) (ms : List (String × Json N)) :
    normalize f (.obj ms) = .obj (sortKeys (ms.map fun m => (m.1, normalize f m.2))) := by
  rw [normalize, normalizeMembers_eq_map]

@[simp] theorem normalize_null (f : N → N) : normalize f .null = .null := rfl
@[simp] theorem normalize_bool (f : N → N) (b : Bool) : normalize f (.bool b) = .bool b := rfl
@[simp] theorem normalize_num (f : N → N) (n : N) : normalize f (.num n) = .num (f n) := rfl
@[simp] theorem normalize_str (f : N → N) (s : String) : normalize f (.str s) = .str s := rfl

theorem keys_normalizeMembers (f : N → N) (ms : List (String × Json N)) :
    (ms.map fun m => (m.1, normalize f m.2)).map Prod.fst = ms.map Prod.fst := by
  simp [Function.comp_def]

theorem normalize_idem {f : N → N} (hf : ∀ n, f (f n) = f n) (j : Json N) :
    normalize f (normalize f j) = normalize f j := by
  induction j with
  | null => rfl
  | bool b => rfl
  | num n => simp [hf]
  | str s => rfl
  | arr xs ih =>
    simp only [normalize_arr, List.map_map]
    congr 1
    exact List.map_congr_left fun x hx => ih x hx
  | obj ms ih =>
    simp only [normalize_obj]
    rw [sortKeys_map, sortKeys_idem, sortKeys_map, List.map_map]
    congr 1
    refine List.map_congr_left fun m hm => ?_
    simp only [Function.comp_apply, ih m (mem_sortKeys.mp hm)]

theorem uniqueKeys_normalize {f : N → N} {j : Json N} (h : uniqueKeys j = true) :
    uniqueKeys (normalize f j) = true := by
  induction j with
  | arr xs ih =>
    rw [uniqueKeys_arr] at h
    simp only [normalize_arr, uniqueKeys_arr, List.mem_map]
    rintro _ ⟨x, hx, rfl⟩
    exact ih x hx (h x hx)
  | obj ms ih =>
    rw [uniqueKeys_obj] at h
    simp only [normalize_obj, uniqueKeys_obj]
    refine ⟨?_, ?_⟩
    · rw [((sortKeys_perm _).map Prod.fst).nodup_iff, keys_normalizeMembers]
      exact h.1
    · intro m hm
      obtain ⟨n, hn, rfl⟩ := List.mem_map.mp (mem_sortKeys.mp hm)
      exact ih n hn (h.2 n hn)
  | _ => exact h

/-- Normalising does not move a member to another key. -/
theorem member_normalize {f : N → N} {j : Json N} (h : uniqueKeys j = true) (k : String) :
    (normalize f j).member k = (j.member k).map (normalize f) := by
  cases j with
  | obj ms =>
    have hu := uniqueKeys_normalize (f := f) h
    rw [normalize_obj, uniqueKeys_obj] at hu
    rw [uniqueKeys_obj] at h
    rw [normalize_obj]
    ext v
    rw [member_obj_eq_some_iff hu.1, mem_sortKeys]
    simp only [List.mem_map, Prod.mk.injEq, Option.map_eq_some_iff, member_obj_eq_some_iff h.1]
    constructor
    · rintro ⟨⟨k', w⟩, hw, rfl, rfl⟩
      exact ⟨w, hw, rfl⟩
    · rintro ⟨w, hw, rfl⟩
      exact ⟨(k, w), hw, rfl, rfl⟩
  | arr xs => rw [normalize_arr]; rfl
  | _ => rfl

/-! ## Equality up to member order and up to a relation on numbers -/

/-- The same constructor at every position, the same strings and booleans, the
    same key set in every object, and `R`-related numbers. -/
inductive Rel (R : N → N → Prop) : Json N → Json N → Prop where
  | null : Rel R .null .null
  | bool (b : Bool) : Rel R (.bool b) (.bool b)
  | num {x y : N} : R x y → Rel R (.num x) (.num y)
  | str (s : String) : Rel R (.str s) (.str s)
  | arr {xs ys : List (Json N)} : xs.length = ys.length →
      (∀ (i : Nat) (x y : Json N), xs[i]? = some x → ys[i]? = some y → Rel R x y) →
      Rel R (.arr xs) (.arr ys)
  | obj {ms ns : List (String × Json N)} :
      (∀ k, k ∈ ms.map Prod.fst ↔ k ∈ ns.map Prod.fst) →
      (∀ k v w, (k, v) ∈ ms → (k, w) ∈ ns → Rel R v w) → Rel R (.obj ms) (.obj ns)

theorem Rel.mono {R S : N → N → Prop} (h : ∀ x y, R x y → S x y) {a b : Json N}
    (hab : Rel R a b) : Rel S a b := by
  induction hab with
  | null => exact .null
  | bool b => exact .bool b
  | num hxy => exact .num (h _ _ hxy)
  | str s => exact .str s
  | arr hl _ ih => exact .arr hl ih
  | obj hk _ ih => exact .obj hk ih

/-- Two relations on numbers hold together exactly when each one lifts. -/
theorem rel_and {R S : N → N → Prop} {a b : Json N} :
    Rel (fun x y => R x y ∧ S x y) a b ↔ Rel R a b ∧ Rel S a b := by
  constructor
  · intro h
    exact ⟨h.mono fun _ _ => And.left, h.mono fun _ _ => And.right⟩
  · rintro ⟨hr, hs⟩
    induction hr with
    | null => exact .null
    | bool b => exact .bool b
    | num hxy =>
      cases hs with
      | num hxy' => exact .num ⟨hxy, hxy'⟩
    | str s => exact .str s
    | arr hl _ ih =>
      cases hs with
      | arr _ hs => exact .arr hl fun i x y hx hy => ih i x y hx hy (hs i x y hx hy)
    | obj hk _ ih =>
      cases hs with
      | obj _ hs => exact .obj hk fun k v w hv hw => ih k v w hv hw (hs k v w hv hw)

/-- Some position, reached in both trees by one path, holds `S`-related numbers. -/
inductive Somewhere (S : N → N → Prop) : Json N → Json N → Prop where
  | num {x y : N} : S x y → Somewhere S (.num x) (.num y)
  | arr {xs ys : List (Json N)} (i : Nat) {x y : Json N} : xs[i]? = some x → ys[i]? = some y →
      Somewhere S x y → Somewhere S (.arr xs) (.arr ys)
  | obj {ms ns : List (String × Json N)} (k : String) {v w : Json N} : (k, v) ∈ ms →
      (k, w) ∈ ns → Somewhere S v w → Somewhere S (.obj ms) (.obj ns)

/-- A disjunction on numbers lifts to its first half where the second occurs nowhere. -/
theorem rel_of_not_somewhere {R S : N → N → Prop} {a b : Json N}
    (h : Rel (fun x y => R x y ∨ S x y) a b) (hn : ¬ Somewhere S a b) : Rel R a b := by
  induction h with
  | null => exact .null
  | bool b => exact .bool b
  | num hxy => exact .num (hxy.resolve_right fun hs => hn (.num hs))
  | str s => exact .str s
  | arr hl _ ih =>
    exact .arr hl fun i x y hx hy => ih i x y hx hy fun hs => hn (.arr i hx hy hs)
  | obj hk _ ih =>
    exact .obj hk fun k v w hv hw => ih k v w hv hw fun hs => hn (.obj k hv hw hs)

/-- Where a relation fails at one position, it does not lift. -/
theorem Somewhere.not_rel {S T : N → N → Prop} (hST : ∀ x y, S x y → ¬ T x y) {a b : Json N}
    (h : Somewhere S a b) : ¬ Rel T a b := by
  intro hr
  induction h with
  | num hs =>
    cases hr with
    | num ht => exact hST _ _ hs ht
  | arr i hx hy _ ih =>
    cases hr with
    | arr _ hr => exact ih (hr i _ _ hx hy)
  | obj k hv hw _ ih =>
    cases hr with
    | obj _ hr => exact ih (hr k _ _ hv hw)

theorem rel_of_normalize_eq {f : N → N} {a b : Json N} (ha : uniqueKeys a = true)
    (hb : uniqueKeys b = true) (h : normalize f a = normalize f b) :
    Rel (fun x y => f x = f y) a b := by
  induction a generalizing b with
  | null => cases b <;> simp at h; exact .null
  | bool _ => cases b <;> simp at h; exact h ▸ .bool _
  | num _ => cases b <;> simp at h; exact .num h
  | str _ => cases b <;> simp at h; exact h ▸ .str _
  | arr xs ih =>
    cases b with
    | arr ys =>
      simp only [normalize_arr, arr.injEq] at h
      rw [uniqueKeys_arr] at ha hb
      refine .arr (by simpa using congrArg List.length h) fun i x y hx hy => ?_
      have hi : (xs.map (normalize f))[i]? = (ys.map (normalize f))[i]? := by rw [h]
      simp only [List.getElem?_map, hx, hy, Option.map_some, Option.some.injEq] at hi
      have hxm := List.mem_of_getElem? hx
      exact ih x hxm (ha x hxm) (hb y (List.mem_of_getElem? hy)) hi
    | _ => simp at h
  | obj ms ih =>
    cases b with
    | obj ns =>
      simp only [normalize_obj, obj.injEq] at h
      rw [uniqueKeys_obj] at ha hb
      have hp := (sortKeys_eq_iff_perm (by rw [keys_normalizeMembers]; exact ha.1)).mp h
      have hkeys := hp.map Prod.fst
      rw [keys_normalizeMembers, keys_normalizeMembers] at hkeys
      refine .obj (fun k => hkeys.mem_iff) fun k v w hv hw => ?_
      -- the normal form of `v` is stored under `k` on both sides, so it is that of `w`
      have hv' : (k, normalize f v) ∈ ns.map fun m => (m.1, normalize f m.2) :=
        hp.mem_iff.mp (List.mem_map.mpr ⟨(k, v), hv, rfl⟩)
      obtain ⟨⟨k', w'⟩, hw', he⟩ := List.mem_map.mp hv'
      simp only [Prod.mk.injEq] at he
      obtain ⟨rfl, he⟩ := he
      have hww : w' = w := congrArg Prod.snd (eq_of_mem_of_key hb.1 hw' hw rfl)
      exact ih (k', v) hv (ha.2 _ hv) (hb.2 _ hw) (by rw [← hww, he])
    | _ => simp at h

theorem normalize_eq_of_rel {f : N → N} {a b : Json N} (ha : uniqueKeys a = true)
    (hb : uniqueKeys b = true) (h : Rel (fun x y => f x = f y) a b) :
    normalize f a = normalize f b := by
  induction h with
  | null => rfl
  | bool b => rfl
  | num hxy => simp [hxy]
  | str s => rfl
  | @arr xs ys hl hr ih =>
    rw [uniqueKeys_arr] at ha hb
    simp only [normalize_arr, arr.injEq]
    refine List.ext_getElem (by simpa using hl) fun i hi hj => ?_
    simp only [List.length_map] at hi hj
    simp only [List.getElem_map]
    exact ih i _ _ (List.getElem?_eq_getElem hi) (List.getElem?_eq_getElem hj)
      (ha _ (List.getElem_mem hi)) (hb _ (List.getElem_mem hj))
  | @obj ms ns hk hr ih =>
    rw [uniqueKeys_obj] at ha hb
    simp only [normalize_obj, obj.injEq]
    have hnm : ((ms.map fun m => (m.1, normalize f m.2)).map Prod.fst).Nodup := by
      rw [keys_normalizeMembers]; exact ha.1
    have hnn : ((ns.map fun m => (m.1, normalize f m.2)).map Prod.fst).Nodup := by
      rw [keys_normalizeMembers]; exact hb.1
    rw [sortKeys_eq_iff_perm hnm,
      List.perm_ext_iff_of_nodup (List.Nodup.of_map _ hnm) (List.Nodup.of_map _ hnn)]
    rintro ⟨k, u⟩
    simp only [List.mem_map, Prod.mk.injEq]
    constructor
    · rintro ⟨⟨k', v⟩, hv, rfl, rfl⟩
      obtain ⟨⟨k'', w⟩, hw, rfl⟩ := List.mem_map.mp ((hk k').mp (List.mem_map.mpr ⟨_, hv, rfl⟩))
      exact ⟨(k'', w), hw, rfl, (ih k'' v w hv hw (ha.2 _ hv) (hb.2 _ hw)).symm⟩
    · rintro ⟨⟨k', w⟩, hw, rfl, rfl⟩
      obtain ⟨⟨k'', v⟩, hv, rfl⟩ := List.mem_map.mp ((hk k').mpr (List.mem_map.mpr ⟨_, hw, rfl⟩))
      exact ⟨(k'', v), hv, rfl, ih k'' v w hv hw (ha.2 _ hv) (hb.2 _ hw)⟩

/-- Equal normal forms are equality of trees up to member order and up to `f`. -/
theorem normalize_eq_iff {f : N → N} {a b : Json N} (ha : uniqueKeys a = true)
    (hb : uniqueKeys b = true) :
    normalize f a = normalize f b ↔ Rel (fun x y => f x = f y) a b :=
  ⟨rel_of_normalize_eq ha hb, normalize_eq_of_rel ha hb⟩

end Json

end RickydataGit.Lib
