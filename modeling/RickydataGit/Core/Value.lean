/-
  JSON values, their canonical form and their bytes.

  A `Value` is a JSON tree whose objects do not repeat a key, which is what a
  serde_json map guarantees. The order of the members is kept in the tree, so
  nothing here depends on the map serde_json was built with.

  `canonicalJson` sorts the members at every depth and replaces every number by
  its canonical number. `toVec_inj`: two values with the same compact text are one
  value.
-/
import RickydataGit.Core.NumberText

namespace RickydataGit.Core

open RickydataGit.Lib

abbrev Bytes := List UInt8

/-- The UTF-8 bytes of a string. -/
def utf8 (s : String) : Bytes := s.toByteArray.data.toList

theorem utf8_inj {s t : String} (h : utf8 s = utf8 t) : s = t := by
  unfold utf8 at h
  exact String.toByteArray_inj.mp (ByteArray.ext (Array.toList_inj.mp h))

/-- `str::from_utf8`. -/
def fromUtf8 (b : Bytes) : Option String := String.fromUTF8? ⟨b.toArray⟩

theorem fromUtf8_utf8 (s : String) : fromUtf8 (utf8 s) = some s := by
  have hb : (⟨(utf8 s).toArray⟩ : ByteArray) = s.toByteArray := by
    simp [utf8]
  rw [fromUtf8, hb, String.fromUTF8?, dif_pos s.isValidUTF8]
  rfl

theorem utf8_of_fromUtf8 {b : Bytes} {s : String} (h : fromUtf8 b = some s) : utf8 s = b := by
  unfold fromUtf8 String.fromUTF8? at h
  split at h
  · obtain rfl := Option.some.inj h
    rfl
  · cases h

/-! ## Values -/

/-- `serde_json::Value`. -/
structure Value where
  tree : Json Number
  unique : tree.uniqueKeys = true

namespace Value

theorem ext_tree {v w : Value} (h : v.tree = w.tree) : v = w := by
  cases v
  cases w
  cases h
  rfl

def null : Value := ⟨.null, rfl⟩

def str (s : String) : Value := ⟨.str s, rfl⟩

def bool (b : Bool) : Value := ⟨.bool b, rfl⟩

def num (n : Number) : Value := ⟨.num n, rfl⟩

/-- `Number::from(u64)`. -/
def ofU64 (n : UInt64) : Value := .num (.posInt n)

def arr (vs : List Value) : Value where
  tree := .arr (vs.map Value.tree)
  unique := by
    rw [Json.uniqueKeys_arr]
    intro x hx
    obtain ⟨v, _, rfl⟩ := List.mem_map.mp hx
    exact v.unique

/-- The `json!` object of the given members. -/
def obj (ms : List (String × Value)) (h : (ms.map Prod.fst).Nodup) : Value where
  tree := .obj (ms.map fun m => (m.1, m.2.tree))
  unique := by
    rw [Json.uniqueKeys_obj]
    refine ⟨by simpa [Function.comp_def] using h, ?_⟩
    intro x hx
    obtain ⟨m, _, rfl⟩ := List.mem_map.mp hx
    exact m.2.unique

theorem obj_tree (ms : List (String × Value)) (h : (ms.map Prod.fst).Nodup) :
    (obj ms h).tree = .obj (ms.map fun m => (m.1, m.2.tree)) := rfl

theorem str_inj {s t : String} (h : str s = str t) : s = t := by
  have := congrArg Value.tree h
  simpa [str] using this

/-- The value under a key of an object. -/
def get (v : Value) (key : String) : Option Value :=
  (v.tree.member key).pmap (fun t h => ⟨t, h⟩) fun _ ht => Json.uniqueKeys_member v.unique ht

/-- The values of an array. -/
def elems : Value → Option (List Value)
  | ⟨.arr xs, h⟩ => some (xs.pmap (fun t ht => ⟨t, ht⟩) ((Json.uniqueKeys_arr xs).mp h))
  | _ => none

theorem map_tree_get (v : Value) (key : String) : (v.get key).map tree = v.tree.member key := by
  simp [get, Option.map_pmap]

theorem map_tree_injective : Function.Injective (Option.map tree) :=
  Option.map_injective fun _ _ h => ext_tree h

/-- Reading a key of an object that was built from its members. -/
theorem get_obj (ms : List (String × Value)) (h : (ms.map Prod.fst).Nodup) (key : String) :
    (obj ms h).get key = (ms.find? fun m => m.1 = key).map Prod.snd := by
  apply map_tree_injective
  rw [map_tree_get, obj_tree, Json.member, List.find?_map, Option.map_map, Option.map_map]
  rfl

theorem map_tree_elems (xs : List (Json Number)) (h : ∀ x ∈ xs, x.uniqueKeys = true) :
    (xs.pmap (fun t ht => (⟨t, ht⟩ : Value)) h).map tree = xs := by
  rw [List.map_pmap]
  simp

theorem elems_arr (vs : List Value) : (arr vs).elems = some vs := by
  have hinj : Function.Injective (List.map tree) := List.map_injective_iff.mpr fun _ _ h => ext_tree h
  refine congrArg some (hinj ?_)
  rw [map_tree_elems]

end Value

/-! ## Canonical JSON -/

/-- `canonical_json`: members sorted by key, numbers canonical, at every depth. -/
def canonicalJson (value : Value) : Value where
  tree := value.tree.normalize canonicalNumber
  unique := Json.uniqueKeys_normalize value.unique

theorem canonicalJson_idem (v : Value) : canonicalJson (canonicalJson v) = canonicalJson v :=
  Value.ext_tree (Json.normalize_idem canonicalNumber_idem v.tree)

theorem canonicalJson_eq_iff (a b : Value) :
    canonicalJson a = canonicalJson b ↔
      Json.Rel (fun x y => canonicalNumber x = canonicalNumber y) a.tree b.tree := by
  rw [← Json.normalize_eq_iff a.unique b.unique]
  exact ⟨fun h => congrArg Value.tree h, fun h => Value.ext_tree h⟩

@[simp] theorem canonicalJson_str (s : String) : canonicalJson (.str s) = .str s := rfl

@[simp] theorem canonicalJson_null : canonicalJson .null = .null := rfl

@[simp] theorem canonicalJson_bool (b : Bool) : canonicalJson (.bool b) = .bool b := rfl

theorem canonicalJson_arr (vs : List Value) :
    canonicalJson (.arr vs) = .arr (vs.map canonicalJson) := by
  apply Value.ext_tree
  simp [canonicalJson, Value.arr, Function.comp_def]

theorem get_canonicalJson (v : Value) (key : String) :
    (canonicalJson v).get key = (v.get key).map canonicalJson := by
  apply Value.map_tree_injective
  rw [Value.map_tree_get, Option.map_map]
  exact (Json.member_normalize v.unique key).trans
    ((congrArg (Option.map _) (Value.map_tree_get v key).symm).trans (Option.map_map ..))

/-- The canonical form of an object, its members given in key order. -/
theorem canonicalJson_obj_of_sorted {ms : List (String × Value)} (h : (ms.map Prod.fst).Nodup)
    (hs : (ms.map Prod.fst).Pairwise (· ≤ ·)) :
    canonicalJson (.obj ms h) =
      .obj (ms.map fun m => (m.1, canonicalJson m.2)) (by simpa [Function.comp_def] using h) := by
  apply Value.ext_tree
  simp only [canonicalJson, Value.obj_tree, Json.normalize_obj, List.map_map, Json.obj.injEq]
  rw [Json.sortKeys_of_pairwise (by simpa [List.pairwise_map] using hs)]
  rfl

/-- Members count through their canonical forms only. -/
theorem canonicalJson_obj_congr {ms ns : List (String × Value)}
    (he : (ms.map fun m => (m.1, canonicalJson m.2)) = ns.map fun m => (m.1, canonicalJson m.2))
    (hm : (ms.map Prod.fst).Nodup) (hn : (ns.map Prod.fst).Nodup) :
    canonicalJson (.obj ms hm) = canonicalJson (.obj ns hn) := by
  have ht := congrArg (List.map fun m : String × Value => (m.1, m.2.tree)) he
  simp only [List.map_map] at ht
  apply Value.ext_tree
  simp only [canonicalJson, Value.obj_tree, Json.normalize_obj, List.map_map, Json.obj.injEq]
  exact congrArg Json.sortKeys ht

/-- The order the members are given in does not matter. -/
theorem canonicalJson_obj_perm {ms ns : List (String × Value)} (hp : ms.Perm ns)
    (hm : (ms.map Prod.fst).Nodup) (hn : (ns.map Prod.fst).Nodup) :
    canonicalJson (.obj ms hm) = canonicalJson (.obj ns hn) := by
  apply Value.ext_tree
  simp only [canonicalJson, Value.obj_tree, Json.normalize_obj, List.map_map, Json.obj.injEq]
  rw [Json.sortKeys_eq_iff_perm (by simpa [Function.comp_def] using hm)]
  exact hp.map _

/-! ## Bytes -/

/-- `serde_json::to_vec`. -/
def toVec (F : FloatText) (value : Value) : Bytes :=
  utf8 (.ofList (Json.print (numberText F) .compact 0 value.tree))

/-- `serde_json::to_vec_pretty`. -/
def toVecPretty (F : FloatText) (value : Value) : Bytes :=
  utf8 (.ofList (Json.print (numberText F) .pretty 0 value.tree))

theorem ofList_inj {cs ds : List Char} (h : String.ofList cs = String.ofList ds) : cs = ds := by
  have := congrArg String.toList h
  simpa using this

theorem toVec_inj {F : FloatText} {v w : Value} (h : toVec F v = toVec F w) : v = w :=
  Value.ext_tree (Json.print_inj _ _ (ofList_inj (utf8_inj h)))

theorem toVecPretty_inj {F : FloatText} {v w : Value}
    (h : toVecPretty F v = toVecPretty F w) : v = w :=
  Value.ext_tree (Json.print_inj _ _ (ofList_inj (utf8_inj h)))

/-- Reads a text of either layout, refusing repeated keys. -/
def readText (F : FloatText) (bytes : Bytes) : Option Value := do
  let s ← fromUtf8 bytes
  let tree ← Json.read (numberText F) s.toList
  if unique : tree.uniqueKeys = true then some ⟨tree, unique⟩ else none

theorem readText_print (F : FloatText) (L : Layout) (v : Value) :
    readText F (utf8 (.ofList (Json.print (numberText F) L 0 v.tree))) = some v := by
  simp only [readText, fromUtf8_utf8, Option.bind_eq_bind, Option.bind_some,
    String.toList_ofList, Json.read_print, dif_pos v.unique]

end RickydataGit.Core
