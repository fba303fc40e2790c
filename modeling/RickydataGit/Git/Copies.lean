/-
  Stores of valid objects, whatever bytes they have them in.

  A reference or a cache file holds a copy of an object (`HasCopy`): any text that parses
  to a valid object under the digits of its name. Two copies of one id may differ in
  their signatures, their times and the spelling of their bodies, and agree on the kind
  and on the body in canonical form (`NoCollisions.agree`).

  The listing of a kind is in the order of the ids, each of them once
  (`AllValid.list`), and what is read under a listed id is a copy of it
  (`AllValid.sound`).
-/
import RickydataGit.Git.Content
import RickydataGit.Git.Transparency
import Mathlib.Data.List.Sort

namespace RickydataGit.Git

open RickydataGit.Lib RickydataGit.Core

variable {X : Crates} {s t : ObjectStore} {o o' : CanonicalObject}

/-- Every reference and every cache file is a valid object under its own digits. -/
structure AllValid (X : Crates) (s : ObjectStore) : Prop where
  refs : ∀ r ∈ objectRefs s, ∃ o hex, readObjectBytes X r.2 = .ok o ∧ o.Valid X ∧
    objectHex o.objectId = .ok hex ∧ r.1 = refNameOf hex
  cache : CacheSound X s

/-- The object stands under a reference or in the cache. -/
inductive HasCopy (X : Crates) (s : ObjectStore) (o : CanonicalObject) : Prop where
  | ref {r : String × Bytes} : r ∈ objectRefs s → readObjectBytes X r.2 = .ok o → HasCopy X s o
  | cached {hex : List Char} {b : Bytes} : hex.length = 64 →
      s.cache[cachePathOf hex]? = some b → readObjectBytes X b = .ok o → HasCopy X s o

/-- The id of an object of the kind under some reference. -/
def RefBackedOf (X : Crates) (s : ObjectStore) (kind objectId : String) : Prop :=
  ∃ r ∈ objectRefs s, ∃ o, readObjectBytes X r.2 = .ok o ∧ o.kind = kind ∧ o.objectId = objectId

/-- SHA-256 does not collide on the copies in the two stores. -/
def NoCollisions (X : Crates) (s t : ObjectStore) : Prop :=
  ∀ o o', HasCopy X s o ∨ HasCopy X t o → HasCopy X s o' ∨ HasCopy X t o' →
    NoCollision X (signingMessage X o.kind o.schemaVersion o.body)
      (signingMessage X o'.kind o'.schemaVersion o'.body)

theorem readObjectBytes_of_ok {b : Bytes} (h : objectFromSlice X b = .ok o) :
    readObjectBytes X b = .ok o := by
  rw [readObjectBytes, h]
  rfl

/-- All copies are valid. -/
theorem AllValid.valid (h : AllValid X s) (ho : HasCopy X s o) : o.Valid X := by
  cases ho with
  | ref hr hparse =>
    obtain ⟨o', hex, hparse', hv, -⟩ := h.refs _ hr
    rw [hparse, Except.ok.injEq] at hparse'
    rwa [hparse']
  | cached hl hc hparse =>
    obtain ⟨o', ho', hv, -⟩ := h.cache _ _ hl hc
    rw [readObjectBytes_of_ok ho', Except.ok.injEq] at hparse
    rwa [← hparse]

/-- Copies of one id agree on the kind and on the canonical form of the body. -/
theorem NoCollisions.agree (h : NoCollisions X s t) (hs : AllValid X s) (ht : AllValid X t)
    (ho : HasCopy X s o ∨ HasCopy X t o) (ho' : HasCopy X s o' ∨ HasCopy X t o')
    (hid : o.objectId = o'.objectId) :
    o.kind = o'.kind ∧ canonicalJson o.body = canonicalJson o'.body := by
  have hvalid : ∀ {p}, HasCopy X s p ∨ HasCopy X t p → p.Valid X := fun hp =>
    hp.elim hs.valid ht.valid
  rw [(hvalid ho).objectId, (hvalid ho').objectId, canonicalObjectId_eq,
    canonicalObjectId_eq] at hid
  obtain ⟨hk, -, hb⟩ := signingMessage_eq_iff.mp (hashText_inj (h o o' ho ho') hid)
  exact ⟨hk, hb⟩

/-- Reads that put cache files back keep the copies valid. -/
theorem AllValid.same (h : AllValid X s) (hs : SameContent s t) : AllValid X t where
  refs := by
    rw [objectRefs, hs.refs]
    exact h.refs
  cache := by
    intro hex b hl hb
    have hc := hs.held hex hl
    rw [content, content, hb, Option.some_or] at hc
    cases hold : s.cache[cachePathOf hex]? with
    | some b' =>
      rw [hold, Option.some_or] at hc
      obtain rfl := Option.some.inj hc
      exact h.cache hex b hl hold
    | none =>
      rw [hold, Option.none_or] at hc
      obtain ⟨o, hex', hparse, hv, hhex, hname⟩ :=
        h.refs _ (mem_objectRefs_refNameOf.mpr hc.symm)
      obtain rfl := refNameOf_inj (hl.trans (objectHex_length hhex).symm) hname
      exact ⟨o, readObjectBytes_ok hparse, hv, hhex⟩

theorem RefBackedOf.same {kind objectId : String} (hs : SameContent s t) :
    RefBackedOf X t kind objectId ↔ RefBackedOf X s kind objectId := by
  rw [RefBackedOf, RefBackedOf, objectRefs, objectRefs, hs.refs]

/-! ## Stores made by hand -/

theorem allValid_empty (X : Crates) : AllValid X .empty where
  refs r hr := by
    have hsome := (mem_objectRefs.mp hr).1
    simp [ObjectStore.empty] at hsome
  cache _ _ _ hb := by simp [ObjectStore.empty] at hb

theorem not_hasCopy_empty : ¬ HasCopy X .empty o := by
  rintro (⟨hr, -⟩ | ⟨-, hc, -⟩)
  · have hsome := (mem_objectRefs.mp hr).1
    simp [ObjectStore.empty] at hsome
  · simp [ObjectStore.empty] at hc

section

variable {hex : List Char} {b : Bytes} {name path : String}

theorem mem_objectRefs_writeRef {r : String × Bytes} (h : r ∈ objectRefs (s.writeRef name b)) :
    r = (name, b) ∨ r ∈ objectRefs s := by
  obtain ⟨hsome, hprefix⟩ := mem_objectRefs.mp h
  rw [ObjectStore.refs_writeRef] at hsome
  split at hsome
  · next he => exact .inl (Prod.ext he.symm (Option.some.inj hsome).symm)
  · exact .inr (mem_objectRefs.mpr ⟨hsome, hprefix⟩)

theorem AllValid.writeRef (h : AllValid X s) (hparse : readObjectBytes X b = .ok o)
    (hv : o.Valid X) (hhex : objectHex o.objectId = .ok hex) :
    AllValid X (s.writeRef (refNameOf hex) b) where
  refs r hr := by
    rcases mem_objectRefs_writeRef hr with rfl | hr
    · exact ⟨o, hex, hparse, hv, hhex, rfl⟩
    · exact h.refs r hr
  cache := h.cache

theorem AllValid.writeCache (h : AllValid X s) (hparse : readObjectBytes X b = .ok o)
    (hv : o.Valid X) (hhex : objectHex o.objectId = .ok hex) :
    AllValid X (s.writeCache (cachePathOf hex) b) where
  refs := h.refs
  cache := h.cache.writeCache (readObjectBytes_ok hparse) hv hhex

theorem HasCopy.of_writeRef (h : HasCopy X (s.writeRef name b) o) :
    readObjectBytes X b = .ok o ∨ HasCopy X s o := by
  rcases h with ⟨hr, hparse⟩ | ⟨hl, hc, hparse⟩
  · rcases mem_objectRefs_writeRef hr with rfl | hr
    · exact .inl hparse
    · exact .inr (.ref hr hparse)
  · exact .inr (.cached hl hc hparse)

theorem HasCopy.of_writeCache (h : HasCopy X (s.writeCache path b) o) :
    readObjectBytes X b = .ok o ∨ HasCopy X s o := by
  rcases h with ⟨hr, hparse⟩ | ⟨hl, hc, hparse⟩
  · exact .inr (.ref hr hparse)
  · rw [ObjectStore.cache_writeCache] at hc
    split at hc
    · exact .inl (Option.some.inj hc ▸ hparse)
    · exact .inr (.cached hl hc hparse)

/-- What is referenced in a store with one reference. -/
theorem refBackedOf_writeRef_empty (hparse : readObjectBytes X b = .ok o)
    {kind objectId : String} :
    RefBackedOf X (ObjectStore.empty.writeRef (refNameOf hex) b) kind objectId ↔
      o.kind = kind ∧ o.objectId = objectId := by
  constructor
  · rintro ⟨r, hr, o', hparse', hk, hid⟩
    rcases mem_objectRefs_writeRef hr with rfl | hr
    · obtain rfl := Except.ok.inj (hparse.symm.trans hparse')
      exact ⟨hk, hid⟩
    · have hsome := (mem_objectRefs.mp hr).1
      simp [ObjectStore.empty] at hsome
  · rintro ⟨hk, hid⟩
    refine ⟨(refNameOf hex, b), mem_objectRefs_refNameOf.mpr ?_, o, hparse, hk, hid⟩
    simp

end

/-! ## Listings -/

/-- The entries stand in the order of their references. -/
theorem listEntries_sublist {kind : Option String} {refs : List (String × Bytes)}
    {entries : List ObjectListEntry} (h : listEntries X kind refs = .ok entries) :
    (entries.map ObjectListEntry.refName).Sublist (refs.map Prod.fst) := by
  induction refs generalizing entries with
  | nil =>
    obtain rfl := Except.ok.inj h
    exact .slnil
  | cons r rest ih =>
    unfold listEntries at h
    rcases hobject : readObjectBytes X r.2 with e | object
    · rw [hobject] at h
      cases h
    rcases hrest : listEntries X kind rest with e | restEntries
    · rw [hobject, hrest] at h
      cases h
    rw [hobject, hrest] at h
    simp only [bind, Except.bind] at h
    split at h
    · obtain rfl := Except.ok.inj h
      exact .cons _ (ih hrest)
    · obtain rfl := Except.ok.inj h
      exact .cons_cons _ (ih hrest)

theorem objectRefs_nodup (s : ObjectStore) : ((objectRefs s).map Prod.fst).Nodup := by
  have hkeys : (s.refs.toList.map Prod.fst).Nodup := by
    rw [List.Nodup, List.pairwise_map]
    refine s.refs.distinct_keys_toList.imp fun hne heq => hne ?_
    rw [heq]
    exact Std.ReflCmp.compare_self
  exact hkeys.sublist (List.filter_sublist.map _)

/-- The objects of a kind are listed by their ids, each once. -/
theorem AllValid.list (h : AllValid X s) (kind : String) :
    ∃ entries, (listRefBackedObjects X (some kind)).run exec s = (.ok entries, s) ∧
      (entries.map ObjectListEntry.objectId).Pairwise (· < ·) ∧
      ∀ objectId, objectId ∈ entries.map ObjectListEntry.objectId ↔
        RefBackedOf X s kind objectId := by
  obtain ⟨found, hfound, hmem⟩ := listEntries_ok (X := X) (some kind) fun r hr => by
    obtain ⟨o, -, hparse, -⟩ := h.refs r hr
    exact ⟨o, hparse⟩
  -- an id determines its reference, and no reference is listed twice
  have hname : ∀ entry ∈ found, entry.refName =
      refNameOf ((objectHex entry.objectId).toOption.getD []) := by
    intro entry he
    obtain ⟨r, hr, o, hparse, -, rfl⟩ := (hmem entry).mp he
    obtain ⟨o', hex, hparse', -, hhex, hr'⟩ := h.refs r hr
    rw [hparse, Except.ok.injEq] at hparse'
    subst hparse'
    simp only [objectEntry, hhex, hr', Except.toOption, Option.getD_some]
  have hnodup : (found.map ObjectListEntry.objectId).Nodup := by
    have hrefs := (objectRefs_nodup s).sublist (listEntries_sublist hfound)
    rw [List.map_congr_left hname] at hrefs
    refine List.Nodup.of_map (fun id => refNameOf ((objectHex id).toOption.getD [])) ?_
    rw [List.map_map]
    exact hrefs
  refine ⟨_, by rw [listRefBackedObjects_run, hfound]; rfl, ?_, fun objectId => ?_⟩
  · let le := fun left right : ObjectListEntry => decide (left.objectId ≤ right.objectId)
    have htrans : ∀ a b c, le a b → le b c → le a c := fun a b c hab hbc =>
      decide_eq_true (String.le_trans (of_decide_eq_true hab) (of_decide_eq_true hbc))
    have htotal : ∀ a b, le a b || le b a := fun a b => by
      simpa [le] using String.le_total a.objectId b.objectId
    have hsorted := List.pairwise_mergeSort htrans htotal found
    have hperm := (List.mergeSort_perm found fun left right =>
      decide (left.objectId ≤ right.objectId)).map ObjectListEntry.objectId
    rw [List.pairwise_map]
    have hdistinct := List.pairwise_map.mp (hperm.nodup_iff.mpr hnodup)
    refine hsorted.imp₂ (fun a b hab hne => ?_) hdistinct
    exact lt_of_le_of_ne (of_decide_eq_true hab) hne
  · rw [List.mem_map]
    simp only [List.mem_mergeSort, hmem]
    constructor
    · rintro ⟨_, ⟨r, hr, o, hparse, hk, rfl⟩, rfl⟩
      exact ⟨r, hr, o, hparse, hk kind rfl, rfl⟩
    · rintro ⟨r, hr, o, hparse, hk, rfl⟩
      exact ⟨_, ⟨r, hr, o, hparse, fun expected he => hk.trans (Option.some.inj he), rfl⟩, rfl⟩

/-- What is read under a listed id is a copy of it, of the same kind. -/
theorem AllValid.sound (h : AllValid X s) (hsha : NoCollisions X s t) (ht : AllValid X t)
    {kind objectId : String} (hid : RefBackedOf X s kind objectId) :
    ∃ o, Sound X objectId o s ∧ HasCopy X s o ∧ o.kind = kind ∧ o.objectId = objectId := by
  obtain ⟨r, hr, o, hparse, rfl, rfl⟩ := hid
  obtain ⟨o₁, hex, hparse', hv, hhex, hname⟩ := h.refs r hr
  rw [hparse, Except.ok.injEq] at hparse'
  subst hparse'
  have href : s.refs[refNameOf hex]? = some r.2 := hname ▸ (mem_objectRefs.mp hr).1
  have hcopy : HasCopy X s o := .ref hr hparse
  cases hc : s.cache[cachePathOf hex]? with
  | none =>
    exact ⟨o, ⟨objectFieldDiagnostics_eq_nil_iff.mpr ⟨rfl, hv⟩, hex, r.2, hhex,
      by rw [content, hc, href]; rfl, hparse⟩, hcopy, rfl, rfl⟩
  | some b =>
    obtain ⟨o', ho', hv', hhex'⟩ := h.cache hex b (objectHex_length hhex) hc
    have hsame : o'.objectId = o.objectId := objectId_inj hv' hv hhex' hhex
    have hcopy' : HasCopy X s o' :=
      .cached (objectHex_length hhex) hc (readObjectBytes_of_ok ho')
    refine ⟨o', ⟨objectFieldDiagnostics_eq_nil_iff.mpr ⟨hsame, hv'⟩, hex, b, hhex,
      by rw [content, hc, Option.some_or], readObjectBytes_of_ok ho'⟩, hcopy', ?_, hsame⟩
    exact (hsha.agree h ht (.inl hcopy') (.inl hcopy) hsame).1

end RickydataGit.Git
