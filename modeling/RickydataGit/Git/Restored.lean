/-
  Stores in which every referenced object is cached.

  A store is `Restored` when no read would put a cache file back. Reading, listing and
  verifying leave such a store exactly as it is (`Restored.read_stays`,
  `Restored.verify_stays`). Verifying all that is listed makes a store `Restored`
  (`restored_verifiedAll`).
-/
import RickydataGit.Lib.Relational
import RickydataGit.Git.Verdicts

namespace RickydataGit.Git

open RickydataGit.Lib RickydataGit.Core

variable {X : Crates} {s s' : ObjectStore} {objectId : String} {hex : List Char} {bytes : Bytes}
  {o : CanonicalObject}

/-- Every referenced object that a read would put into the cache is there. -/
def Restored (X : Crates) (s : ObjectStore) : Prop :=
  ∀ objectId hex bytes o, ¬ Restores X s objectId hex bytes o

theorem Restored.verify_stays (h : Restored X s) (objectId : String) :
    Prog.Stays exec s (verifyCachedObject X objectId) :=
  verified_of_not_restores (h objectId)

theorem Restored.read_stays (h : Restored X s) (objectId : String) :
    Prog.Stays exec s (readCachedObject X objectId) := by
  rw [Prog.Stays]
  rcases hhex : objectHex objectId with e | hex
  · rw [readCachedObject_run_error s hhex]
  rw [readCachedObject_run s hhex]
  rcases hcache : s.cache[cachePathOf hex]? with _ | cached
  · rcases href : s.refs[refNameOf hex]? with _ | blob
    · rw [read_run_of_missing s hhex hcache href]
    · rw [read_run_of_ref s hhex hcache href]
      rcases hb : readObjectBytes X blob with e | object
      · rfl
      · have hf : (objectFieldDiagnostics X objectId object).1 ≠ [] := fun hf =>
          h objectId hex blob object ⟨hhex, hcache, href, hb, hf⟩
        simp only [hf, if_false]
  · rw [read_run_of_cache s hcache]
    rcases readObjectBytes X cached with e | object <;> rfl

theorem list_stays (X : Crates) (kind : Option String) (s : ObjectStore) :
    Prog.Stays exec s (listRefBackedObjects X kind) := by
  rw [Prog.Stays, listRefBackedObjects_run]

/-- Cache files are not removed by a verification. -/
theorem verified_cache (X : Crates) (objectId : String) (s : ObjectStore) (path : String)
    (h : (s.cache[path]?).isSome) : ((verified X objectId s).cache[path]?).isSome := by
  by_cases hr : ∃ hex bytes o, Restores X s objectId hex bytes o
  · obtain ⟨hex, bytes, o, hr⟩ := hr
    rw [hr.verified, ObjectStore.cache_writeCache]
    split
    · rfl
    · exact h
  · rw [verified_of_not_restores fun hex bytes o h' => hr ⟨hex, bytes, o, h'⟩]
    exact h

theorem verified_refs (X : Crates) (objectId : String) (s : ObjectStore) :
    (verified X objectId s).refs = s.refs :=
  (verifyCachedObject_keeps X objectId s).refs

/-- What is to be restored after some verifications was so before. -/
theorem Restores.before (h : Restores X s' objectId hex bytes o) (hrefs : s'.refs = s.refs)
    (hcache : ∀ path : String, (s.cache[path]?).isSome → (s'.cache[path]?).isSome) :
    Restores X s objectId hex bytes o where
  spelled := h.spelled
  uncached := by
    by_contra hne
    have hsome := hcache _ (Option.isSome_iff_ne_none.mpr hne)
    rw [h.uncached] at hsome
    cases hsome
  blob := by rw [← hrefs, h.blob]
  parsed := h.parsed
  fields := h.fields

/-- A verified object is not to be restored again. -/
theorem not_restores_verified (X : Crates) (objectId : String) (s : ObjectStore) (hex : List Char)
    (bytes : Bytes) (o : CanonicalObject) :
    ¬ Restores X (verified X objectId s) objectId hex bytes o := by
  intro h
  have hs := h.before (verified_refs X objectId s) (verified_cache X objectId s)
  have hcached := h.uncached
  rw [hs.verified, ObjectStore.cache_writeCache, if_pos rfl] at hcached
  cases hcached

/-- The store after each of the objects has been verified. -/
def verifiedAll (X : Crates) (objectIds : List String) (s : ObjectStore) : ObjectStore :=
  objectIds.foldl (fun s objectId => verified X objectId s) s

theorem verifiedAll_refs (X : Crates) (objectIds : List String) (s : ObjectStore) :
    (verifiedAll X objectIds s).refs = s.refs := by
  induction objectIds generalizing s with
  | nil => rfl
  | cons objectId rest ih => exact (ih _).trans (verified_refs X objectId s)

theorem verifiedAll_cache (X : Crates) (objectIds : List String) (s : ObjectStore) (path : String)
    (h : (s.cache[path]?).isSome) : ((verifiedAll X objectIds s).cache[path]?).isSome := by
  induction objectIds generalizing s with
  | nil => exact h
  | cons objectId rest ih => exact ih _ (verified_cache X objectId s path h)

theorem not_restores_verifiedAll (X : Crates) (objectIds : List String) (s : ObjectStore)
    (hmem : objectId ∈ objectIds) (hex : List Char) (bytes : Bytes) (o : CanonicalObject) :
    ¬ Restores X (verifiedAll X objectIds s) objectId hex bytes o := by
  induction objectIds generalizing s with
  | nil => cases hmem
  | cons first rest ih =>
    rcases List.mem_cons.mp hmem with rfl | hmem
    · intro h
      exact not_restores_verified X objectId s hex bytes o
        (h.before (verifiedAll_refs X rest _) (verifiedAll_cache X rest _))
    · exact ih _ hmem

theorem listEntries_complete {refs : List (String × Bytes)} {entries : List ObjectListEntry}
    (h : listEntries X none refs = .ok entries) {r : String × Bytes} (hr : r ∈ refs)
    (ho : readObjectBytes X r.2 = .ok o) : ∃ entry ∈ entries, entry.objectId = o.objectId := by
  induction refs generalizing entries with
  | nil => cases hr
  | cons first rest ih =>
    unfold listEntries at h
    rcases hobject : readObjectBytes X first.2 with e | object
    · rw [hobject] at h
      cases h
    rcases hrest : listEntries X none rest with e | restEntries
    · rw [hobject, hrest] at h
      cases h
    rw [hobject, hrest] at h
    obtain rfl := Except.ok.inj h
    rcases List.mem_cons.mp hr with rfl | hr
    · rw [← Except.ok.inj (hobject.symm.trans ho)]
      exact ⟨_, List.mem_cons_self, rfl⟩
    · obtain ⟨entry, he, hid⟩ := ih hrest hr
      exact ⟨entry, List.mem_cons_of_mem _ he, hid⟩

/-- Verifying everything that is listed restores everything. -/
theorem restored_verifiedAll {entries : List ObjectListEntry}
    (h : ((listRefBackedObjects X none).run exec s).1 = .ok entries) :
    Restored X (verifiedAll X (entries.map ObjectListEntry.objectId) s) := by
  intro objectId hex bytes o hr
  have hblob := hr.blob
  rw [verifiedAll_refs] at hblob
  rw [listRefBackedObjects_run] at h
  rcases hl : listEntries X none (objectRefs s) with e | found
  · rw [hl] at h
    cases h
  rw [hl] at h
  obtain rfl := Except.ok.inj h
  obtain ⟨entry, he, hid⟩ :=
    listEntries_complete hl (mem_objectRefs_refNameOf.mpr hblob) hr.parsed
  rw [(objectFieldDiagnostics_eq_nil_iff.mp hr.fields).1] at hid
  have hmem : objectId ∈ (found.mergeSort fun left right =>
      decide (left.objectId ≤ right.objectId)).map ObjectListEntry.objectId :=
    List.mem_map.mpr ⟨entry, List.mem_mergeSort.mpr he, hid⟩
  exact not_restores_verifiedAll X _ s hmem hex bytes o hr

end RickydataGit.Git
