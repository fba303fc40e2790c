/-
  What reads find on a store without faults.

  The file store lists the ids of the files there are (`mem_listed`), each once
  (`listed_nodup`), and reads each of them (`run_readObject`, `run_readObjects`). The
  bucket store reads what was accepted for the repository (`run_readStored`,
  `run_readAll`).
-/
import RickydataGit.Relay.FilePush
import RickydataGit.Relay.GcsPush

namespace RickydataGit.Relay

open RickydataGit.Lib RickydataGit.Core

/-! ## Directories -/

namespace Files

theorem mem_entries {s : Files} {dir : Path} {entry : DirEntry} :
    entry ∈ s.entries dir ↔ ∃ path, s[path]? ≠ none ∧ entryOf dir path = some entry := by
  simp only [entries, List.mem_dedup, List.mem_filterMap, mem_keys_iff]

theorem entryOf_file (dir : Path) (name : String) :
    entryOf dir (dir ++ [name]) = some ⟨name, false⟩ := by
  simp [entryOf]

theorem entryOf_dir (dir : Path) (name next : String) (rest : Path) :
    entryOf dir (dir ++ name :: next :: rest) = some ⟨name, true⟩ := by
  simp [entryOf]

/-- The path of an entry goes through the directory, and on if the entry is one. -/
theorem eq_of_entryOf {dir path : Path} {entry : DirEntry} (h : entryOf dir path = some entry) :
    ∃ rest, path = dir ++ entry.name :: rest ∧ (entry.isDir = true ↔ rest ≠ []) := by
  unfold entryOf at h
  split at h
  · next hpre =>
      obtain ⟨rest, rfl⟩ := List.isPrefixOf_iff_prefix.mp hpre
      rw [List.drop_left] at h
      rcases rest with _ | ⟨name, _ | ⟨next, rest⟩⟩
      · cases h
      · cases h
        exact ⟨[], rfl, by simp⟩
      · cases h
        exact ⟨next :: rest, rfl, by simp⟩
  · cases h

end Files

/-! ## The file store -/

namespace FileRelayStore

section Listing

variable {X : Crates} {P : String → CanonicalObject → Prop} {s : Files} {repoId : String}

theorem entryObjectId_file (hex : List Char) :
    entryObjectId ⟨.ofList hex ++ ".json", false⟩ = some ("sha256:" ++ .ofList hex) := by
  have hlist : (String.ofList hex ++ ".json").toList = hex ++ ".json".toList := by
    rw [String.toList_append, String.toList_ofList]
  have hlength : (String.ofList hex ++ ".json").length - 5 = hex.length := by
    rw [← String.length_toList, hlist, List.length_append]
    rfl
  unfold entryObjectId
  rw [if_neg Bool.false_ne_true, hlist, hlength, if_pos, List.take_left]
  exact List.isSuffixOf_iff_suffix.mpr (List.suffix_append _ _)

/-- An entry that stands for an id is a file with its digits. -/
theorem eq_of_entryObjectId {entry : DirEntry} {objectId : String}
    (h : entryObjectId entry = some objectId) :
    ∃ hex, entry = ⟨.ofList hex ++ ".json", false⟩ ∧ objectId = "sha256:" ++ .ofList hex := by
  have hentry : ∃ hex, entry = ⟨.ofList hex ++ ".json", false⟩ := by
    rcases entry with ⟨name, isDir⟩
    unfold entryObjectId at h
    rcases isDir with _ | _
    · rw [if_neg Bool.false_ne_true] at h
      split at h
      · next hsuffix =>
          obtain ⟨hex, hname⟩ := List.isSuffixOf_iff_suffix.mp hsuffix
          refine ⟨hex, congrArg (DirEntry.mk · false) (String.toList_inj.mp ?_)⟩
          rw [String.toList_append, String.toList_ofList]
          exact hname.symm
      · cases h
    · cases h
  obtain ⟨hex, rfl⟩ := hentry
  rw [entryObjectId_file] at h
  exact ⟨hex, rfl, (Option.some.inj h).symm⟩

/-- Every file is at the path of an object or of a record. -/
def KnownPaths (X : Crates) (s : Files) : Prop :=
  ∀ path bytes, s[path]? = some bytes →
    (∃ repoId objectId hex, objectDigits objectId = .ok hex ∧ path = objectFile X repoId hex) ∨
      ∃ repoId idempotencyKey, path = idempotencyPath X repoId idempotencyKey

theorem knownPaths_of_entries (hs : Entries (FileEntry X P) s) : KnownPaths X s := by
  intro path bytes hb
  rcases hs _ _ hb with ⟨r, object, hex, -, hd, hpath, -⟩ | ⟨r, key, report, hpath, -⟩
  · exact .inl ⟨r, _, hex, hd, hpath⟩
  · exact .inr ⟨r, key, hpath⟩

/-- What lies below the objects of a repository is the file of an object. -/
theorem file_below (hs : KnownPaths X s) {shard name : String} {rest : Path}
    (h : s[objectsDir X repoId ++ shard :: name :: rest]? ≠ none) :
    ∃ objectId hex, objectDigits objectId = .ok hex ∧ shard = .ofList (hex.take 2) ∧
      name = .ofList hex ++ ".json" ∧ rest = [] := by
  obtain ⟨bytes, hb⟩ := Option.ne_none_iff_exists'.mp h
  rcases hs _ _ hb with ⟨r, objectId, hex, hd, hpath⟩ | ⟨r, key, hpath⟩
  · simp only [objectFile, objectsDir, repoDir, List.cons_append, List.nil_append,
      List.cons.injEq] at hpath
    obtain ⟨-, -, -, -, hshard, hname, hrest⟩ := hpath
    exact ⟨objectId, hex, hd, hshard, hname, hrest⟩
  · simp [objectsDir, repoDir, idempotencyPath] at hpath

theorem mem_shardIds {dir : Path} {shards : List DirEntry} {objectId : String} :
    objectId ∈ shardIds s dir shards ↔ ∃ shard ∈ shards, shard.isDir = true ∧
      ∃ entry ∈ s.entries (dir ++ [shard.name]), entryObjectId entry = some objectId := by
  simp only [shardIds, List.mem_flatMap]
  refine exists_congr fun shard => and_congr_right fun _ => ?_
  split
  · next hd => simp [hd]
  · next hd => simp [hd]

/-- An id found in a directory is that of a file there. -/
theorem file_of_entry (hs : KnownPaths X s) {shard objectId : String} {entry : DirEntry}
    (he : entry ∈ s.entries (objectsDir X repoId ++ [shard]))
    (hid : entryObjectId entry = some objectId) :
    ∃ hex, objectDigits objectId = .ok hex ∧ shard = .ofList (hex.take 2) ∧
      entry = ⟨.ofList hex ++ ".json", false⟩ ∧ s[objectFile X repoId hex]? ≠ none := by
  obtain ⟨path, hp, hentry⟩ := Files.mem_entries.mp he
  obtain ⟨rest, rfl, hdir⟩ := Files.eq_of_entryOf hentry
  rw [List.append_assoc, List.singleton_append] at hp
  obtain ⟨id, hex, hd, rfl, hname, rfl⟩ := file_below hs hp
  obtain ⟨hex', rfl, rfl⟩ := eq_of_entryObjectId hid
  obtain rfl : hex' = hex := ofList_inj (String.append_left_inj _ |>.mp hname)
  rw [eq_of_objectDigits hd] at hd
  exact ⟨hex', hd, rfl, rfl, hp⟩

/-- The directory an id is found in is that of its digits. -/
theorem shard_of_mem (hs : KnownPaths X s) {shard : DirEntry} {objectId : String}
    (h : objectId ∈ shardIds s (objectsDir X repoId) [shard]) :
    ∃ hex, objectDigits objectId = .ok hex ∧ shard = ⟨.ofList (hex.take 2), true⟩ := by
  obtain ⟨shard', hmem, hdir, entry, he, hid⟩ := mem_shardIds.mp h
  obtain rfl := List.mem_singleton.mp hmem
  obtain ⟨hex, hd, hname, -, -⟩ := file_of_entry hs he hid
  rcases shard' with ⟨name, isDir⟩
  exact ⟨hex, hd, DirEntry.mk.injEq .. |>.mpr ⟨hname, hdir⟩⟩

theorem listed_eq (X : Crates) (s : Files) (repoId : String) :
    listed X s repoId =
      sorted (shardIds s (objectsDir X repoId) (s.entries (objectsDir X repoId))) := by
  unfold listed
  split
  · next he =>
      rw [List.isEmpty_iff.mp he]
      exact (List.mergeSort_nil).symm
  · rfl

/-- The ids listed are those of the files there are. -/
theorem mem_listed_of_paths (hs : KnownPaths X s) {objectId : String} :
    objectId ∈ listed X s repoId ↔ Present X repoId s objectId := by
  rw [listed_eq, mem_sorted, mem_shardIds]
  constructor
  · rintro ⟨shard, -, -, entry, he, hid⟩
    obtain ⟨hex, hd, -, -, hp⟩ := file_of_entry hs he hid
    obtain ⟨bytes, hb⟩ := Option.ne_none_iff_exists'.mp hp
    exact ⟨_, bytes, objectPath_eq hd, hb⟩
  · rintro ⟨path, bytes, hpath, hb⟩
    obtain ⟨hex, hd, rfl⟩ := objectPath_ok hpath
    have hp : s[objectFile X repoId hex]? ≠ none := by
      rw [hb]
      exact Option.some_ne_none bytes
    refine ⟨⟨.ofList (hex.take 2), true⟩, Files.mem_entries.mpr ⟨_, hp, ?_⟩, rfl,
      ⟨.ofList hex ++ ".json", false⟩, Files.mem_entries.mpr ⟨_, hp, ?_⟩, ?_⟩
    · exact Files.entryOf_dir _ _ _ []
    · rw [objectFile, List.append_cons]
      exact Files.entryOf_file _ _
    · rw [entryObjectId_file, ← eq_of_objectDigits hd]

theorem mem_listed (hs : Entries (FileEntry X P) s) {objectId : String} :
    objectId ∈ listed X s repoId ↔ Present X repoId s objectId :=
  mem_listed_of_paths (knownPaths_of_entries hs)

theorem listed_nodup_of_paths (hs : KnownPaths X s) : (listed X s repoId).Nodup := by
  rw [listed_eq, sorted, (List.mergeSort_perm _ _).nodup_iff, shardIds, List.nodup_flatMap]
  refine ⟨fun shard _ => ?_, (List.nodup_dedup _).imp_of_mem fun {a b} _ _ hab => ?_⟩
  · split
    · refine (List.nodup_dedup _).filterMap fun entry entry' objectId he he' => ?_
      obtain ⟨hex, rfl, rfl⟩ := eq_of_entryObjectId he
      obtain ⟨hex', rfl, hid⟩ := eq_of_entryObjectId he'
      rw [ofList_inj (String.append_right_inj _ |>.mp hid)]
    · exact List.nodup_nil
  · intro objectId ha hb
    have hsingle : ∀ shard, objectId ∈ _ → objectId ∈ shardIds s (objectsDir X repoId) [shard] :=
      fun shard h => List.mem_flatMap.mpr ⟨shard, List.mem_singleton_self _, h⟩
    obtain ⟨hex, hd, rfl⟩ := shard_of_mem hs (hsingle a ha)
    obtain ⟨hex', hd', rfl⟩ := shard_of_mem hs (hsingle b hb)
    rw [hd] at hd'
    exact hab (Except.ok.inj hd' ▸ rfl)

theorem listed_nodup (hs : Entries (FileEntry X P) s) : (listed X s repoId).Nodup :=
  listed_nodup_of_paths (knownPaths_of_entries hs)

end Listing

section Run

variable {X : Crates} {s : Files} {repoId : String}

theorem run_listShards (s : Files) (dir : Path) (shards : List DirEntry) :
    (listShards dir shards).run Files.exec s = (.ok (shardIds s dir shards), s) := by
  induction shards with
  | nil => rfl
  | cons shard rest ih =>
    unfold listShards
    rw [shardIds, List.flatMap_cons, ← shardIds]
    by_cases hd : shard.isDir = true
    · rw [if_neg (by simp [hd]), run_readDir, Prog.run_bind_ok _ ih, if_pos hd]
      rfl
    · rw [if_pos (by simpa using hd), if_neg hd]
      exact ih

theorem run_listObjectIds (s : Files) (repoId : String) :
    (listObjectIds X repoId).run Files.exec s = (.ok (listed X s repoId), s) := by
  unfold listObjectIds listed
  dsimp only
  rw [run_dirExists]
  by_cases he : (s.entries (objectsDir X repoId)).isEmpty = true
  · rw [if_pos (by simpa using he), if_pos he]
    rfl
  · rw [if_neg (by simpa using he), if_neg he, run_readDir, Prog.run_bind_ok _ (run_listShards s _ _)]
    rfl

/-- A file that holds an object is read as its canonical form. -/
theorem run_readObject (hX : ReadsBack X) {objectId : String} {path : Path} {o : CanonicalObject}
    (hpath : objectPath X repoId objectId = .ok path)
    (hb : s[path]? = some (canonicalObjectBytes X o)) :
    (readObject X repoId objectId).run Files.exec s = (.ok o.canonical, s) := by
  have hread : (fsRead path).run Files.exec s = (.ok (canonicalObjectBytes X o), s) := by
    rw [run_fsRead, hb]
    rfl
  unfold readObject readObjectFile
  rw [run_objectPath hpath, Prog.run_bind_ok _ hread, Prog.run_ofExcept,
    storedObjectFromSlice_canonicalObjectBytes hX]

/-- A file at the path of an id holds the object of that id. -/
theorem exists_object_of_present {P : String → CanonicalObject → Prop}
    (hs : Entries (FileEntry X P) s) {objectId : String} (h : Present X repoId s objectId) :
    ∃ path o, objectPath X repoId objectId = .ok path ∧ o.objectId = objectId ∧
      s[path]? = some (canonicalObjectBytes X o) ∧ ∃ r, keyHash X r = keyHash X repoId ∧ P r o := by
  obtain ⟨path, bytes, hpath, hb⟩ := h
  obtain ⟨hex, hd, rfl⟩ := objectPath_ok hpath
  rcases hs _ _ hb with ⟨r, o, hex', hP, hd', hfile, rfl⟩ | ⟨r, key, report, hfile, -⟩
  · obtain ⟨hr, rfl⟩ := objectFile_inj hfile
    exact ⟨_, o, hpath, objectDigits_inj hd' hd, hb, r, hr.symm, hP⟩
  · exact absurd hfile (objectFile_ne_idempotencyPath _ _ _ _)

theorem run_readObjects {ids : List String} {objects : List CanonicalObject}
    (h : List.Forall₂ (fun objectId object =>
      (readObject X repoId objectId).run Files.exec s = (.ok object, s)) ids objects) :
    (readObjects X repoId ids).run Files.exec s = (.ok objects, s) := by
  induction h with
  | nil => rfl
  | cons hread _ ih =>
    unfold readObjects
    rw [Prog.run_bind_ok _ hread, Prog.run_bind_ok _ ih]
    rfl

end Run

section Every

variable {X : Crates} {E : Path → Bytes → Prop} {repoId : String}

theorem every_readDir (path : Path) : (readDir path).Every (Writes E) :=
  ⟨trivial, every_ioResult⟩

theorem every_listShards (dir : Path) (shards : List DirEntry) :
    (listShards dir shards).Every (Writes E) := by
  induction shards with
  | nil => trivial
  | cons shard rest ih =>
    unfold listShards
    split
    · exact ih
    · exact Prog.every_bind (every_readDir _) fun _ => Prog.every_bind ih fun _ => trivial

theorem every_listObjectIds : (listObjectIds X repoId).Every (Writes E) := by
  refine ⟨trivial, fun found => ?_⟩
  show (if !found then _ else _ : FileProg _).Every _
  split
  · trivial
  · exact Prog.every_bind (every_readDir _) fun _ =>
      Prog.every_bind (every_listShards _ _) fun _ => trivial

theorem every_readObject (objectId : String) : (readObject X repoId objectId).Every (Writes E) :=
  Prog.every_bind (Prog.every_ofExcept _) fun path =>
    Prog.every_bind (every_fsRead path) fun _ => Prog.every_ofExcept _

theorem every_readObjects (ids : List String) : (readObjects X repoId ids).Every (Writes E) := by
  induction ids with
  | nil => trivial
  | cons id rest ih =>
    exact Prog.every_bind (every_readObject id) fun _ => Prog.every_bind ih fun _ => trivial

theorem every_pullBundle (request : BundlePullRequest) :
    (pullBundle X request).Every (Writes E) :=
  Prog.every_bind every_listObjectIds fun _ => Prog.every_bind (every_readObjects _) fun _ => trivial

/-- A program that may write nothing leaves the store as it is. -/
theorem run_unchanged {α : Type} {p : FileProg α} (h : p.Every (Writes fun _ _ => False))
    (s : Files) : (p.run Files.exec s).2 = s := by
  refine Prog.run_frame (I := fun t => t = s) (fun o ho t ht => ?_) h rfl
  rcases o with path | path | ⟨path, bytes⟩ | path | path
  · exact ht
  · exact ht
  · exact ho.elim
  · exact ht
  · exact ht

end Every

end FileRelayStore

/-! ## The bucket store -/

namespace GcsRelayStore

variable {X : Crates} {policy : Policy} {s : Bucket} {repoId : String}

/-- A name that holds an object accepted for the repository is read as its canonical form. -/
theorem run_readStored (hX : ReadsBack X) {name : String} {o : CanonicalObject}
    (hb : s[name]? = some (canonicalObjectBytes X o)) (ha : Accepted X policy repoId o) :
    (readStored X policy repoId name).run Bucket.exec s = (.ok o.canonical, s) := by
  have hget : (getBytes name).run Bucket.exec s = (.ok (canonicalObjectBytes X o), s) := by
    rw [run_getBytes, hb]
    rfl
  have hparse : (liftM (storedObjectFromSlice X (canonicalObjectBytes X o)) :
      BucketProg CanonicalObject).run Bucket.exec s = (.ok o.canonical, s) := by
    rw [Prog.run_ofExcept, storedObjectFromSlice_canonicalObjectBytes hX]
  have hcheck : (liftM (validateStoredObject X policy repoId o.canonical) : BucketProg Unit).run
      Bucket.exec s = (.ok (), s) := by
    rw [Prog.run_ofExcept, validateStoredObject_iff.mpr ha.canonical]
  unfold readStored
  rw [Prog.run_bind_ok _ hget, Prog.run_bind_ok _ hparse, Prog.run_bind_ok _ hcheck]
  rfl

theorem run_readAll {names : List String} {objects : List CanonicalObject}
    (h : List.Forall₂ (fun name object =>
      (readStored X policy repoId name).run Bucket.exec s = (.ok object, s)) names objects) :
    (readAll X policy repoId names).run Bucket.exec s = (.ok objects, s) := by
  induction h with
  | nil => rfl
  | cons hread _ ih =>
    unfold readAll
    rw [Prog.run_bind_ok _ hread, Prog.run_bind_ok _ ih]
    rfl

section Every

variable {E : String → Bytes → Prop}

theorem every_readStored (name : String) :
    (readStored X policy repoId name).Every (Writes E) :=
  Prog.every_bind (every_getBytes name) fun _ => Prog.every_bind (Prog.every_ofExcept _) fun _ =>
    Prog.every_bind (Prog.every_ofExcept _) fun _ => trivial

theorem every_readAll (names : List String) : (readAll X policy repoId names).Every (Writes E) := by
  induction names with
  | nil => trivial
  | cons name rest ih =>
    exact Prog.every_bind (every_readStored name) fun _ => Prog.every_bind ih fun _ => trivial

theorem every_pullBundle (request : BundlePullRequest) :
    (pullBundle X policy request).Every (Writes E) :=
  Prog.every_bind (every_listNames _) fun _ => Prog.every_bind (every_readAll _) fun _ => trivial

/-- A program that may write nothing leaves the bucket as it is. -/
theorem run_unchanged {α : Type} {p : BucketProg α} (h : p.Every (Writes fun _ _ => False))
    (s : Bucket) : (p.run Bucket.exec s).2 = s := by
  refine Prog.run_frame (I := fun t => t = s) (fun o ho t ht => ?_) h rfl
  rcases o with _ | name | ⟨name, bytes⟩ | listPrefix
  · exact ht
  · exact ht
  · exact ho.elim
  · exact ht

/-- As many objects are read as there are names. -/
theorem length_of_run_readAll {names : List String} {objects : List CanonicalObject} {s' : Bucket}
    (h : (readAll X policy repoId names).run Bucket.exec s = (.ok objects, s')) :
    objects.length = names.length := by
  have hruns := Prog.runs_run bucketStep_exec (readAll X policy repoId names) s
  rw [h] at hruns
  exact (runs_readAll hruns).2.length_eq.symm

end Every

end GcsRelayStore

end RickydataGit.Relay
