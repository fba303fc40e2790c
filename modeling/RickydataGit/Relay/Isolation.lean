/-
  What a relay keeps apart: repositories on one store.

  `Apart` : pushes addressed to one repository, put in or left out of any history,
  change nothing that any call addressed to the other is answered.

  The file store names a directory by the hash of the repository id, and a call stays
  in its directory (`every_call`), so it is a matter of the two hashes
  (`file_isolated_iff`).
-/
import RickydataGit.Lib.Noninterference
import RickydataGit.Relay.Reading

namespace RickydataGit.Relay

open RickydataGit.Lib RickydataGit.Core

/-- Pushes to `other` are invisible to the calls for `repoId`, in every history from
    every store. -/
def Apart {O : Ops} {σ : Type} (store : RelayStore O) (exec : (o : O.Op) → σ → O.Ans o × σ)
    (repoId other : String) : Prop :=
  ∀ s, Isolated (store.answer exec) (RelayCall.IsPushTo other)
    (fun c => c.repoId = repoId) s

section Apart

variable {O : Ops} {σ : Type} {store : RelayStore O} {exec : (o : O.Op) → σ → O.Ans o × σ}
  {repoId other : String}

theorem RelayCall.repoId_of_isPushTo {c : RelayCall} (h : c.IsPushTo other) :
    c.repoId = other := by
  cases c with
  | push request => exact h
  | validate _ | pull _ | read _ _ | list _ | status _ => exact h.elim

/-- A history of one push and what comes after it shows whether the push is seen. -/
theorem Apart.after_push (h : Apart store exec repoId other) (hne : repoId ≠ other)
    (request : BundlePushRequest) (hr : request.repoId = other) (c : RelayCall)
    (hc : c.repoId = repoId) (s : σ) :
    (store.answer exec c (store.answer exec (.push request) s).2).1 =
      (store.answer exec c s).1 := by
  have hcall : ¬ c.IsPushTo other := fun hp =>
    hne (hc.symm.trans (RelayCall.repoId_of_isPushTo hp))
  have hpush : RelayCall.IsPushTo other (.push request) := hr
  have hsame := h s [.push request, c] [c] (by
    rw [List.filter_cons_of_neg (by simpa using hpush)])
  have hunseen : ¬ (RelayCall.push request).repoId = repoId := fun he => hne (he.symm.trans hr)
  rw [observed_cons, if_neg hunseen, observed_cons, if_pos hc, observed_cons, if_pos hc] at hsame
  exact congrArg Prod.snd (List.cons.inj hsame).1

end Apart

/-- A push of nothing. -/
def emptyPush (repoId : String) : BundlePushRequest := ⟨repoId, "k", []⟩

theorem exists_validated_emptyPush (X : Crates) (policy : Policy) (repoId : String) :
    ∃ validation, bundleValidationReport X policy (emptyPush repoId) = .ok validation :=
  bundleValidationReport_of_accepted (by simp [emptyPush])

/-! ## The file store -/

namespace FileRelayStore

/-- An access in a directory. -/
def Inside (dir : Path) : FileOp → Prop
  | .fileExists path | .readFile path | .writeFile path _ | .dirExists path | .readDir path =>
    dir <+: path

/-- The same files in a directory. -/
def SameIn (dir : Path) (s t : Files) : Prop := ∀ path, dir <+: path → s[path]? = t[path]?

section Accesses

variable {X : Crates} {dir : Path} {s t : Files}

theorem entries_congr (h : SameIn dir s t) {path : Path} (hp : dir <+: path) :
    s.entries path = t.entries path := by
  unfold Files.entries
  rw [keys_filterMap_congr]
  intro below hbelow
  obtain ⟨entry, he⟩ := Option.isSome_iff_exists.mp hbelow
  obtain ⟨rest, rfl, -⟩ := Files.eq_of_entryOf he
  exact h _ (hp.trans (List.prefix_append _ _))

theorem exec_congr {o : fileOps.Op} (ho : Inside dir o) (s t : Files) (h : SameIn dir s t) :
    (Files.exec o s).1 = (Files.exec o t).1 ∧ SameIn dir (Files.exec o s).2 (Files.exec o t).2 := by
  rcases o with path | path | ⟨path, bytes⟩ | path | path
  · exact ⟨congrArg Option.isSome (h path ho), h⟩
  · exact ⟨congrArg foundFile (h path ho), h⟩
  · refine ⟨rfl, fun p hp => ?_⟩
    show (s.insert path bytes)[p]? = (t.insert path bytes)[p]?
    rw [getElem?_insert_eq, getElem?_insert_eq, h p hp]
  · have he := entries_congr h ho
    exact ⟨congrArg (fun es : List DirEntry => !es.isEmpty) he, h⟩
  · exact ⟨congrArg Except.ok (entries_congr h ho), h⟩

/-- Accesses in another directory change nothing in this one. -/
theorem exec_other {dir' : Path} (hd : ∀ path, dir' <+: path → ¬ dir <+: path) {o : fileOps.Op}
    (ho : Inside dir' o) (s : Files) (h : SameIn dir s t) : SameIn dir (Files.exec o s).2 t := by
  rcases o with path | path | ⟨path, bytes⟩ | path | path
  · exact h
  · exact h
  · intro p hp
    show (s.insert path bytes)[p]? = _
    rw [getElem?_insert_eq, if_neg, h p hp]
    rintro rfl
    exact hd path ho hp
  · exact h
  · exact h

theorem repoDir_prefix_objectsDir (repoId : String) : repoDir X repoId <+: objectsDir X repoId :=
  List.prefix_append _ _

theorem repoDir_prefix_objectFile (repoId : String) (hex : List Char) :
    repoDir X repoId <+: objectFile X repoId hex :=
  (repoDir_prefix_objectsDir repoId).trans (List.prefix_append _ _)

theorem repoDir_prefix_objectPath {repoId objectId : String} {path : Path}
    (h : objectPath X repoId objectId = .ok path) : repoDir X repoId <+: path := by
  obtain ⟨hex, -, rfl⟩ := objectPath_ok h
  exact repoDir_prefix_objectFile repoId hex

/-- Nothing lies in the directories of two ids with different hashes. -/
theorem not_in_both {repoId other : String} (h : keyHash X repoId ≠ keyHash X other) (path : Path)
    (ho : repoDir X other <+: path) : ¬ repoDir X repoId <+: path := by
  rintro ⟨rest, rfl⟩
  obtain ⟨rest', he⟩ := ho
  simp only [repoDir, List.cons_append, List.nil_append, List.cons.injEq, true_and] at he
  exact h he.1.symm

end Accesses

section Calls

variable {X : Crates} {repoId : String}

theorem inside_readObject (objectId : String) :
    (readObject X repoId objectId).Every (Inside (repoDir X repoId)) := by
  unfold readObject
  rcases hp : objectPath X repoId objectId with e | path
  · trivial
  · exact ⟨repoDir_prefix_objectPath hp, fun bytes =>
      Prog.every_bind (every_ioResult bytes) fun _ => Prog.every_ofExcept _⟩

theorem inside_readObjects (ids : List String) :
    (readObjects X repoId ids).Every (Inside (repoDir X repoId)) := by
  induction ids with
  | nil => trivial
  | cons id rest ih =>
    exact Prog.every_bind (inside_readObject id) fun _ => Prog.every_bind ih fun _ => trivial

theorem inside_listShards (shards : List DirEntry) :
    (listShards (objectsDir X repoId) shards).Every (Inside (repoDir X repoId)) := by
  induction shards with
  | nil => trivial
  | cons shard rest ih =>
    unfold listShards
    split
    · exact ih
    · refine Prog.every_bind ⟨?_, every_ioResult⟩ fun _ => Prog.every_bind ih fun _ => trivial
      exact (repoDir_prefix_objectsDir repoId).trans (List.prefix_append _ _)

theorem inside_listObjectIds :
    (listObjectIds X repoId).Every (Inside (repoDir X repoId)) := by
  refine ⟨repoDir_prefix_objectsDir repoId, fun found => ?_⟩
  show (if !found then _ else _ : FileProg _).Every _
  split
  · trivial
  · exact Prog.every_bind ⟨repoDir_prefix_objectsDir repoId, every_ioResult⟩ fun _ =>
      Prog.every_bind (inside_listShards _) fun _ => trivial

theorem inside_checkObjects (objects : List CanonicalObject) :
    (checkObjects X repoId objects).Every (Inside (repoDir X repoId)) := by
  induction objects with
  | nil => trivial
  | cons object rest ih =>
    unfold checkObjects
    rcases hp : objectPath X repoId object.objectId with e | path
    · trivial
    · have hin := repoDir_prefix_objectPath hp
      refine ⟨hin, fun found => ?_⟩
      show (if found then _ else _ : FileProg _).Every _
      split
      · refine Prog.every_bind ⟨hin, every_ioResult⟩ fun existing => ?_
        split
        · trivial
        · exact ih
      · exact ih

theorem inside_writeObjects (objects : List CanonicalObject) (accepted duplicate : UInt64) :
    (writeObjects X repoId accepted duplicate objects).Every (Inside (repoDir X repoId)) := by
  induction objects generalizing accepted duplicate with
  | nil => trivial
  | cons object rest ih =>
    unfold writeObjects
    rcases hp : objectPath X repoId object.objectId with e | path
    · trivial
    · have hin := repoDir_prefix_objectPath hp
      refine ⟨hin, fun found => ?_⟩
      show (if found then _ else _ : FileProg _).Every _
      split
      · exact ih _ _
      · exact Prog.every_bind ⟨hin, every_ioResult⟩ fun _ => ih _ _

theorem inside_pushValidated (request : BundlePushRequest) (validation : BundleValidationReport) :
    (pushValidated X request validation).Every (Inside (repoDir X request.repoId)) := by
  have hrecord : repoDir X request.repoId <+:
      idempotencyPath X request.repoId request.idempotencyKey := List.prefix_append _ _
  refine ⟨hrecord, fun found => ?_⟩
  show (if found then _ else _ : FileProg _).Every _
  split
  · exact Prog.every_bind ⟨hrecord, every_ioResult⟩ fun _ => Prog.every_ofExcept _
  · exact Prog.every_bind (inside_checkObjects _) fun _ =>
      Prog.every_bind (inside_writeObjects _ 0 0) fun _ =>
        Prog.every_bind ⟨hrecord, every_ioResult⟩ fun _ => trivial

/-- A call stays in the directory of its repository. -/
theorem every_call (policy : Policy) (c : RelayCall) :
    ((fileRelayStore X policy).call c).Every (Inside (repoDir X c.repoId)) := by
  cases c with
  | validate request => exact Prog.every_bind (Prog.every_ofExcept _) fun _ => trivial
  | push request =>
    exact Prog.every_bind (Prog.every_bind (Prog.every_ofExcept _) fun validation =>
      inside_pushValidated request validation) fun _ => trivial
  | pull request =>
    exact Prog.every_bind (Prog.every_bind inside_listObjectIds fun _ =>
      Prog.every_bind (inside_readObjects _) fun _ => trivial) fun _ => trivial
  | read repoId objectId => exact Prog.every_bind (inside_readObject objectId) fun _ => trivial
  | list repoId => exact Prog.every_bind inside_listObjectIds fun _ => trivial
  | status repoId =>
    exact Prog.every_bind (Prog.every_bind inside_listObjectIds fun _ => trivial) fun _ => trivial

end Calls

section Isolation

variable {X : Crates} {policy : Policy} {repoId other : String}

/-- Ids with different hashes do not see each other. -/
theorem apart_of_hashes (h : keyHash X repoId ≠ keyHash X other) :
    Apart (fileRelayStore X policy) Files.exec repoId other := by
  intro s
  refine isolated_of_unwinding (SameIn (repoDir X repoId)) ?_ ?_ ?_ ?_ fun _ _ => rfl
  · intro c hpush hc
    exact h (by rw [← hc, RelayCall.repoId_of_isPushTo hpush])
  · intro c hpush s t hst
    have hin := every_call (X := X) policy c
    rw [RelayCall.repoId_of_isPushTo hpush] at hin
    exact Prog.run_frame (I := fun u => SameIn (repoDir X repoId) u t)
      (fun o ho u hu => exec_other (not_in_both h) ho u hu) hin hst
  · intro c _ s t hst
    by_cases hc : keyHash X repoId = keyHash X c.repoId
    · have hdir : repoDir X c.repoId = repoDir X repoId := by rw [repoDir, repoDir, hc]
      exact (Prog.agrees_of_every (fun o ho => exec_congr ho) (hdir ▸ every_call policy c) s t
        hst).2
    · intro path hp
      have hkeep : ∀ u, SameIn (repoDir X repoId)
          ((fileRelayStore X policy).answer Files.exec c u).2 u := fun u =>
        Prog.run_frame (I := fun v => SameIn (repoDir X repoId) v u)
          (fun o ho v hv => exec_other (not_in_both hc) ho v hv) (every_call policy c) fun _ _ => rfl
      rw [hkeep s path hp, hkeep t path hp, hst path hp]
  · rintro c rfl s t hst
    exact (Prog.agrees_of_every (fun o ho => exec_congr ho) (every_call policy c) s t hst).1

/-- A push of nothing under a free key leaves its record. -/
theorem run_emptyPush (X : Crates) (policy : Policy) (repoId : String) {s : Files}
    (h : s[idempotencyPath X repoId "k"]? = none) :
    ∃ report : BundlePushReport, report.repoId = repoId ∧
      (pushBundle X policy (emptyPush repoId)).run Files.exec s =
        (.ok report, s.insert (idempotencyPath X repoId "k") (recordBytes X report)) := by
  obtain ⟨validation, hv⟩ := exists_validated_emptyPush X policy repoId
  refine ⟨pushReport (emptyPush repoId) 0 0 validation.objectIds validation.bundleHash, rfl, ?_⟩
  have hrecord : s[idempotencyPath X (emptyPush repoId).repoId
    (emptyPush repoId).idempotencyKey]? = none := h
  rw [run_push hv]
  unfold pushValidated
  rw [run_pathExists, hrecord]
  rfl

/-- Under one hash a push to one is answered from the record of a push to the other. -/
theorem hashes_of_apart (hX : ReadsBack X) (hne : repoId ≠ other)
    (h : Apart (fileRelayStore X policy) Files.exec repoId other) :
    keyHash X repoId ≠ keyHash X other := by
  intro hkey
  have hpath : idempotencyPath X repoId "k" = idempotencyPath X other "k" := by
    rw [idempotencyPath, idempotencyPath, repoDir, repoDir, hkey]
  have hseen := h.after_push hne (emptyPush other) rfl (.push (emptyPush repoId)) rfl ∅
  obtain ⟨report, hreport, hfirst⟩ := run_emptyPush X policy other (s := ∅)
    Std.ExtTreeMap.getElem?_empty
  obtain ⟨report', hreport', halone⟩ := run_emptyPush X policy repoId (s := ∅)
    Std.ExtTreeMap.getElem?_empty
  obtain ⟨validation, hv⟩ := exists_validated_emptyPush X policy repoId
  have hrecord : (Std.ExtTreeMap.insert (∅ : Files) (idempotencyPath X other "k")
      (recordBytes X report))[idempotencyPath X (emptyPush repoId).repoId
        (emptyPush repoId).idempotencyKey]? = some (recordBytes X report) := by
    rw [getElem?_insert_eq]
    exact if_pos hpath.symm
  have hreplayed := run_push_replayed hv hrecord
  rw [reportFromSlice_recordBytes hX] at hreplayed
  have hanswer : ∀ (request : BundlePushRequest) (s s' : Files) (report : BundlePushReport),
      (pushBundle X policy request).run Files.exec s = (.ok report, s') →
      (fileRelayStore X policy).answer Files.exec (.push request) s = (.ok (.pushed report), s') :=
    fun request s s' report hrun => Prog.run_bind_ok _ hrun _
  rw [hanswer _ _ _ _ hfirst, hanswer _ _ _ _ hreplayed, hanswer _ _ _ _ halone] at hseen
  have hsame := RelayReply.pushed.inj (Except.ok.inj hseen)
  exact hne (by rw [← hreport', ← hsame, hreport])

/-- On the file store two repositories are kept apart exactly if their ids have different
    hashes. -/
theorem file_isolated_iff (hX : ReadsBack X) (policy : Policy) (hne : repoId ≠ other) :
    Apart (fileRelayStore X policy) Files.exec repoId other ↔
      keyHash X repoId ≠ keyHash X other :=
  ⟨hashes_of_apart hX hne, apart_of_hashes⟩

/-- The directories of two short ids. -/
theorem r_s_isolated_iff : ("r" : String) ≠ "s" ∧
    (Apart (fileRelayStore .reference ⟨false, []⟩) Files.exec "r" "s" ↔
      keyHash .reference "r" ≠ keyHash .reference "s") :=
  ⟨by decide, file_isolated_iff readsBack_reference _ (by decide)⟩

end Isolation

end FileRelayStore

end RickydataGit.Relay
