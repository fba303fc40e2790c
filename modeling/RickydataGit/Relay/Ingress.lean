/-
  The ingress invariant: what a relay hands out was checked when it came in.

  The file store does not check an object again when it reads it. That is sound
  because a push writes two kinds of files only (`every_push`): the canonical bytes
  of an accepted object at the object's own path, or a record. So after any pushes
  every file is one of the two (`pushed_entries`), and what a read finds at the path
  of an id is the object of that id, accepted for that repository. The bucket store
  does check again; there the invariant ties the names to the ids.

  `Sealed` is the guarantee for one repository. `ingress_invariant` proves it of both
  stores, after any pushes and with any faults. SHA-256 is asked not to collide on
  the repository ids, and on the object ids for a read from the bucket, that are in
  play.
-/
import RickydataGit.Relay.FileStore
import RickydataGit.Relay.GcsStore

namespace RickydataGit.Relay

open RickydataGit.Lib RickydataGit.Core

/-! ## The guarantee -/

/-- Everything the store `s` hands out for the repository is accepted for it, and is
    the object of the id it was asked for (if `clear` holds of that id), or was listed
    under (`place` relates an entry of the listing `list` to its object). -/
structure Sealed {O : Ops} {σ : Type} (X : Crates) (policy : Policy) (store : RelayStore O)
    (step : σ → (o : O.Op) → O.Ans o → σ → Prop) (list : Prog O RelayError (List String))
    (place : String → CanonicalObject → Prop) (clear : String → Prop) (repoId : String) (s : σ) :
    Prop where
  read : ∀ objectId object s', clear objectId →
    (store.readObject repoId objectId).Runs step s (.ok object) s' →
    object.objectId = objectId ∧ Accepted X policy repoId object
  pull : ∀ request report s', request.repoId = repoId →
    (store.pullBundle request).Runs step s (.ok report) s' →
    (∃ listed, list.Runs step s (.ok listed) s ∧ ∃ taken, (∀ entry ∈ taken, entry ∈ listed) ∧
      List.Forall₂ place taken report.objects) ∧
    ∀ object ∈ report.objects, Accepted X policy repoId object ∧
      ∀ ids s'', (store.listObjectIds repoId).Runs step s (.ok ids) s'' → object.objectId ∈ ids

/-- The objects that came in with these requests and were let through. -/
def LetIn (X : Crates) (policy : Policy) (requests : List BundlePushRequest) (repoId : String)
    (object : CanonicalObject) : Prop :=
  Accepted X policy repoId object ∧
    ∃ request ∈ requests, request.repoId = repoId ∧ object ∈ request.objects

theorem LetIn.mono {X : Crates} {policy : Policy} {requests : List BundlePushRequest}
    {request : BundlePushRequest} {repoId : String} {object : CanonicalObject}
    (h : LetIn X policy requests repoId object) :
    LetIn X policy (requests ++ [request]) repoId object := by
  obtain ⟨ha, r, hr, hrest⟩ := h
  exact ⟨ha, r, List.mem_append_left _ hr, hrest⟩

/-- Everything on the right of a relation has something on the left. -/
theorem exists_left_of_forall₂ {α β : Type} {R : α → β → Prop} {as : List α} {bs : List β}
    (h : List.Forall₂ R as bs) {b : β} (hb : b ∈ bs) : ∃ a ∈ as, R a b := by
  induction h with
  | nil => cases hb
  | cons hr _ ih =>
    rcases List.mem_cons.mp hb with rfl | hmem
    · exact ⟨_, List.mem_cons_self, hr⟩
    · obtain ⟨a, ha, hab⟩ := ih hmem
      exact ⟨a, List.mem_cons_of_mem _ ha, hab⟩

theorem exists_right_of_forall₂ {α β : Type} {R : α → β → Prop} {as : List α} {bs : List β}
    (h : List.Forall₂ R as bs) {a : α} (ha : a ∈ as) : ∃ b ∈ bs, R a b :=
  exists_left_of_forall₂ h.flip ha

theorem mem_of_mem_selected {limit : Option UInt64} {missing : List String} {entry : String}
    (h : entry ∈ selected limit missing) : entry ∈ missing :=
  List.mem_of_mem_take h

theorem mem_sorted {names : List String} {name : String} : name ∈ sorted names ↔ name ∈ names :=
  List.mem_mergeSort

/-- What passed the validation of a push is let in with it. -/
theorem letIn_of_validated {X : Crates} {policy : Policy} (requests : List BundlePushRequest)
    {request : BundlePushRequest} {validation : BundleValidationReport}
    (h : bundleValidationReport X policy request = .ok validation) :
    ∀ object ∈ request.objects, LetIn X policy (requests ++ [request]) request.repoId object :=
  fun object ho => ⟨(bundleValidationReport_ok h).1 object ho, request, by simp, rfl, ho⟩

/-! ## The file store -/

namespace FileRelayStore

/-- A file holds an object of `P` at its own path, or a record. -/
def FileEntry (X : Crates) (P : String → CanonicalObject → Prop) (path : Path) (bytes : Bytes) :
    Prop :=
  (∃ repoId object hex, P repoId object ∧ objectDigits object.objectId = .ok hex ∧
    path = objectFile X repoId hex ∧ bytes = canonicalObjectBytes X object) ∨
  ∃ repoId idempotencyKey report, path = idempotencyPath X repoId idempotencyKey ∧
    bytes = recordBytes X report

/-- What the access writes, if it writes, satisfies `E`. -/
def Writes (E : Path → Bytes → Prop) : FileOp → Prop
  | .writeFile path bytes => E path bytes
  | _ => True

theorem fileStep_entries {E : Path → Bytes → Prop} (o : fileOps.Op) (ho : Writes E o) (s : Files)
    (a : fileOps.Ans o) (s' : Files) (h : FileStep s o a s') (hs : Entries E s) :
    Entries E s' := by
  rcases o with path | path | ⟨path, bytes⟩ | path | path
  · rw [h.2]
    exact hs
  · rw [h.2]
    exact hs
  · rcases h with rfl | ⟨-, rfl⟩
    · exact entries_insert hs ho
    · exact hs
  · rw [h.2]
    exact hs
  · rw [h.2]
    exact hs

section Writing

variable {X : Crates} {E : Path → Bytes → Prop} {repoId : String}

theorem every_ioResult {O : Ops} {P : O.Op → Prop} {α : Type} (a : Except String α) :
    (ioResult a : Prog O RelayError α).Every P := by
  rcases a with m | a
  · trivial
  · trivial

theorem every_fsRead (path : Path) : (fsRead path).Every (Writes E) :=
  ⟨trivial, every_ioResult⟩

theorem every_pathExists {α : Type} {f : Bool → FileProg α} (h : ∀ b, (f b).Every (Writes E))
    (path : Path) : (pathExists path >>= f).Every (Writes E) :=
  ⟨trivial, h⟩

theorem every_writeBytes {path : Path} {bytes : Bytes} (h : E path bytes) :
    (writeBytes path bytes).Every (Writes E) :=
  ⟨h, every_ioResult⟩

theorem every_checkObjects (objects : List CanonicalObject) :
    (checkObjects X repoId objects).Every (Writes E) := by
  induction objects with
  | nil => trivial
  | cons object rest ih =>
    refine Prog.every_bind (Prog.every_ofExcept _) fun path => every_pathExists (fun b => ?_) path
    split
    · refine Prog.every_bind (every_fsRead path) fun existing => ?_
      split
      · trivial
      · exact ih
    · exact ih

/-- The second loop writes the objects, each at its path. -/
theorem every_writeObjects {objects : List CanonicalObject}
    (h : ∀ object ∈ objects, ∀ path, objectPath X repoId object.objectId = .ok path →
      E path (canonicalObjectBytes X object)) (accepted duplicate : UInt64) :
    (writeObjects X repoId accepted duplicate objects).Every (Writes E) := by
  induction objects generalizing accepted duplicate with
  | nil => trivial
  | cons object rest ih =>
    obtain ⟨ho, hrest⟩ := List.forall_mem_cons.mp h
    unfold writeObjects
    rcases hp : objectPath X repoId object.objectId with e | path
    · trivial
    · refine every_pathExists (fun b => ?_) path
      split
      · exact ih hrest _ _
      · exact Prog.every_bind (every_writeBytes (ho path hp)) fun _ => ih hrest _ _

/-- A push writes accepted objects and its record. -/
theorem every_push {policy : Policy} {requests : List BundlePushRequest}
    (request : BundlePushRequest) :
    (pushBundle X policy request).Every
      (Writes (FileEntry X (LetIn X policy (requests ++ [request])))) := by
  unfold pushBundle
  rcases hv : bundleValidationReport X policy request with e | validation
  · trivial
  · have hin := letIn_of_validated requests hv
    show (pushValidated X request validation).Every _
    refine every_pathExists (fun b => ?_) _
    split
    · exact Prog.every_bind (every_fsRead _) fun bytes => Prog.every_ofExcept _
    · refine Prog.every_bind (every_checkObjects _) fun _ =>
        Prog.every_bind (every_writeObjects ?_ 0 0) fun counts =>
          Prog.every_bind (every_writeBytes ?_) fun _ => trivial
      · intro object ho path hp
        obtain ⟨hex, hd, rfl⟩ := objectPath_ok hp
        exact .inl ⟨_, object, hex, hin object ho, hd, rfl, rfl⟩
      · exact .inr ⟨_, _, _, rfl, rfl⟩

end Writing

/-- After any pushes every file is an object let in, or a record. -/
theorem pushed_entries {X : Crates} {policy : Policy} {requests : List BundlePushRequest}
    {s : Files} (h : (fileRelayStore X policy).Pushed FileStep ∅ requests s) :
    Entries (FileEntry X (LetIn X policy requests)) s := by
  induction h with
  | none => exact entries_empty _
  | @push requests s s' request result _ hrun ih =>
    refine Prog.runs_frame fileStep_entries (every_push request) hrun ?_
    intro path bytes hp
    rcases ih path bytes hp with ⟨r, object, hex, hin, hrest⟩ | hrec
    · exact .inl ⟨r, object, hex, hin.mono, hrest⟩
    · exact .inr hrec

section Reading

variable {X : Crates} {s s' : Files} {repoId : String}

theorem runs_fsRead {path : Path} {bytes : Bytes}
    (h : (fsRead path).Runs FileStep s (.ok bytes) s') : s[path]? = some bytes ∧ s' = s := by
  obtain ⟨a, s₁, ⟨ha, rfl⟩, hr⟩ := h
  rcases a with m | b
  · cases hr.1
  · obtain ⟨hb, rfl⟩ := hr
    cases hb
    exact ⟨ha _ rfl, rfl⟩

theorem runs_readObject {objectId : String} {object : CanonicalObject}
    (h : (readObject X repoId objectId).Runs FileStep s (.ok object) s') :
    s' = s ∧ ∃ hex bytes, objectDigits objectId = .ok hex ∧
      s[objectFile X repoId hex]? = some bytes ∧ storedObjectFromSlice X bytes = .ok object := by
  obtain ⟨path, s₁, hpath, hfile⟩ := Prog.runs_bind h
  obtain ⟨hp, rfl⟩ := Prog.runs_ofExcept hpath
  obtain ⟨hex, hd, rfl⟩ := objectPath_ok hp
  obtain ⟨bytes, s₂, hread, hparse⟩ := Prog.runs_bind hfile
  obtain ⟨hb, rfl⟩ := runs_fsRead hread
  obtain ⟨ho, rfl⟩ := Prog.runs_ofExcept hparse
  exact ⟨rfl, hex, bytes, hd, hb, ho⟩

theorem runs_readObjects {ids : List String} {objects : List CanonicalObject}
    (h : (readObjects X repoId ids).Runs FileStep s (.ok objects) s') :
    s' = s ∧ List.Forall₂ (fun objectId object =>
      (readObject X repoId objectId).Runs FileStep s (.ok object) s) ids objects := by
  induction ids generalizing objects s' with
  | nil =>
    obtain ⟨ho, rfl⟩ := h
    cases ho
    exact ⟨rfl, .nil⟩
  | cons id rest ih =>
    obtain ⟨object, s₁, hfirst, hr⟩ := Prog.runs_bind h
    obtain ⟨objects', s₂, hrest, hr⟩ := Prog.runs_bind hr
    obtain ⟨ho, rfl⟩ := hr
    cases ho
    obtain ⟨rfl, -⟩ := runs_readObject hfirst
    obtain ⟨rfl, hall⟩ := ih hrest
    exact ⟨rfl, .cons hfirst hall⟩

/-- The ids in these directories of one object directory each. -/
def shardIds (s : Files) (dir : Path) (shards : List DirEntry) : List String :=
  shards.flatMap fun shard =>
    if shard.isDir then (s.entries (dir ++ [shard.name])).filterMap entryObjectId else []

/-- What `list_object_ids` finds. -/
def listed (X : Crates) (s : Files) (repoId : String) : List String :=
  if (s.entries (objectsDir X repoId)).isEmpty then []
  else sorted (shardIds s (objectsDir X repoId) (s.entries (objectsDir X repoId)))

theorem runs_readDir {path : Path} {es : List DirEntry}
    (h : (readDir path).Runs FileStep s (.ok es) s') : es = s.entries path ∧ s' = s := by
  obtain ⟨a, s₁, ⟨ha, rfl⟩, hr⟩ := h
  rcases a with m | b
  · cases hr.1
  · obtain ⟨hb, rfl⟩ := hr
    cases hb
    exact ⟨ha _ rfl, rfl⟩

theorem runs_listShards {dir : Path} {shards : List DirEntry} {ids : List String}
    (h : (listShards dir shards).Runs FileStep s (.ok ids) s') :
    ids = shardIds s dir shards ∧ s' = s := by
  induction shards generalizing ids s' with
  | nil => exact ⟨Except.ok.inj h.1, h.2⟩
  | cons shard rest ih =>
    unfold listShards at h
    rw [shardIds, List.flatMap_cons]
    by_cases hd : shard.isDir = true
    · rw [if_neg (by simp [hd])] at h
      obtain ⟨es, s₁, hes, hr⟩ := Prog.runs_bind h
      obtain ⟨ids', s₂, hrest, hr⟩ := Prog.runs_bind hr
      obtain ⟨rfl, rfl⟩ := runs_readDir hes
      obtain ⟨rfl, rfl⟩ := ih hrest
      obtain ⟨ho, rfl⟩ := hr
      rw [if_pos hd]
      exact ⟨Except.ok.inj ho, rfl⟩
    · rw [if_pos (by simpa using hd)] at h
      rw [if_neg hd]
      exact ih h

theorem runs_listObjectIds {ids : List String}
    (h : (listObjectIds X repoId).Runs FileStep s (.ok ids) s') :
    ids = listed X s repoId ∧ s' = s := by
  obtain ⟨b, s₁, ⟨a, s₂, ⟨ha, rfl⟩, hb⟩, hr⟩ := Prog.runs_bind h
  obtain ⟨hb, rfl⟩ := hb
  cases hb
  subst ha
  unfold listed
  by_cases he : (s₁.entries (objectsDir X repoId)).isEmpty = true
  · rw [if_pos (by simpa using he)] at hr
    rw [if_pos he]
    exact ⟨Except.ok.inj hr.1, hr.2⟩
  · rw [if_neg (by simpa using he)] at hr
    rw [if_neg he]
    obtain ⟨shards, s₂, hs, hr⟩ := Prog.runs_bind hr
    obtain ⟨ids', s₃, hrest, hr⟩ := Prog.runs_bind hr
    obtain ⟨rfl, rfl⟩ := runs_readDir hs
    obtain ⟨rfl, rfl⟩ := runs_listShards hrest
    exact ⟨Except.ok.inj hr.1, hr.2⟩

/-- What is read at the path of an id was let in under that id and repository. -/
theorem readObject_accepted (hX : ReadsBack X) {policy : Policy}
    {requests : List BundlePushRequest} (hs : Entries (FileEntry X (LetIn X policy requests)) s)
    (hrepo : ∀ request ∈ requests, NoCollision X (utf8 request.repoId) (utf8 repoId))
    {objectId : String} {object : CanonicalObject}
    (h : (readObject X repoId objectId).Runs FileStep s (.ok object) s') :
    object.objectId = objectId ∧ Accepted X policy repoId object := by
  obtain ⟨-, hex, bytes, hd, hb, ho⟩ := runs_readObject h
  rcases hs _ _ hb with ⟨r, o, hex', ⟨ha, request, hreq, rfl, -⟩, hd', hpath, rfl⟩ | hrec
  · obtain ⟨hk, rfl⟩ := objectFile_inj hpath
    rw [storedObjectFromSlice_canonicalObjectBytes hX] at ho
    have hr := keyHash_inj (hrepo request hreq) hk.symm
    rw [← Except.ok.inj ho, ← hr]
    exact ⟨objectDigits_inj hd' hd, ha.canonical⟩
  · obtain ⟨r, key, report, hpath, -⟩ := hrec
    exact absurd hpath (objectFile_ne_idempotencyPath _ _ _ _)

theorem runs_pullBundle {request : BundlePullRequest} {report : BundlePullReport}
    (h : (pullBundle X request).Runs FileStep s (.ok report) s') :
    s' = s ∧ ∃ ids, (listObjectIds X request.repoId).Runs FileStep s (.ok ids) s ∧
      List.Forall₂ (fun objectId object =>
          (readObject X request.repoId objectId).Runs FileStep s (.ok object) s)
        (selected request.limit (ids.filter fun id => !request.knownObjectIds.contains id))
        report.objects := by
  obtain ⟨ids, s₁, hlist, hrest⟩ := Prog.runs_bind h
  obtain ⟨objects, s₂, hread, hret⟩ := Prog.runs_bind hrest
  obtain ⟨rfl, rfl⟩ := runs_listObjectIds hlist
  obtain ⟨rfl, hall⟩ := runs_readObjects hread
  obtain ⟨hr, rfl⟩ := hret
  cases hr
  exact ⟨rfl, _, hlist, hall⟩

/-- The file store hands out what came in. -/
theorem sealed_of_entries (hX : ReadsBack X) {policy : Policy}
    {requests : List BundlePushRequest} (hs : Entries (FileEntry X (LetIn X policy requests)) s)
    (hrepo : ∀ request ∈ requests, NoCollision X (utf8 request.repoId) (utf8 repoId)) :
    Sealed X policy (fileRelayStore X policy) FileStep (listObjectIds X repoId)
      (fun objectId object => object.objectId = objectId) (fun _ => True) repoId s where
  read _ _ _ _ h := readObject_accepted hX hs hrepo h
  pull request report s' hr h := by
    subst hr
    obtain ⟨-, ids, hlist, hall⟩ := runs_pullBundle h
    have hplace := hall.imp fun id object ho => (readObject_accepted hX hs hrepo ho).1
    refine ⟨⟨ids, hlist, _, fun id hid => ?_, hplace⟩, fun object ho => ?_⟩
    · exact (List.mem_filter.mp (mem_of_mem_selected hid)).1
    · obtain ⟨id, hid, hread⟩ := exists_left_of_forall₂ hall ho
      obtain ⟨hoid, ha⟩ := readObject_accepted hX hs hrepo hread
      refine ⟨ha, fun ids' s'' hlist' => ?_⟩
      rw [hoid, (runs_listObjectIds hlist').1, ← (runs_listObjectIds hlist).1]
      exact (List.mem_filter.mp (mem_of_mem_selected hid)).1

end Reading

end FileRelayStore

/-! ## The bucket store -/

namespace GcsRelayStore

/-- A name holds an object of `P` whose id it is made of, or a record. -/
def BucketEntry (X : Crates) (P : String → CanonicalObject → Prop) (name : String)
    (bytes : Bytes) : Prop :=
  (∃ repoId object, P repoId object ∧ name = objectName X repoId object.objectId ∧
    bytes = canonicalObjectBytes X object) ∨
  ∃ repoId idempotencyKey report, name = idempotencyName X repoId idempotencyKey ∧
    bytes = recordBytes X report

def Writes (E : String → Bytes → Prop) : BucketOp → Prop
  | .insert name bytes => E name bytes
  | _ => True

theorem bucketStep_entries {E : String → Bytes → Prop} (o : bucketOps.Op) (ho : Writes E o)
    (s : Bucket) (a : bucketOps.Ans o) (s' : Bucket) (h : BucketStep s o a s')
    (hs : Entries E s) : Entries E s' := by
  rcases o with _ | name | ⟨name, bytes⟩ | listPrefix
  · rw [show s' = s from h]
    exact hs
  · rw [h.2]
    exact hs
  · rcases h with ⟨-, -, rfl⟩ | ⟨-, -, rfl⟩ | ⟨-, rfl⟩
    · exact entries_insert hs ho
    · exact hs
    · exact hs
  · rw [h.2]
    exact hs

section Writing

variable {X : Crates} {E : String → Bytes → Prop} {repoId : String} {α : Type}

theorem every_withAuth {f : Unit → BucketProg α} (h : (f ()).Every (Writes E)) :
    (withAuth >>= f).Every (Writes E) := by
  refine ⟨trivial, fun a => ?_⟩
  rcases a with m | u
  · trivial
  · exact h

theorem every_getBytes (name : String) : (getBytes name).Every (Writes E) := by
  refine every_withAuth (Prog.every_bind (every_sendWithRetry ?_ 2) fun response => ?_)
  · exact ⟨trivial, fun _ => trivial⟩
  · split
    · trivial
    · split
      · trivial
      · trivial

theorem every_putBytesIfAbsent {name : String} {bytes : Bytes} (h : E name bytes) :
    (putBytesIfAbsent name bytes).Every (Writes E) := by
  refine every_withAuth (Prog.every_bind (every_sendWithRetry ?_ 2) fun response => ?_)
  · exact ⟨h, fun _ => trivial⟩
  · split
    · trivial
    · split
      · trivial
      · trivial

theorem every_listNames (listPrefix : String) : (listNames listPrefix).Every (Writes E) := by
  refine every_withAuth (Prog.every_bind (every_sendWithRetry ?_ 2) fun response => ?_)
  · exact ⟨trivial, fun _ => trivial⟩
  · split
    · trivial
    · trivial

theorem every_readReport (name : String) : (readReport X name).Every (Writes E) :=
  Prog.every_bind (every_getBytes name) fun _ => Prog.every_ofExcept _

theorem every_putObjects {objects : List CanonicalObject} (existingNames : List String)
    (h : ∀ object ∈ objects, E (objectName X repoId object.objectId)
      (canonicalObjectBytes X object)) (accepted duplicate : UInt64) :
    (putObjects X repoId existingNames accepted duplicate objects).Every (Writes E) := by
  induction objects generalizing accepted duplicate with
  | nil => trivial
  | cons object rest ih =>
    obtain ⟨ho, hrest⟩ := List.forall_mem_cons.mp h
    unfold putObjects
    dsimp only
    split
    · exact ih hrest _ _
    · refine Prog.every_bind (every_putBytesIfAbsent ho) fun put => ?_
      rcases put with _ | _
      · exact ih hrest _ _
      · exact ih hrest _ _

theorem every_push {policy : Policy} {requests : List BundlePushRequest}
    (request : BundlePushRequest) :
    (pushBundle X policy request).Every
      (Writes (BucketEntry X (LetIn X policy (requests ++ [request])))) := by
  unfold pushBundle
  rcases hv : bundleValidationReport X policy request with e | validation
  · trivial
  · have hin := letIn_of_validated requests hv
    show (pushValidated X request).Every _
    refine Prog.every_bind (Prog.every_attempt (every_readReport _)) fun found => ?_
    rcases found with e | report
    · refine Prog.every_bind (every_listNames _) fun existingNames =>
        Prog.every_bind (every_putObjects existingNames ?_ 0 0) fun counts =>
          Prog.every_bind (every_putBytesIfAbsent (.inr ⟨_, _, _, rfl, rfl⟩)) fun put => ?_
      · intro object ho
        exact .inl ⟨_, object, hin object ho, rfl, rfl⟩
      · rcases put with _ | _
        · trivial
        · exact every_readReport _
    · trivial

end Writing

theorem pushed_entries {X : Crates} {policy : Policy} {requests : List BundlePushRequest}
    {s : Bucket} (h : (gcsRelayStore X policy).Pushed BucketStep ∅ requests s) :
    Entries (BucketEntry X (LetIn X policy requests)) s := by
  induction h with
  | none => exact entries_empty _
  | @push requests s s' request result _ hrun ih =>
    refine Prog.runs_frame bucketStep_entries (every_push request) hrun ?_
    intro name bytes hn
    rcases ih name bytes hn with ⟨r, object, hin, hrest⟩ | hrec
    · exact .inl ⟨r, object, hin.mono, hrest⟩
    · exact .inr hrec

section Reading

variable {X : Crates} {policy : Policy} {s s' : Bucket} {repoId : String}

theorem runs_readStored {name : String} {object : CanonicalObject}
    (h : (readStored X policy repoId name).Runs BucketStep s (.ok object) s') :
    s' = s ∧ Accepted X policy repoId object ∧ ∃ bytes, s[name]? = some bytes ∧
      storedObjectFromSlice X bytes = .ok object := by
  obtain ⟨bytes, s₁, hget, hrest⟩ := Prog.runs_bind h
  obtain ⟨hb, rfl⟩ := runs_getBytes hget
  obtain ⟨o, s₂, hparse, hcheck⟩ := Prog.runs_bind hrest
  obtain ⟨ho, rfl⟩ := Prog.runs_ofExcept hparse
  obtain ⟨u, s₃, hvalidate, hret⟩ := Prog.runs_bind hcheck
  obtain ⟨hv, rfl⟩ := Prog.runs_ofExcept hvalidate
  obtain ⟨hr, rfl⟩ := hret
  cases hr
  exact ⟨rfl, validateStoredObject_iff.mp hv, bytes, hb, ho⟩

theorem runs_readAll {names : List String} {objects : List CanonicalObject}
    (h : (readAll X policy repoId names).Runs BucketStep s (.ok objects) s') :
    s' = s ∧ List.Forall₂ (fun name object =>
      (readStored X policy repoId name).Runs BucketStep s (.ok object) s) names objects := by
  induction names generalizing objects s' with
  | nil =>
    obtain ⟨ho, rfl⟩ := h
    cases ho
    exact ⟨rfl, .nil⟩
  | cons name rest ih =>
    obtain ⟨object, s₁, hfirst, hr⟩ := Prog.runs_bind h
    obtain ⟨objects', s₂, hrest, hr⟩ := Prog.runs_bind hr
    obtain ⟨ho, rfl⟩ := hr
    cases ho
    obtain ⟨rfl, -⟩ := runs_readStored hfirst
    obtain ⟨rfl, hall⟩ := ih hrest
    exact ⟨rfl, .cons hfirst hall⟩

/-- What is read under a name is an object let in, whose id the name is made of. -/
theorem readStored_letIn (hX : ReadsBack X) {requests : List BundlePushRequest}
    (hs : Entries (BucketEntry X (LetIn X policy requests)) s) {name : String}
    {object : CanonicalObject}
    (h : (readStored X policy repoId name).Runs BucketStep s (.ok object) s') :
    ∃ r o, LetIn X policy requests r o ∧ name = objectName X r o.objectId ∧
      object = o.canonical := by
  obtain ⟨-, -, bytes, hb, ho⟩ := runs_readStored h
  rcases hs _ _ hb with ⟨r, o, hin, hname, rfl⟩ | ⟨r, key, report, hname, rfl⟩
  · rw [storedObjectFromSlice_canonicalObjectBytes hX] at ho
    exact ⟨r, o, hin, hname, (Except.ok.inj ho).symm⟩
  · rw [storedObjectFromSlice_recordBytes hX] at ho
    cases ho

theorem runs_pullBundle {request : BundlePullRequest} {report : BundlePullReport}
    (h : (pullBundle X policy request).Runs BucketStep s (.ok report) s') :
    s' = s ∧ ∃ names, (listNames (objectsPrefix request.repoId)).Runs BucketStep s (.ok names) s ∧
      ∃ taken, (∀ name ∈ taken, name ∈ names) ∧ List.Forall₂ (fun name object =>
          (readStored X policy request.repoId name).Runs BucketStep s (.ok object) s)
        taken report.objects := by
  obtain ⟨names, s₁, hlist, hrest⟩ := Prog.runs_bind h
  obtain ⟨objects, s₂, hread, hret⟩ := Prog.runs_bind hrest
  obtain ⟨rfl, rfl⟩ := runs_listNames hlist
  obtain ⟨rfl, hall⟩ := runs_readAll hread
  obtain ⟨hr, rfl⟩ := hret
  cases hr
  refine ⟨rfl, _, hlist, _, fun name hn => ?_, hall⟩
  exact (List.mem_filter.mp (mem_sorted.mp (mem_of_mem_selected hn))).1

/-- The ids listed are those of the objects under the listed names. -/
theorem runs_listObjectIds {ids : List String}
    (h : (listObjectIds X policy repoId).Runs BucketStep s (.ok ids) s') :
    ∃ objects, ids = sorted (objects.map CanonicalObject.objectId) ∧
      List.Forall₂ (fun name object =>
          (readStored X policy repoId name).Runs BucketStep s (.ok object) s)
        (s.namesUnder (objectsPrefix repoId)) objects := by
  obtain ⟨names, s₁, hlist, hrest⟩ := Prog.runs_bind h
  obtain ⟨objects, s₂, hread, hret⟩ := Prog.runs_bind hrest
  obtain ⟨rfl, rfl⟩ := runs_listNames hlist
  obtain ⟨rfl, hall⟩ := runs_readAll hread
  exact ⟨objects, Except.ok.inj hret.1, hall⟩

/-- Two reads of one name find one object. -/
theorem readStored_unique {name : String} {o o' : CanonicalObject} {s₁ s₂ : Bucket}
    (h : (readStored X policy repoId name).Runs BucketStep s (.ok o) s₁)
    (h' : (readStored X policy repoId name).Runs BucketStep s (.ok o') s₂) : o = o' := by
  obtain ⟨-, -, b, hb, ho⟩ := runs_readStored h
  obtain ⟨-, -, b', hb', ho'⟩ := runs_readStored h'
  cases hb.symm.trans hb'
  exact Except.ok.inj (ho.symm.trans ho')

theorem sealed_of_entries (hX : ReadsBack X) {requests : List BundlePushRequest}
    (hs : Entries (BucketEntry X (LetIn X policy requests)) s) :
    Sealed X policy (gcsRelayStore X policy) BucketStep (listNames (objectsPrefix repoId))
      (fun name object => ∃ r, name = objectName X r object.objectId)
      (fun objectId => ∀ request ∈ requests, ∀ object ∈ request.objects,
        NoCollision X (utf8 objectId) (utf8 object.objectId)) repoId s where
  read objectId object s' hclear h := by
    obtain ⟨r, o, ⟨ha, request, hreq, -, hmem⟩, hname, rfl⟩ := readStored_letIn hX hs h
    obtain ⟨-, hacc, -⟩ := runs_readStored h
    have hid := keyHash_inj (hclear request hreq o hmem) (objectName_inj hname).2
    exact ⟨hid.symm, hacc⟩
  pull request report s' hr h := by
    subst hr
    obtain ⟨-, names, hlist, taken, htaken, hall⟩ := runs_pullBundle h
    have hplace : List.Forall₂ (fun name object => ∃ r, name = objectName X r object.objectId)
        taken report.objects := hall.imp fun name object ho => by
      obtain ⟨r, o, -, hname, rfl⟩ := readStored_letIn hX hs ho
      exact ⟨r, hname⟩
    refine ⟨⟨names, hlist, taken, htaken, hplace⟩, fun object ho => ?_⟩
    obtain ⟨name, hn, hread⟩ := exists_left_of_forall₂ hall ho
    obtain ⟨-, ha, -⟩ := runs_readStored hread
    refine ⟨ha, fun ids s'' hids => ?_⟩
    obtain ⟨objects, rfl, hobjects⟩ := runs_listObjectIds hids
    have hmem := (runs_listNames hlist).1 ▸ htaken name hn
    obtain ⟨object', ho', hread'⟩ := exists_right_of_forall₂ hobjects hmem
    rw [readStored_unique hread hread', mem_sorted]
    exact List.mem_map_of_mem ho'

end Reading

end GcsRelayStore

/-- What either store hands out after any pushes was accepted, and is what it was
    asked for. -/
theorem ingress_invariant {X : Crates} (hX : ReadsBack X) (policy : Policy)
    {requests : List BundlePushRequest} {repoId : String}
    (hrepo : ∀ request ∈ requests, NoCollision X (utf8 request.repoId) (utf8 repoId)) :
    (∀ s, (fileRelayStore X policy).Pushed FileStep ∅ requests s →
      Sealed X policy (fileRelayStore X policy) FileStep (FileRelayStore.listObjectIds X repoId)
        (fun objectId object => object.objectId = objectId) (fun _ => True) repoId s) ∧
    ∀ s, (gcsRelayStore X policy).Pushed BucketStep ∅ requests s →
      Sealed X policy (gcsRelayStore X policy) BucketStep (listNames (objectsPrefix repoId))
        (fun name object => ∃ r, name = objectName X r object.objectId)
        (fun objectId => ∀ request ∈ requests, ∀ object ∈ request.objects,
          NoCollision X (utf8 objectId) (utf8 object.objectId)) repoId s :=
  ⟨fun _ h => FileRelayStore.sealed_of_entries hX (FileRelayStore.pushed_entries h) hrepo,
    fun _ h => GcsRelayStore.sealed_of_entries hX (GcsRelayStore.pushed_entries h)⟩

/-- A push of one object with a `null` body. -/
def nullPush : BundlePushRequest where
  repoId := "r"
  idempotencyKey := "k"
  objects := [.new .reference "agent.intent" defaultSchemaVersion 0 .null]

theorem accepted_unsigned {X : Crates} {repoId : String} (kind schemaVersion : String)
    (createdAtMs : UInt64) (body : Value) :
    Accepted X ⟨false, []⟩ repoId (.new X kind schemaVersion createdAtMs body) where
  valid := ⟨rfl, rfl⟩
  signed h := by cases h
  verified h := by cases h

/-- The guarantee on the store that `nullPush` leaves. -/
theorem nullPush_sealed : ∃ s,
    (fileRelayStore .reference ⟨false, []⟩).Pushed FileStep ∅ [nullPush] s ∧
    Sealed .reference ⟨false, []⟩ (fileRelayStore .reference ⟨false, []⟩) FileStep
      (FileRelayStore.listObjectIds .reference "r")
      (fun objectId object => object.objectId = objectId) (fun _ => True) "r" s := by
  have hnone : (fileRelayStore .reference ⟨false, []⟩).Pushed FileStep ∅ [] ∅ := .none
  have hpushed := hnone.run fileStep_exec nullPush
  refine ⟨_, hpushed, (ingress_invariant readsBack_reference _ ?_).1 _ hpushed⟩
  intro request hreq
  obtain rfl : request = nullPush := List.mem_singleton.mp hreq
  intro _
  rfl

end RickydataGit.Relay
