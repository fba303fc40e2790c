/-
  Repositories in one bucket.

  The bucket store puts the repository id as it is into its names, and lists them by
  what they start with. Of two ids, the names of one start with the prefix of the
  other if `Below` holds, and then all of them do (`seen_of_covers`,
  `covers_of_seen`). `bucket_isolated_iff`: otherwise the two are kept apart. The ids
  that the client lets through have no slash, so they always are (`apart_of_safe`).
-/
import RickydataGit.Relay.Isolation
import RickydataGit.Relay.Routes

namespace RickydataGit.Relay

open RickydataGit.Lib RickydataGit.Core

/-! ## Names below one another -/

/-- The names of `other` lie below the objects of `repoId`. -/
def Below (repoId other : String) : Prop := (repoId ++ "/objects/").toList <+: (other ++ "/").toList

instance (repoId other : String) : Decidable (Below repoId other) :=
  inferInstanceAs (Decidable (_ <+: _))

/-- What ends in a slash ends at one: it goes no further than the last slash. -/
theorem prefix_of_slash {a b w : List Char} (hw : '/' ∉ w) (h : a ++ ['/'] <+: b ++ ['/'] ++ w) :
    a ++ ['/'] <+: b ++ ['/'] := by
  induction w using List.reverseRecOn with
  | nil => rwa [List.append_nil] at h
  | append_singleton w c ih =>
    rw [← List.append_assoc, List.prefix_concat_iff] at h
    rcases h with he | hp
    · obtain ⟨-, hc⟩ := List.append_inj' he rfl
      exact absurd (List.mem_append_right _ (hc ▸ List.mem_singleton_self _)) hw
    · exact ih (fun hmem => hw (List.mem_append_left _ hmem)) hp

/-- Two directories below two names: one path goes through the other's name, or they are
    the same. -/
theorem prefix_of_dir {a b dir dir' w : List Char} (hdir : '/' ∉ dir') (hw : '/' ∉ w)
    (h : a ++ '/' :: dir ++ ['/'] <+: b ++ '/' :: dir' ++ ['/'] ++ w) :
    a ++ '/' :: dir ++ ['/'] <+: b ++ ['/'] ∨ a ++ '/' :: dir = b ++ '/' :: dir' := by
  rcases List.prefix_concat_iff.mp (prefix_of_slash hw h) with he | hp
  · exact .inr (List.append_inj' he rfl).1
  · rw [List.append_cons b] at hp
    exact .inl (prefix_of_slash hdir hp)

theorem prefix_dir (b dir w : List Char) : b ++ ['/'] <+: b ++ '/' :: dir ++ ['/'] ++ w :=
  ⟨dir ++ ['/'] ++ w, by simp⟩

namespace GcsRelayStore

section Names

variable {X : Crates} {repoId other key name : String}

theorem slash_not_mem_file (X : Crates) (key : String) :
    '/' ∉ (keyHash X key ++ ".json").toList := by
  have hall : ∀ d < 16, d.digitChar ≠ '/' := by decide
  rw [String.toList_append, List.mem_append]
  rintro (h | h)
  · obtain ⟨d, hd, he⟩ := mem_hexEncode h
    exact hall d hd he.symm
  · exact absurd h (by decide)

theorem toList_objectsPrefix (repoId : String) : (objectsPrefix repoId).toList =
    "repos/".toList ++ (repoId.toList ++ '/' :: "objects".toList ++ ['/']) := by
  rw [objectsPrefix, String.toList_append, String.toList_append, List.append_assoc,
    List.append_assoc]
  rfl

theorem toList_objectName (X : Crates) (repoId key : String) : (objectName X repoId key).toList =
    "repos/".toList ++ (repoId.toList ++ '/' :: "objects".toList ++ ['/'] ++
      (keyHash X key ++ ".json").toList) := by
  rw [objectName, String.append_assoc, String.toList_append, toList_objectsPrefix,
    List.append_assoc]

theorem toList_idempotencyName (X : Crates) (repoId key : String) :
    (idempotencyName X repoId key).toList =
      "repos/".toList ++ (repoId.toList ++ '/' :: "idempotency".toList ++ ['/'] ++
        (keyHash X key ++ ".json").toList) := by
  rw [idempotencyName, String.append_assoc, String.toList_append, String.toList_append,
    String.toList_append]
  simp only [List.append_assoc]
  rfl

theorem below_iff : Below repoId other ↔
    repoId.toList ++ '/' :: "objects".toList ++ ['/'] <+: other.toList ++ ['/'] := by
  unfold Below
  rw [String.toList_append, String.toList_append, List.append_assoc]
  rfl

/-- Below a repository are all names of another, or none. -/
theorem objectName_prefix_iff (hne : repoId ≠ other) :
    (objectsPrefix repoId).toList <+: (objectName X other key).toList ↔ Below repoId other := by
  rw [toList_objectsPrefix, toList_objectName, List.prefix_append_right_inj, below_iff]
  constructor
  · intro h
    rcases prefix_of_dir (by decide) (slash_not_mem_file X key) h with hp | he
    · exact hp
    · exact absurd (String.toList_inj.mp (List.append_cancel_right he)) hne
  · intro h
    exact h.trans (prefix_dir _ _ _)

theorem idempotencyName_prefix_iff :
    (objectsPrefix repoId).toList <+: (idempotencyName X other key).toList ↔
      Below repoId other := by
  rw [toList_objectsPrefix, toList_idempotencyName, List.prefix_append_right_inj, below_iff]
  constructor
  · intro h
    rcases prefix_of_dir (by decide) (slash_not_mem_file X key) h with hp | he
    · exact hp
    · have hlast := congrArg List.getLast? he
      simp at hlast
  · intro h
    exact h.trans (prefix_dir _ _ _)

/-- Ids the client lets through have no slash, and are never below one another. -/
theorem not_below_of_safe (h : ensureSafeRepoId other = .ok ()) : ¬ Below repoId other := by
  intro hb
  have hplain := (ensureSafeRepoId_ok_iff.mp h).2
  have hslash : '/' ∉ other.toList := fun hmem => absurd (hplain '/' hmem) (by decide)
  have hmem : repoId.toList ++ '/' :: "objects".toList <+: other.toList := by
    rcases List.prefix_concat_iff.mp (below_iff.mp hb) with he | hp
    · exact (List.append_inj' he rfl).1 ▸ List.prefix_rfl
    · exact (List.prefix_append _ _).trans hp
  exact hslash (hmem.subset (by simp))

/-- The names the calls for a repository look at: those it lists, and its records. -/
def Seen (X : Crates) (repoId name : String) : Prop :=
  (objectsPrefix repoId).toList <+: name.toList ∨ ∃ key, name = idempotencyName X repoId key

/-- The names a push to a repository may take. -/
def Named (X : Crates) (repoId name : String) : Prop :=
  (∃ objectId, name = objectName X repoId objectId) ∨ ∃ key, name = idempotencyName X repoId key

theorem seen_of_named (h : Named X repoId name) : Seen X repoId name := by
  rcases h with ⟨objectId, rfl⟩ | hkey
  · refine .inl ?_
    rw [objectName, String.append_assoc, String.toList_append]
    exact List.prefix_append _ _
  · exact .inr hkey

/-- All names of `other` are seen. -/
def Covers (repoId other : String) : Prop := repoId = other ∨ Below repoId other

theorem seen_of_covers (hc : Covers repoId other) (h : Named X other name) :
    Seen X repoId name := by
  rcases hc with rfl | hb
  · exact seen_of_named h
  · by_cases hne : repoId = other
    · exact hne ▸ seen_of_named h
    · rcases h with ⟨objectId, rfl⟩ | ⟨key, rfl⟩
      · exact .inl ((objectName_prefix_iff hne).mpr hb)
      · exact .inl (idempotencyName_prefix_iff.mpr hb)

theorem prefix_of_covers (hc : Covers repoId other) :
    (objectsPrefix repoId).toList <+: (objectsPrefix other).toList := by
  rcases hc with rfl | hb
  · exact List.prefix_rfl
  · rw [toList_objectsPrefix, toList_objectsPrefix, List.prefix_append_right_inj]
    have h := (below_iff.mp hb).trans (prefix_dir _ "objects".toList [])
    rwa [List.append_nil] at h

theorem covers_of_seen (hn : Named X other name) (h : Seen X repoId name) :
    Covers repoId other := by
  by_cases hne : repoId = other
  · exact .inl hne
  · refine .inr ?_
    rcases h with hp | ⟨key, rfl⟩
    · rcases hn with ⟨objectId, rfl⟩ | ⟨key, rfl⟩
      · exact (objectName_prefix_iff hne).mp hp
      · exact idempotencyName_prefix_iff.mp hp
    · rcases hn with ⟨objectId, he⟩ | ⟨key', he⟩
      · exact absurd he.symm objectName_ne_idempotencyName
      · exact absurd (idempotencyName_inj he).1 hne

end Names

/-! ## What a push touches -/

/-- A request of a push to the repository. -/
def Touches (X : Crates) (repoId : String) : BucketOp → Prop
  | .authToken => True
  | .get name | .insert name _ => Named X repoId name
  | .list listPrefix => listPrefix = objectsPrefix repoId

/-- The same under the names the calls for a repository look at. -/
def SameFor (X : Crates) (repoId : String) (s t : Bucket) : Prop :=
  ∀ name, Seen X repoId name → s[name]? = t[name]?

section Accesses

variable {X : Crates} {repoId other : String} {s t : Bucket}

theorem namesUnder_congr (h : SameFor X repoId s t) (hc : Covers repoId other) :
    s.namesUnder (objectsPrefix other) = t.namesUnder (objectsPrefix other) :=
  keys_filter_congr fun name hname => h name
    (.inl ((prefix_of_covers hc).trans (List.isPrefixOf_iff_prefix.mp hname)))

theorem exec_congr (hc : Covers repoId other) {o : bucketOps.Op} (ho : Touches X other o)
    (s t : Bucket) (h : SameFor X repoId s t) :
    (Bucket.exec o s).1 = (Bucket.exec o t).1 ∧
      SameFor X repoId (Bucket.exec o s).2 (Bucket.exec o t).2 := by
  rcases o with _ | name | ⟨name, bytes⟩ | listPrefix
  · exact ⟨rfl, h⟩
  · exact ⟨congrArg (fun b => Except.ok (found b)) (h name (seen_of_covers hc ho)), h⟩
  · have hname := h name (seen_of_covers hc ho)
    unfold Bucket.exec
    dsimp only
    rw [hname]
    rcases t[name]? with _ | b
    · refine ⟨rfl, fun k hk => ?_⟩
      rw [getElem?_insert_eq, getElem?_insert_eq, h k hk]
    · exact ⟨rfl, h⟩
  · obtain rfl : listPrefix = objectsPrefix other := ho
    exact ⟨congrArg (fun names => Except.ok (Response.mk 200 names)) (namesUnder_congr h hc), h⟩

theorem exec_other (hc : ¬ Covers repoId other) {o : bucketOps.Op} (ho : Touches X other o)
    (s : Bucket) (h : SameFor X repoId s t) : SameFor X repoId (Bucket.exec o s).2 t := by
  rcases o with _ | name | ⟨name, bytes⟩ | listPrefix
  · exact h
  · exact h
  · unfold Bucket.exec
    dsimp only
    rcases s[name]? with _ | b
    · intro k hk
      rw [getElem?_insert_eq, if_neg, h k hk]
      rintro rfl
      exact hc (covers_of_seen ho hk)
    · exact h
  · exact h

theorem touches_withAuth {α : Type} {f : Unit → BucketProg α}
    (h : (f ()).Every (Touches X repoId)) : (withAuth >>= f).Every (Touches X repoId) := by
  refine ⟨trivial, fun a => ?_⟩
  rcases a with m | u
  · trivial
  · exact h

theorem touches_getBytes {name : String} (h : Named X repoId name) :
    (getBytes name).Every (Touches X repoId) := by
  refine touches_withAuth (Prog.every_bind (every_sendWithRetry ?_ 2) fun response => ?_)
  · exact ⟨h, fun _ => trivial⟩
  · split
    · trivial
    · split
      · trivial
      · trivial

theorem touches_putBytesIfAbsent {name : String} (h : Named X repoId name) (bytes : Bytes) :
    (putBytesIfAbsent name bytes).Every (Touches X repoId) := by
  refine touches_withAuth (Prog.every_bind (every_sendWithRetry ?_ 2) fun response => ?_)
  · exact ⟨h, fun _ => trivial⟩
  · split
    · trivial
    · split
      · trivial
      · trivial

theorem touches_listNames :
    (listNames (objectsPrefix repoId)).Every (Touches X repoId) := by
  refine touches_withAuth (Prog.every_bind (every_sendWithRetry ?_ 2) fun response => ?_)
  · exact ⟨rfl, fun _ => trivial⟩
  · split
    · trivial
    · trivial

theorem touches_readReport (key : String) :
    (readReport X (idempotencyName X repoId key)).Every (Touches X repoId) :=
  Prog.every_bind (touches_getBytes (.inr ⟨key, rfl⟩)) fun _ => Prog.every_ofExcept _

theorem touches_putObjects (existingNames : List String) (accepted duplicate : UInt64)
    (objects : List CanonicalObject) :
    (putObjects X repoId existingNames accepted duplicate objects).Every (Touches X repoId) := by
  induction objects generalizing accepted duplicate with
  | nil => trivial
  | cons object rest ih =>
    unfold putObjects
    dsimp only
    split
    · exact ih _ _
    · refine Prog.every_bind (touches_putBytesIfAbsent (.inl ⟨_, rfl⟩) _) fun put => ?_
      rcases put with _ | _
      · exact ih _ _
      · exact ih _ _

theorem touches_push (policy : Policy) (request : BundlePushRequest) :
    (pushBundle X policy request).Every (Touches X request.repoId) := by
  refine Prog.every_bind (Prog.every_ofExcept _) fun _ =>
    Prog.every_bind (Prog.every_attempt (touches_readReport _)) fun found => ?_
  rcases found with e | report
  · refine Prog.every_bind touches_listNames fun existingNames =>
      Prog.every_bind (touches_putObjects existingNames 0 0 _) fun counts =>
        Prog.every_bind (touches_putBytesIfAbsent (.inr ⟨_, rfl⟩) _) fun put => ?_
    rcases put with _ | _
    · trivial
    · exact touches_readReport _
  · trivial

end Accesses

/-! ## What the other calls read -/

section Reads

variable {X : Crates} {policy : Policy} {repoId : String} {s t : Bucket}

theorem answer_push (request : BundlePushRequest) (s : Bucket) :
    ((gcsRelayStore X policy).answer Bucket.exec (.push request) s).2 =
      ((pushBundle X policy request).run Bucket.exec s).2 := by
  show ((pushBundle X policy request >>= _).run Bucket.exec s).2 = _
  rw [Prog.run_bind]
  rcases (pushBundle X policy request).run Bucket.exec s with ⟨e | report, s'⟩
  · rfl
  · rfl

/-- A call that is no push leaves the bucket as it is. -/
theorem answer_unchanged {c : RelayCall} (h : ∀ request, c ≠ .push request) (s : Bucket) :
    ((gcsRelayStore X policy).answer Bucket.exec c s).2 = s := by
  refine run_unchanged ?_ s
  cases c with
  | push request => exact absurd rfl (h request)
  | validate request => exact Prog.every_bind (Prog.every_ofExcept _) fun _ => trivial
  | pull request => exact Prog.every_bind (every_pullBundle request) fun _ => trivial
  | read repoId objectId => exact Prog.every_bind (every_readStored _) fun _ => trivial
  | list repoId =>
    exact Prog.every_bind (Prog.every_bind (every_listNames _) fun names =>
      Prog.every_bind (every_readAll names) fun _ => trivial) fun _ => trivial
  | status repoId =>
    exact Prog.every_bind (Prog.every_bind (every_listNames _) fun _ => trivial) fun _ => trivial

theorem agrees_readStored {name : String} (h : Seen X repoId name) :
    (readStored X policy repoId name).Agrees Bucket.exec (SameFor X repoId) := by
  refine Prog.Agrees.bind ?_ fun bytes => Prog.Agrees.bind ?_ fun object =>
    Prog.Agrees.bind ?_ fun _ => ?_
  · intro s t hst
    rw [run_getBytes, run_getBytes, hst name h]
    exact ⟨rfl, hst⟩
  · intro s t hst
    rw [Prog.run_ofExcept, Prog.run_ofExcept]
    exact ⟨rfl, hst⟩
  · intro s t hst
    rw [Prog.run_ofExcept, Prog.run_ofExcept]
    exact ⟨rfl, hst⟩
  · exact fun s t hst => ⟨rfl, hst⟩

theorem agrees_readAll {names : List String} (h : ∀ name ∈ names, Seen X repoId name) :
    (readAll X policy repoId names).Agrees Bucket.exec (SameFor X repoId) := by
  induction names with
  | nil => exact fun s t hst => ⟨rfl, hst⟩
  | cons name rest ih =>
    obtain ⟨hname, hrest⟩ := List.forall_mem_cons.mp h
    exact (agrees_readStored hname).bind fun _ => (ih hrest).bind fun _ s t hst => ⟨rfl, hst⟩

/-- What is done with the listed names may use that they are seen. -/
theorem agrees_listNames {α : Type} {f : List String → BucketProg α}
    (h : ∀ names, (∀ name ∈ names, Seen X repoId name) →
      (f names).Agrees Bucket.exec (SameFor X repoId)) :
    (listNames (objectsPrefix repoId) >>= f).Agrees Bucket.exec (SameFor X repoId) := by
  intro s t hst
  rw [Prog.run_bind_ok _ (run_listNames _ s), Prog.run_bind_ok _ (run_listNames _ t),
    namesUnder_congr hst (.inl rfl)]
  exact h _ (fun name hname => .inl (mem_namesUnder.mp hname).2) s t hst

/-- Every call for a repository depends on what it sees. -/
theorem agrees_call (c : RelayCall) :
    ((gcsRelayStore X policy).call c).Agrees Bucket.exec (SameFor X c.repoId) := by
  have hpure : ∀ {α : Type} (a : α),
      (Prog.ret a : BucketProg α).Agrees Bucket.exec (SameFor X c.repoId) :=
    fun a s t hst => ⟨rfl, hst⟩
  cases c with
  | validate request =>
    have hrun : ∀ u, ((gcsRelayStore X policy).validateBundle request).run Bucket.exec u =
        (bundleValidationReport X policy request, u) := Prog.run_ofExcept _ _
    refine Prog.Agrees.bind (fun s t hst => ?_) fun _ => hpure _
    rw [hrun, hrun]
    exact ⟨rfl, hst⟩
  | push request =>
    exact Prog.Agrees.bind (Prog.agrees_of_every (fun o ho => exec_congr (.inl rfl) ho)
      (touches_push policy request)) fun _ => hpure _
  | pull request =>
    refine Prog.Agrees.bind (agrees_listNames fun names hnames => ?_) fun _ => hpure _
    refine Prog.Agrees.bind (agrees_readAll fun name hname => hnames name ?_) fun _ => hpure _
    exact (List.mem_filter.mp (mem_sorted.mp (mem_of_mem_selected hname))).1
  | read repoId objectId =>
    exact Prog.Agrees.bind (agrees_readStored (seen_of_named (.inl ⟨objectId, rfl⟩)))
      fun _ => hpure _
  | list repoId =>
    refine Prog.Agrees.bind (agrees_listNames fun names hnames => ?_) fun _ => hpure _
    exact Prog.Agrees.bind (agrees_readAll hnames) fun _ => hpure _
  | status repoId =>
    exact Prog.Agrees.bind (agrees_listNames fun names _ => hpure _) fun _ => hpure _

end Reads

section Isolation

variable {X : Crates} {policy : Policy} {repoId other : String}

theorem apart_of_not_below (hne : repoId ≠ other) (h : ¬ Below repoId other) :
    Apart (gcsRelayStore X policy) Bucket.exec repoId other := by
  have hcovers : ¬ Covers repoId other := fun hc => hc.elim hne h
  -- a push to a repository that is not covered goes by unseen
  have hunseen : ∀ {r : String}, ¬ Covers repoId r → ∀ {request : BundlePushRequest},
      request.repoId = r → ∀ s t, SameFor X repoId s t →
        SameFor X repoId ((gcsRelayStore X policy).answer Bucket.exec (.push request) s).2 t := by
    rintro _ hc request rfl s t hst
    rw [answer_push]
    exact Prog.run_frame (I := fun u => SameFor X repoId u t)
      (fun o ho u hu => exec_other hc ho u hu) (touches_push policy request) hst
  intro s
  refine isolated_of_unwinding (SameFor X repoId) ?_ ?_ ?_ ?_ fun _ _ => rfl
  · intro c hpush hc
    exact hne (hc.symm.trans (RelayCall.repoId_of_isPushTo hpush))
  · intro c hpush s t hst
    cases c with
    | push request => exact hunseen hcovers hpush s t hst
    | validate _ | pull _ | read _ _ | list _ | status _ => exact hpush.elim
  · intro c _ s t hst
    cases c with
    | push request =>
      by_cases hc : Covers repoId request.repoId
      · rw [answer_push, answer_push]
        exact (Prog.agrees_of_every (fun o ho => exec_congr hc ho) (touches_push policy request) s t
          hst).2
      · have hback := hunseen hc rfl t s fun name hname => (hst name hname).symm
        exact hunseen hc rfl s _ fun name hname => (hback name hname).symm
    | validate _ | pull _ | read _ _ | list _ | status _ =>
      rw [answer_unchanged (by rintro _ ⟨⟩), answer_unchanged (by rintro _ ⟨⟩)]
      exact hst
  · rintro c rfl s t hst
    exact (agrees_call c s t hst).1

/-- One name in an otherwise empty bucket is all that is listed. -/
theorem namesUnder_single {s : Bucket} {listPrefix name : String} (hs : ∀ k : String, s[k]? = none)
    (hn : listPrefix.toList <+: name.toList) (bytes : Bytes) :
    (Bucket.namesUnder (s.insert name bytes) listPrefix).length = 1 := by
  have hmem : name ∈ Bucket.namesUnder (s.insert name bytes) listPrefix := by
    refine mem_namesUnder.mpr ⟨?_, hn⟩
    rw [getElem?_insert_eq, if_pos rfl]
    exact Option.some_ne_none bytes
  have hall : ∀ k ∈ Bucket.namesUnder (s.insert name bytes) listPrefix, k = name := by
    intro k hk
    by_contra hne
    refine (mem_namesUnder.mp hk).1 ?_
    rw [getElem?_insert_eq, if_neg (Ne.symm hne), hs k]
  have hnodup : (Bucket.namesUnder (s.insert name bytes) listPrefix).Nodup :=
    (keys_nodup _).filter _
  have hle := (List.subperm_of_subset hnodup fun k hk =>
    List.mem_singleton.mpr (hall k hk)).length_le
  have hpos := List.length_pos_of_mem hmem
  rw [List.length_singleton] at hle
  omega

/-- A push of nothing leaves a record, and the record is listed with the objects of a
    repository it lies below. -/
theorem not_below_of_apart (hne : repoId ≠ other)
    (h : Apart (gcsRelayStore X policy) Bucket.exec repoId other) : ¬ Below repoId other := by
  intro hb
  obtain ⟨validation, hv⟩ := exists_validated_emptyPush X policy other
  obtain ⟨report, s₁, -, hgrows, -, hrun⟩ := run_push_stored (s := ∅) hv
    Std.ExtTreeMap.getElem?_empty
  have hempty : ∀ k : String, s₁[k]? = none := by
    intro k
    rw [hgrows.other (by rintro bytes ⟨object, hmem, -⟩; cases hmem),
      Std.ExtTreeMap.getElem?_empty]
  have hseen := h.after_push hne (emptyPush other) rfl (.status repoId) rfl ∅
  have hstatus : ∀ s : Bucket, ((gcsRelayStore X policy).answer Bucket.exec (.status repoId) s).1 =
      .ok (.status (repoStatusReport X repoId (sorted (s.namesUnder (objectsPrefix repoId))))) := by
    intro s
    have hone : ((gcsRelayStore X policy).repoStatus repoId).run Bucket.exec s = (.ok
        (repoStatusReport X repoId (sorted (s.namesUnder (objectsPrefix repoId)))), s) :=
      Prog.run_bind_ok _ (run_listNames _ s) _
    exact congrArg Prod.fst (Prog.run_bind_ok _ hone _)
  rw [hstatus, hstatus, answer_push, hrun] at hseen
  have hcount := congrArg RepoRelayStatusReport.objectCount
    (RelayReply.status.inj (Except.ok.inj hseen))
  have hnone : (Bucket.namesUnder ∅ (objectsPrefix repoId)).length = 0 := by
    refine List.length_eq_zero_iff.mpr (List.eq_nil_iff_forall_not_mem.mpr fun name hname => ?_)
    exact (mem_namesUnder.mp hname).1 Std.ExtTreeMap.getElem?_empty
  have hprefix : (objectsPrefix repoId).toList <+: (idempotencyName X other "k").toList :=
    idempotencyName_prefix_iff.mpr hb
  have hone := namesUnder_single hempty hprefix (recordBytes X report)
  have hlengths : UInt64.ofNat 1 = UInt64.ofNat 0 := by
    simp only [repoStatusReport, sorted, List.length_mergeSort, hnone] at hcount
    rwa [← hone]
  exact absurd hlengths (by decide)

/-- On the bucket store two repositories are kept apart exactly if the names of one do not
    start with the prefix of the other. -/
theorem bucket_isolated_iff (X : Crates) (policy : Policy) (hne : repoId ≠ other) :
    Apart (gcsRelayStore X policy) Bucket.exec repoId other ↔ ¬ Below repoId other :=
  ⟨not_below_of_apart hne, apart_of_not_below hne⟩

/-- Pushes to `r/objects` show in the status of `r`. -/
theorem objects_not_apart : ("r" : String) ≠ "r/objects" ∧
    ¬ Apart (gcsRelayStore .reference ⟨false, []⟩) Bucket.exec "r" "r/objects" := by
  have hne : ("r" : String) ≠ "r/objects" := by decide
  exact ⟨hne, fun h => (bucket_isolated_iff .reference _ hne).mp h (by decide)⟩

/-- What the client lets through is kept apart. -/
theorem apart_of_safe (X : Crates) (policy : Policy) (hne : repoId ≠ other)
    (h : ensureSafeRepoId other = .ok ()) :
    Apart (gcsRelayStore X policy) Bucket.exec repoId other :=
  apart_of_not_below hne (not_below_of_safe h)

end Isolation

end GcsRelayStore

end RickydataGit.Relay
