/-
  Pulling a repository page by page, while others push.

  `Paging` are the histories of one client that pulls again and again, naming what it
  knew and what it received, with pushes of others in between. `Paged` says that every
  pull counts right, that nothing comes twice, and that a pull which reports nothing
  more leaves the client with all that was stored.

  `paged_pull_iff`: every history of the file store is `Paged`. One of the bucket store
  is if and only if at each pull the names under the prefix of the repository are its
  own (`OwnNames`): the repository id is spliced into the names as it is, so
  `r/objects` stores under the prefix of `r` (`foreign_push_breaks_pull`).
-/
import RickydataGit.Lib.Paging
import RickydataGit.Relay.Reading

namespace RickydataGit.Relay

open RickydataGit.Lib RickydataGit.Core

/-! ## Histories -/

/-- One pull of a client: the store and what it knew then, the limit and the answer. -/
structure PullVisit (σ : Type) where
  store : σ
  known : List String
  limit : UInt64
  result : Except RelayError BundlePullReport

namespace PullVisit

variable {σ : Type}

/-- The ids of the objects it received. -/
def received (v : PullVisit σ) : List String :=
  match v.result with
  | .ok report => report.objects.map CanonicalObject.objectId
  | .error _ => []

/-- The ids of what was stored. -/
def held (Holds : σ → CanonicalObject → Prop) (v : PullVisit σ) : Set String :=
  {objectId | ∃ o, Holds v.store o ∧ o.objectId = objectId}

/-- The pull as one page of a session. -/
def page (Holds : σ → CanonicalObject → Prop) (v : PullVisit σ) : Page String where
  held := v.held Holds
  known := v.known
  received := v.received
  remaining := match v.result with
    | .ok report => report.remainingObjectCount.toNat
    | .error _ => 0

end PullVisit

/-- What the client names after these pulls. -/
def knownAfter {σ : Type} (known : List String) (visits : List (PullVisit σ)) : List String :=
  known ++ visits.flatMap PullVisit.received

/-- The pulls of one client that knew `known` at the start, and the pushes of others. -/
inductive Paging {O : Ops} {σ : Type} (store : RelayStore O)
    (step : σ → (o : O.Op) → O.Ans o → σ → Prop) (exec : (o : O.Op) → σ → O.Ans o × σ) (empty : σ)
    (repoId : String) (known : List String) :
    List BundlePushRequest → σ → List (PullVisit σ) → Prop where
  | start : Paging store step exec empty repoId known [] empty []
  | push {requests : List BundlePushRequest} {s s' : σ} {visits : List (PullVisit σ)}
      (request : BundlePushRequest) (result : Except RelayError BundlePushReport) :
      Paging store step exec empty repoId known requests s visits →
      (store.pushBundle request).Runs step s result s' →
      Paging store step exec empty repoId known (requests ++ [request]) s' visits
  | pull {requests : List BundlePushRequest} {s s' : σ} {visits : List (PullVisit σ)}
      (limit : UInt64) (result : Except RelayError BundlePullReport) :
      Paging store step exec empty repoId known requests s visits →
      (store.pullBundle ⟨repoId, knownAfter known visits, some limit⟩).run exec s = (result, s') →
      Paging store step exec empty repoId known requests s'
        (visits ++ [⟨s, knownAfter known visits, limit, result⟩])

/-- The pull returns the first `limit` of the stored objects that are not known, and
    counts the others. -/
def CountsRight {σ : Type} (Holds : σ → CanonicalObject → Prop) (v : PullVisit σ) : Prop :=
  ∃ (report : BundlePullReport) (missing : List String), v.result = .ok report ∧ missing.Nodup ∧
    (∀ objectId, objectId ∈ missing ↔ objectId ∈ v.held Holds ∧ objectId ∉ v.known) ∧
    report.objects.length = min v.limit.toNat missing.length ∧
    report.objectCount.toNat = report.objects.length ∧
    report.remainingObjectCount.toNat = missing.length - min v.limit.toNat missing.length ∧
    ∀ object ∈ report.objects, ∃ o, Holds v.store o ∧ object = o.canonical

/-- The pulls bring everything that is stored, once. -/
structure Paged {σ : Type} (Holds : σ → CanonicalObject → Prop) (known : List String)
    (visits : List (PullVisit σ)) : Prop where
  counts : ∀ v ∈ visits, CountsRight Holds v
  once : (visits.flatMap PullVisit.received).Nodup ∧
    ∀ objectId ∈ visits.flatMap PullVisit.received, objectId ∉ known
  complete : ∀ before v after report, visits = before ++ v :: after → v.result = .ok report →
    report.remainingObjectCount = 0 →
    ∀ o, Holds v.store o → o.objectId ∈ knownAfter known (before ++ [v])

/-! ## From one pull to all of them -/

/-- The answer to a pull: of all that is stored and not known, the first `limit`. -/
structure PullSpec {σ : Type} (Holds : σ → CanonicalObject → Prop) (v : PullVisit σ)
    (report : BundlePullReport) (missing : List CanonicalObject) : Prop where
  result : v.result = .ok report
  objects : report.objects = missing.take v.limit.toNat
  objectCount : report.objectCount = .ofNat report.objects.length
  remaining : report.remainingObjectCount = .ofNat (missing.length - v.limit.toNat)
  nodup : (missing.map CanonicalObject.objectId).Nodup
  mem : ∀ objectId, objectId ∈ missing.map CanonicalObject.objectId ↔
    objectId ∈ v.held Holds ∧ objectId ∉ v.known
  held : ∀ object ∈ missing, ∃ o, Holds v.store o ∧ object = o.canonical
  fits : missing.length < 2 ^ 64

section Spec

variable {σ : Type} {Holds : σ → CanonicalObject → Prop} {v : PullVisit σ}
  {report : BundlePullReport} {missing : List CanonicalObject}

theorem PullSpec.toNat_remaining (h : PullSpec Holds v report missing) :
    report.remainingObjectCount.toNat = missing.length - v.limit.toNat := by
  rw [h.remaining, UInt64.toNat_ofNat_of_lt' (Nat.lt_of_le_of_lt ?_ h.fits)]
  exact Nat.sub_le _ _

theorem PullSpec.countsRight (h : PullSpec Holds v report missing) : CountsRight Holds v := by
  have hlength : report.objects.length = min v.limit.toNat missing.length := by
    rw [h.objects, List.length_take]
  refine ⟨report, _, h.result, h.nodup, h.mem, ?_, ?_, ?_, ?_⟩
  · rw [hlength, List.length_map]
  · rw [h.objectCount, UInt64.toNat_ofNat_of_lt' (Nat.lt_of_le_of_lt ?_ h.fits)]
    exact hlength ▸ Nat.min_le_right _ _
  · rw [h.toNat_remaining, List.length_map]
    omega
  · intro object ho
    rw [h.objects] at ho
    exact h.held object (List.mem_of_mem_take ho)

theorem PullSpec.exact (h : PullSpec Holds v report missing) : (v.page Holds).Exact := by
  have hreceived : v.received = (missing.map CanonicalObject.objectId).take v.limit.toNat := by
    rw [PullVisit.received, h.result, ← List.map_take, ← h.objects]
  refine ⟨_, h.nodup, h.mem, ?_, ?_⟩
  · show v.received <+: _
    rw [hreceived]
    exact List.take_prefix _ _
  have hremaining : (v.page Holds).remaining = missing.length - v.limit.toNat := by
    rw [← h.toNat_remaining, PullVisit.page, h.result]
  rw [hremaining, show (v.page Holds).received = v.received from rfl, hreceived, List.length_take,
    List.length_map]
  omega

end Spec

section Run

variable {O : Ops} {σ : Type} {store : RelayStore O} {step : σ → (o : O.Op) → O.Ans o → σ → Prop}
  {exec : (o : O.Op) → σ → O.Ans o × σ} {empty : σ} {repoId : String} {known : List String}
  {requests : List BundlePushRequest} {s : σ} {visits : List (PullVisit σ)}
  {Holds : σ → CanonicalObject → Prop}

theorem flatMap_page (Holds : σ → CanonicalObject → Prop) (visits : List (PullVisit σ)) :
    (visits.map (PullVisit.page Holds)).flatMap Page.received =
      visits.flatMap PullVisit.received := by
  rw [List.flatMap_map]
  rfl

/-- Pulls that each bring what they should are a session of exact pages. -/
theorem session_of_exact (h : Paging store step exec empty repoId known requests s visits)
    (hexact : ∀ v ∈ visits, (v.page Holds).Exact) :
    Session known (visits.map (PullVisit.page Holds)) := by
  induction h with
  | start => exact .start
  | push _ _ _ _ ih => exact ih hexact
  | @pull _ _ _ visits limit result _ _ ih =>
    rw [List.forall_mem_append] at hexact
    rw [List.map_append]
    refine .turn _ (ih hexact.1) ?_ (hexact.2 _ (List.mem_singleton_self _))
    rw [flatMap_page]
    rfl

/-- Pulls that each bring what they should bring everything, once. -/
theorem paged_of_spec (h : Paging store step exec empty repoId known requests s visits)
    (hspec : ∀ v ∈ visits, ∃ report missing, PullSpec Holds v report missing) :
    Paged Holds known visits := by
  have hsession := session_of_exact h fun v hv => (hspec v hv).choose_spec.choose_spec.exact
  refine ⟨fun v hv => (hspec v hv).choose_spec.choose_spec.countsRight, ?_, ?_⟩
  · rw [← flatMap_page Holds]
    exact hsession.nodup
  · rintro before v after report rfl hr hremaining o ho
    have hzero : (v.page Holds).remaining = 0 := by
      rw [PullVisit.page, hr]
      exact congrArg UInt64.toNat hremaining
    have hall := hsession.complete (List.map_append.trans (by rw [List.map_cons])) hzero
      (show o.objectId ∈ v.held Holds from ⟨o, ho, rfl⟩)
    rw [← List.map_singleton (f := PullVisit.page Holds), ← List.map_append, flatMap_page] at hall
    exact hall

/-- The store of each pull is one that pushes lead to, and the answer is that of a run. -/
theorem Paging.visit (hreads : ∀ request t, ((store.pullBundle request).run exec t).2 = t)
    (h : Paging store step exec empty repoId known requests s visits) :
    (∃ requests, store.Pushed step empty requests s) ∧ ∀ v ∈ visits,
      (∃ requests, store.Pushed step empty requests v.store) ∧
      (store.pullBundle ⟨repoId, v.known, some v.limit⟩).run exec v.store = (v.result, v.store) := by
  induction h with
  | start => exact ⟨⟨[], .none⟩, by simp⟩
  | push request result _ hrun ih =>
    obtain ⟨⟨requests, hpushed⟩, hvisits⟩ := ih
    exact ⟨⟨_, .push request result hpushed hrun⟩, hvisits⟩
  | @pull _ s s' visits limit result _ hrun ih =>
    obtain ⟨hpushed, hvisits⟩ := ih
    obtain rfl : s' = s := by rw [← hreads ⟨repoId, knownAfter known visits, some limit⟩ s, hrun]
    refine ⟨hpushed, List.forall_mem_append.mpr ⟨hvisits, fun v hv => ?_⟩⟩
    obtain rfl := List.mem_singleton.mp hv
    exact ⟨hpushed, hrun⟩

end Run

/-! ## One pull -/

/-- What every element of a list has, all of them have in order. -/
theorem exists_forall₂ {α β : Type} {R : α → β → Prop} {as : List α} (h : ∀ a ∈ as, ∃ b, R a b) :
    ∃ bs, List.Forall₂ R as bs := by
  induction as with
  | nil => exact ⟨[], .nil⟩
  | cons a as ih =>
    obtain ⟨⟨b, hb⟩, hrest⟩ := List.forall_mem_cons.mp h
    obtain ⟨bs, hbs⟩ := ih hrest
    exact ⟨b :: bs, .cons hb hbs⟩

theorem map_eq_of_forall₂ {α β : Type} {f : β → α} {as : List α} {bs : List β}
    (h : List.Forall₂ (fun a b => f b = a) as bs) : bs.map f = as := by
  induction h with
  | nil => rfl
  | cons hab _ ih => rw [List.map_cons, hab, ih]

/-- The file store holds the object for the repository. -/
def FileHolds (X : Crates) (repoId : String) (s : Files) (o : CanonicalObject) : Prop :=
  ∃ path, objectPath X repoId o.objectId = .ok path ∧ s[path]? = some (canonicalObjectBytes X o)

/-- The bucket holds the object for the repository. -/
def BucketHolds (X : Crates) (repoId : String) (s : Bucket) (o : CanonicalObject) : Prop :=
  s[objectName X repoId o.objectId]? = some (canonicalObjectBytes X o)

/-- Every name under the prefix of the repository is that of an object of it. -/
def OwnNames (X : Crates) (repoId : String) (s : Bucket) : Prop :=
  ∀ name ∈ s.namesUnder (objectsPrefix repoId), ∃ objectId, name = objectName X repoId objectId

section File

open FileRelayStore

variable {X : Crates} {repoId : String} {P : String → CanonicalObject → Prop}

theorem present_iff_holds {s : Files} (hs : Entries (FileEntry X P) s) {objectId : String} :
    Present X repoId s objectId ↔ ∃ o, FileHolds X repoId s o ∧ o.objectId = objectId := by
  constructor
  · intro h
    obtain ⟨path, o, hpath, rfl, hb, -⟩ := exists_object_of_present hs h
    exact ⟨o, ⟨path, hpath, hb⟩, rfl⟩
  · rintro ⟨o, ⟨path, hpath, hb⟩, rfl⟩
    exact ⟨path, _, hpath, hb⟩

/-- A pull from the file store brings what it should. -/
theorem filePull_spec (hX : ReadsBack X) {v : PullVisit Files}
    (hs : Entries (FileEntry X P) v.store) (hfits : (listed X v.store repoId).length < 2 ^ 64)
    (hrun : (pullBundle X ⟨repoId, v.known, some v.limit⟩).run Files.exec v.store =
      (v.result, v.store)) :
    ∃ report missing, PullSpec (FileHolds X repoId) v report missing := by
  have hread : ∀ id ∈ (listed X v.store repoId).filter fun id => !v.known.contains id,
      ∃ object : CanonicalObject, object.objectId = id ∧
        (∃ o, FileHolds X repoId v.store o ∧ object = o.canonical) ∧
        (readObject X repoId id).run Files.exec v.store = (.ok object, v.store) := by
    intro id hid
    obtain ⟨path, o, hpath, rfl, hb, -⟩ :=
      exists_object_of_present hs ((mem_listed hs).mp (List.mem_of_mem_filter hid))
    exact ⟨o.canonical, rfl, ⟨o, ⟨path, hpath, hb⟩, rfl⟩, run_readObject hX hpath hb⟩
  obtain ⟨missing, hmissing⟩ := exists_forall₂ hread
  have hids := map_eq_of_forall₂ (hmissing.imp fun _ _ h => h.1)
  have hlength : missing.length ≤ (listed X v.store repoId).length := by
    rw [← List.length_map (f := CanonicalObject.objectId), hids]
    exact List.length_filter_le _ _
  have hobjects : (readObjects X repoId (selected (some v.limit) _)).run Files.exec v.store = _ :=
    run_readObjects ((List.forall₂_take v.limit.toNat hmissing).imp fun _ _ h => h.2.2)
  unfold pullBundle at hrun
  rw [Prog.run_bind_ok _ (run_listObjectIds _ _)] at hrun
  dsimp only at hrun
  rw [Prog.run_bind_ok _ hobjects] at hrun
  refine ⟨_, missing, (congrArg Prod.fst hrun).symm, rfl, rfl, ?_, ?_, ?_, ?_, ?_⟩
  · rw [pullReport, ← hids, List.length_map]
    rfl
  · rw [hids]
    exact (listed_nodup hs).filter _
  · intro id
    rw [hids, List.mem_filter, mem_listed hs, present_iff_holds hs]
    simp [PullVisit.held]
  · intro object ho
    obtain ⟨id, -, -, hheld, -⟩ := exists_left_of_forall₂ hmissing ho
    exact hheld
  · exact lt_of_le_of_lt hlength hfits

end File

section Bucket

open GcsRelayStore

variable {X : Crates} {policy : Policy} {repoId : String} {requests : List BundlePushRequest}
  {s : Bucket}

/-- The name of an object is under the prefix of its repository. -/
theorem objectName_under (s : Bucket) {objectId : String}
    (h : s[objectName X repoId objectId]? ≠ none) :
    objectName X repoId objectId ∈ s.namesUnder (objectsPrefix repoId) := by
  refine mem_namesUnder.mpr ⟨h, ?_⟩
  rw [objectName, String.append_assoc, String.toList_append]
  exact List.prefix_append _ _

theorem namesUnder_nodup (s : Bucket) (listPrefix : String) : (s.namesUnder listPrefix).Nodup :=
  (keys_nodup s).filter _

/-- Two objects held under one name are one object. -/
theorem BucketHolds.objectId_inj {o o' : CanonicalObject} (h : BucketHolds X repoId s o)
    (h' : BucketHolds X repoId s o')
    (hname : objectName X repoId o.objectId = objectName X repoId o'.objectId) :
    o.objectId = o'.objectId := by
  rw [BucketHolds, hname, h'] at h
  have hc : o.canonical = o'.canonical :=
    (canonicalObjectBytes_eq_iff.mp (Option.some.inj h)).symm
  show o.canonical.objectId = o'.canonical.objectId
  rw [hc]

/-- What is under a name of the repository is an object accepted for it. -/
theorem letIn_of_name (hs : Entries (BucketEntry X (LetIn X policy requests)) s)
    {objectId : String} (h : s[objectName X repoId objectId]? ≠ none) :
    ∃ o, objectName X repoId o.objectId = objectName X repoId objectId ∧
      BucketHolds X repoId s o ∧ LetIn X policy requests repoId o := by
  obtain ⟨bytes, hb⟩ := Option.ne_none_iff_exists'.mp h
  rcases hs _ _ hb with ⟨r, o, hin, hname, rfl⟩ | ⟨r, key, report, hname, -⟩
  · obtain ⟨rfl, -⟩ := objectName_inj hname
    exact ⟨o, hname.symm, by rw [BucketHolds, ← hname, hb], hin⟩
  · exact absurd hname objectName_ne_idempotencyName

/-- The names a pull finds missing. -/
def missingNames (X : Crates) (repoId : String) (s : Bucket) (known : List String) : List String :=
  sorted ((s.namesUnder (objectsPrefix repoId)).filter fun name =>
    !(known.map (objectName X repoId)).contains name)

theorem mem_missingNames {known : List String} {name : String} :
    name ∈ missingNames X repoId s known ↔ name ∈ s.namesUnder (objectsPrefix repoId) ∧
      ∀ objectId ∈ known, name ≠ objectName X repoId objectId := by
  rw [missingNames, mem_sorted, List.mem_filter, Bool.not_eq_true', List.contains_eq_mem,
    decide_eq_false_iff_not, List.mem_map]
  refine and_congr_right fun _ => ⟨fun h id hid hname => h ⟨id, hid, hname.symm⟩, ?_⟩
  rintro h ⟨id, hid, hname⟩
  exact h id hid hname.symm

theorem missingNames_nodup (s : Bucket) (known : List String) :
    (missingNames X repoId s known).Nodup := by
  rw [missingNames, sorted, (List.mergeSort_perm _ _).nodup_iff]
  exact (namesUnder_nodup s _).filter _

theorem length_missingNames_le (X : Crates) (repoId : String) (s : Bucket) (known : List String) :
    (missingNames X repoId s known).length ≤ (s.namesUnder (objectsPrefix repoId)).length := by
  rw [missingNames, sorted, List.length_mergeSort]
  exact List.length_filter_le _ _

/-- SHA-256 tells the ids that are known from those of the objects held. -/
def KnownApart (X : Crates) (repoId : String) (v : PullVisit Bucket) : Prop :=
  ∀ objectId ∈ v.known, ∀ o, BucketHolds X repoId v.store o →
    NoCollision X (utf8 objectId) (utf8 o.objectId)

/-- An object that is held is missing when it is not known. -/
theorem missing_iff {v : PullVisit Bucket} (hapart : KnownApart X repoId v) {o : CanonicalObject}
    (ho : BucketHolds X repoId v.store o) :
    objectName X repoId o.objectId ∈ missingNames X repoId v.store v.known ↔
      o.objectId ∉ v.known := by
  rw [mem_missingNames]
  constructor
  · intro ⟨_, hne⟩ hk
    exact hne _ hk rfl
  · intro hk
    refine ⟨objectName_under _ (by rw [ho]; exact Option.some_ne_none _), fun id hid hname => ?_⟩
    exact hk (keyHash_inj (hapart id hid o ho) (objectName_inj hname).2.symm ▸ hid)

/-- A pull from a bucket where the repository has its names for itself brings what it
    should. -/
theorem bucketPull_spec (hX : ReadsBack X) {v : PullVisit Bucket}
    (hs : Entries (BucketEntry X (LetIn X policy requests)) v.store)
    (hfits : (v.store.namesUnder (objectsPrefix repoId)).length < 2 ^ 64)
    (hapart : KnownApart X repoId v) (hown : OwnNames X repoId v.store)
    (hrun : (pullBundle X policy ⟨repoId, v.known, some v.limit⟩).run Bucket.exec v.store =
      (v.result, v.store)) :
    ∃ report missing, PullSpec (BucketHolds X repoId) v report missing := by
  have hread : ∀ name ∈ missingNames X repoId v.store v.known, ∃ object : CanonicalObject,
      objectName X repoId object.objectId = name ∧
      (∃ o, BucketHolds X repoId v.store o ∧ object = o.canonical) ∧
      (readStored X policy repoId name).run Bucket.exec v.store = (.ok object, v.store) := by
    intro name hn
    obtain ⟨id, rfl⟩ := hown name (mem_missingNames.mp hn).1
    obtain ⟨o, hname, ho, hin⟩ :=
      letIn_of_name hs (mem_namesUnder.mp (mem_missingNames.mp hn).1).1
    exact ⟨o.canonical, hname, ⟨o, ho, rfl⟩, hname ▸ run_readStored hX ho hin.1⟩
  obtain ⟨missing, hmissing⟩ := exists_forall₂ hread
  have hnames : (missing.map CanonicalObject.objectId).map (objectName X repoId) =
      missingNames X repoId v.store v.known := by
    rw [List.map_map]
    exact map_eq_of_forall₂ (hmissing.imp fun _ _ h => h.1)
  have hlength : missing.length = (missingNames X repoId v.store v.known).length := by
    rw [← hnames, List.length_map, List.length_map]
  have hobjects : (readAll X policy repoId
      (selected (some v.limit) (missingNames X repoId v.store v.known))).run Bucket.exec v.store =
        _ :=
    run_readAll ((List.forall₂_take v.limit.toNat hmissing).imp fun _ _ h => h.2.2)
  unfold pullBundle at hrun
  dsimp only at hrun
  rw [Prog.run_bind_ok _ (run_listNames _ _)] at hrun
  rw [← missingNames, Prog.run_bind_ok _ hobjects] at hrun
  have hheld : ∀ object ∈ missing, ∃ o, BucketHolds X repoId v.store o ∧ object = o.canonical := by
    intro object ho
    obtain ⟨name, -, -, hheld, -⟩ := exists_left_of_forall₂ hmissing ho
    exact hheld
  refine ⟨_, missing, (congrArg Prod.fst hrun).symm, rfl, rfl, ?_, ?_, ?_, hheld, ?_⟩
  · rw [hlength]
    rfl
  · exact List.Nodup.of_map _ (hnames ▸ missingNames_nodup _ _)
  · intro id
    constructor
    · intro hid
      obtain ⟨object, ho, rfl⟩ := List.mem_map.mp hid
      obtain ⟨o, hholds, rfl⟩ := hheld object ho
      refine ⟨⟨o, hholds, rfl⟩, (missing_iff hapart hholds).mp ?_⟩
      rw [← hnames]
      exact List.mem_map_of_mem hid
    · rintro ⟨⟨o, hholds, rfl⟩, hk⟩
      have hn := (missing_iff hapart hholds).mpr hk
      rw [← hnames] at hn
      obtain ⟨id', hid', hname⟩ := List.mem_map.mp hn
      obtain ⟨object, ho, rfl⟩ := List.mem_map.mp hid'
      obtain ⟨o', hholds', rfl⟩ := hheld object ho
      rw [← hholds'.objectId_inj hholds hname]
      exact hid'
  · exact lt_of_le_of_lt (hlength ▸ length_missingNames_le _ _ _ _) hfits

/-- A pull that counts right met no name of another repository. -/
theorem ownNames_of_countsRight {v : PullVisit Bucket}
    (hfits : (v.store.namesUnder (objectsPrefix repoId)).length < 2 ^ 64)
    (hapart : KnownApart X repoId v)
    (hrun : (pullBundle X policy ⟨repoId, v.known, some v.limit⟩).run Bucket.exec v.store =
      (v.result, v.store))
    (hcounts : CountsRight (BucketHolds X repoId) v) : OwnNames X repoId v.store := by
  obtain ⟨report, ids, hr, hnodup, hmem, hobjects, -, hremaining, -⟩ := hcounts
  rw [hr] at hrun
  -- the pull counts the names it finds missing
  have hlength : (missingNames X repoId v.store v.known).length = ids.length := by
    unfold pullBundle at hrun
    dsimp only at hrun
    rw [Prog.run_bind_ok _ (run_listNames _ _), ← missingNames] at hrun
    obtain ⟨objects, s₁, hread, hreport⟩ := Prog.run_bind_inv Bucket.exec hrun
    have hn := length_of_run_readAll hread
    have hle := length_missingNames_le X repoId v.store v.known
    rw [← Except.ok.inj (congrArg Prod.fst hreport)] at hobjects hremaining
    rw [pullReport, UInt64.toNat_ofNat_of_lt' (by
      show _ - v.limit.toNat < 2 ^ 64
      omega)] at hremaining
    replace hobjects : objects.length = min v.limit.toNat ids.length := hobjects
    replace hremaining : (missingNames X repoId v.store v.known).length - v.limit.toNat =
      ids.length - min v.limit.toNat ids.length := hremaining
    rw [hn, selected, List.length_take] at hobjects
    replace hobjects : min v.limit.toNat (missingNames X repoId v.store v.known).length =
      min v.limit.toNat ids.length := hobjects
    omega
  have hname : ∀ id ∈ ids, objectName X repoId id ∈ missingNames X repoId v.store v.known := by
    intro id hid
    obtain ⟨⟨o, ho, rfl⟩, hk⟩ := (hmem id).mp hid
    exact (missing_iff hapart ho).mpr hk
  have hnames : (ids.map (objectName X repoId)).Nodup := by
    refine hnodup.map_on fun id hid id' hid' he => ?_
    obtain ⟨⟨o, ho, rfl⟩, -⟩ := (hmem id).mp hid
    obtain ⟨⟨o', ho', rfl⟩, -⟩ := (hmem id').mp hid'
    exact ho.objectId_inj ho' he
  intro name hn
  by_contra hforeign
  replace hforeign : ∀ id, name ≠ objectName X repoId id := fun id he => hforeign ⟨id, he⟩
  have hmissing : name ∈ missingNames X repoId v.store v.known :=
    mem_missingNames.mpr ⟨hn, fun id _ => hforeign id⟩
  have hnot : name ∉ ids.map (objectName X repoId) := fun h => by
    obtain ⟨id, -, he⟩ := List.mem_map.mp h
    exact hforeign id he.symm
  have hsub : name :: ids.map (objectName X repoId) ⊆ missingNames X repoId v.store v.known := by
    refine List.cons_subset.mpr ⟨hmissing, fun n hn => ?_⟩
    obtain ⟨id, hid, rfl⟩ := List.mem_map.mp hn
    exact hname id hid
  have hle := ((List.nodup_cons.mpr ⟨hnot, hnames⟩).subperm hsub).length_le
  rw [List.length_cons, List.length_map, hlength] at hle
  omega

end Bucket

/-! ## Any number of pulls -/

/-- An object pushed to a repository whose id goes on from that of `r`. -/
def foreignPush : BundlePushRequest := { nullPush with repoId := "r/objects" }

section Histories

variable {X : Crates} {policy : Policy} {request : BundlePushRequest}

/-- Only what is pushed to a repository is listed for it. -/
theorem length_listed_le {requests : List BundlePushRequest} {s : Files}
    (hs : Entries (FileRelayStore.FileEntry X (LetIn X policy requests)) s) (repoId : String) :
    (FileRelayStore.listed X s repoId).length ≤
      (requests.flatMap BundlePushRequest.objects).length := by
  suffices hsub : FileRelayStore.listed X s repoId ⊆
      (requests.flatMap BundlePushRequest.objects).map CanonicalObject.objectId by
    have hle := ((FileRelayStore.listed_nodup hs).subperm hsub).length_le
    rwa [List.length_map] at hle
  intro id hid
  obtain ⟨path, o, -, rfl, -, r, -, -, request, hreq, -, ho⟩ :=
    FileRelayStore.exists_object_of_present hs ((FileRelayStore.mem_listed hs).mp hid)
  exact List.mem_map_of_mem (List.mem_flatMap.mpr ⟨request, hreq, ho⟩)

/-- The names in a bucket after one push. -/
theorem names_of_first_push {s : Bucket} {r : Except RelayError BundlePushReport}
    (hrun : (GcsRelayStore.pushBundle X policy request).run Bucket.exec ∅ = (r, s))
    (haccepted : ∀ object ∈ request.objects, Accepted X policy request.repoId object)
    (name : String) :
    s[name]? ≠ none ↔ name ∈ idempotencyName X request.repoId request.idempotencyKey ::
      request.objects.map fun object => objectName X request.repoId object.objectId := by
  obtain ⟨validation, hv⟩ := bundleValidationReport_of_accepted haccepted
  obtain ⟨report, s₁, -, hgrows, hall, hstored⟩ :=
    GcsRelayStore.run_push_stored (s := ∅) hv Std.ExtTreeMap.getElem?_empty
  obtain rfl := congrArg Prod.snd (hstored.symm.trans hrun)
  rw [List.mem_cons, getElem?_insert_eq]
  constructor
  · intro hn
    split at hn
    · next he => exact .inl he.symm
    · obtain ⟨bytes, hb⟩ := Option.ne_none_iff_exists'.mp hn
      rcases hgrows.some_cases hb with hempty | ⟨-, object, ho, hname, -⟩
      · rw [Std.ExtTreeMap.getElem?_empty] at hempty
        cases hempty
      · exact .inr (List.mem_map.mpr ⟨object, ho, hname.symm⟩)
  · rintro (rfl | hname)
    · rw [if_pos rfl]
      exact Option.some_ne_none _
    · obtain ⟨object, ho, rfl⟩ := List.mem_map.mp hname
      split
      · exact Option.some_ne_none _
      · exact hall object ho

/-- A pull of everything fails on a record among the names. -/
theorem pull_fails_of_record (hX : ReadsBack X) {requests : List BundlePushRequest}
    {repoId r key : String} {limit : UInt64} {s s' : Bucket}
    (hs : Entries (GcsRelayStore.BucketEntry X (LetIn X policy requests)) s)
    (hn : idempotencyName X r key ∈ s.namesUnder (objectsPrefix repoId))
    (hlimit : (s.namesUnder (objectsPrefix repoId)).length ≤ limit.toNat)
    (report : BundlePullReport) :
    (GcsRelayStore.pullBundle X policy ⟨repoId, [], some limit⟩).run Bucket.exec s ≠
      (.ok report, s') := by
  intro hrun
  unfold GcsRelayStore.pullBundle at hrun
  dsimp only at hrun
  rw [Prog.run_bind_ok _ (run_listNames _ _), ← missingNames] at hrun
  obtain ⟨objects, s₁, hread, -⟩ := Prog.run_bind_inv Bucket.exec hrun
  have hruns := Prog.runs_run bucketStep_exec (GcsRelayStore.readAll X policy repoId
    (selected (some limit) (missingNames X repoId s []))) s
  rw [hread] at hruns
  have hall : selected (some limit) (missingNames X repoId s []) = missingNames X repoId s [] :=
    List.take_of_length_le (le_trans (length_missingNames_le _ _ _ _) hlimit)
  obtain ⟨-, hobjects⟩ := GcsRelayStore.runs_readAll hruns
  rw [hall] at hobjects
  obtain ⟨object, -, hstored⟩ :=
    exists_right_of_forall₂ hobjects (mem_missingNames.mpr ⟨hn, by simp⟩)
  obtain ⟨r', o, -, hname, -⟩ := GcsRelayStore.readStored_letIn hX hs hstored
  exact objectName_ne_idempotencyName hname.symm

/-- The records of `r/objects` lie under the prefix of the objects of `r`. -/
theorem record_under (r key : String) :
    (objectsPrefix r).toList <+: (idempotencyName X (r ++ "/objects") key).toList := by
  have hname : idempotencyName X (r ++ "/objects") key =
      objectsPrefix r ++ ("idempotency/" ++ keyHash X key ++ ".json") := by
    have hslash : ∀ rest : String,
        "/objects" ++ ("/idempotency/" ++ rest) = "/objects/" ++ ("idempotency/" ++ rest) := by
      intro rest
      rw [← String.append_assoc, ← String.append_assoc]
      rfl
    simp only [idempotencyName, objectsPrefix, String.append_assoc]
    rw [hslash]
  rw [hname, String.toList_append]
  exact List.prefix_append _ _

end Histories

/-- One push and one pull. -/
theorem exists_paging {O : Ops} {σ : Type} (store : RelayStore O)
    {step : σ → (o : O.Op) → O.Ans o → σ → Prop} {exec : (o : O.Op) → σ → O.Ans o × σ}
    (hexec : ∀ s o, step s o (exec o s).1 (exec o s).2) (empty : σ) (repoId : String)
    (request : BundlePushRequest) (limit : UInt64) : ∃ s s' result pushResult,
      (store.pushBundle request).run exec empty = (pushResult, s) ∧
      store.Pushed step empty [request] s ∧
      Paging store step exec empty repoId [] [request] s' [⟨s, [], limit, result⟩] := by
  have hruns := Prog.runs_run hexec (store.pushBundle request) empty
  exact ⟨_, _, _, _, rfl, .push request _ .none hruns,
    .pull limit _ (.push request _ .start hruns) rfl⟩

end RickydataGit.Relay
