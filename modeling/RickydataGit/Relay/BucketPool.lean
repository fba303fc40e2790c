/-
  Pushes to one bucket at the same time.

  Any number of pushes run in any order of their requests, each of which may fail on
  the way there or back. An upload writes a free name only, so all a call can do is
  take free names (`Extends`). What it must not do is leave a record of objects that
  are not there: `Recorded` is the invariant that says so, and `Keeps` the relation
  that every call relies on and guarantees.

  `pushes_agree`: the bytes under a name never change, calls with one key that return
  return one report, and the objects it names are there.
-/
import RickydataGit.Lib.RelyGuarantee
import RickydataGit.Relay.GcsPush

namespace RickydataGit.Relay.GcsRelayStore

open RickydataGit.Lib RickydataGit.Core

variable {X : Crates} {policy : Policy}

/-- An object that was accepted for the repository is stored under the name of the id. -/
def HeldAs (X : Crates) (policy : Policy) (repoId : String) (s : Bucket) (objectId : String) :
    Prop :=
  ∃ object : CanonicalObject, Accepted X policy repoId object ∧
    keyHash X object.objectId = keyHash X objectId ∧
    s[objectName X repoId objectId]? = some (canonicalObjectBytes X object)

/-- Names hold accepted objects and records, and the objects of a record are there. -/
structure Recorded (X : Crates) (policy : Policy) (s : Bucket) : Prop where
  entries : Entries (BucketEntry X (Accepted X policy)) s
  objects : ∀ repoId key report,
    s[idempotencyName X repoId key]? = some (recordBytes X report) →
      ∀ id ∈ report.objectIds, HeldAs X policy repoId s id

/-- Free names are taken, and the invariant stays. -/
def Keeps (X : Crates) (policy : Policy) (s s' : Bucket) : Prop :=
  Extends s s' ∧ (Recorded X policy s → Recorded X policy s')

section Keeps

variable {s s' s'' : Bucket} {repoId objectId : String}

theorem Keeps.refl (s : Bucket) : Keeps X policy s s := ⟨Extends.refl s, id⟩

theorem Keeps.trans (h : Keeps X policy s s') (h' : Keeps X policy s' s'') :
    Keeps X policy s s'' := ⟨h.1.trans h'.1, fun hs => h'.2 (h.2 hs)⟩

theorem HeldAs.extends (h : HeldAs X policy repoId s objectId) (hs : Extends s s') :
    HeldAs X policy repoId s' objectId := by
  obtain ⟨object, ha, hk, hb⟩ := h
  exact ⟨object, ha, hk, hs _ _ hb⟩

/-- A name of an object that is taken holds an accepted object. -/
theorem Recorded.held (hs : Recorded X policy s) (h : s[objectName X repoId objectId]? ≠ none) :
    HeldAs X policy repoId s objectId := by
  obtain ⟨bytes, hb⟩ := Option.ne_none_iff_exists'.mp h
  rcases hs.entries _ _ hb with ⟨r, object, ha, hname, rfl⟩ | ⟨r, key, report, hname, -⟩
  · obtain ⟨rfl, hk⟩ := objectName_inj hname
    exact ⟨object, ha, hk.symm, hb⟩
  · exact absurd hname objectName_ne_idempotencyName

theorem recorded_empty : Recorded X policy ∅ where
  entries := entries_empty _
  objects repoId key report h := by
    rw [Std.ExtTreeMap.getElem?_empty] at h
    cases h

/-- An accepted object may be put under its name. -/
theorem keeps_object {object : CanonicalObject} (ha : Accepted X policy repoId object)
    (hn : s[objectName X repoId object.objectId]? = none) :
    Keeps X policy s
      (s.insert (objectName X repoId object.objectId) (canonicalObjectBytes X object)) := by
  have hext := extends_insert hn (canonicalObjectBytes X object)
  refine ⟨hext, fun hs => ⟨?_, ?_⟩⟩
  · exact entries_insert hs.entries (.inl ⟨repoId, object, ha, rfl, rfl⟩)
  · intro r key report hrec id hid
    rw [getElem?_insert_eq, if_neg objectName_ne_idempotencyName] at hrec
    exact (hs.objects r key report hrec id hid).extends hext

/-- A record may be left once its objects are there. -/
theorem keeps_record (hX : ReadsBack X) {key : String} {report : BundlePushReport}
    (hn : s[idempotencyName X repoId key]? = none)
    (hall : ∀ id ∈ report.objectIds, HeldAs X policy repoId s id) :
    Keeps X policy s (s.insert (idempotencyName X repoId key) (recordBytes X report)) := by
  have hext := extends_insert hn (recordBytes X report)
  refine ⟨hext, fun hs => ⟨?_, ?_⟩⟩
  · exact entries_insert hs.entries (.inr ⟨repoId, key, report, rfl, rfl⟩)
  · intro r key' report' hrec id hid
    rw [getElem?_insert_eq] at hrec
    split at hrec
    · next he =>
        obtain ⟨rfl, -⟩ := idempotencyName_inj he
        obtain rfl := recordBytes_inj hX (Option.some.inj hrec)
        exact (hall id hid).extends hext
    · exact (hs.objects r key' report' hrec id hid).extends hext

end Keeps

/-! ## Requests amid those of others -/

/-- The judgement for a call of the pool. -/
abbrev Safe {α : Type} (X : Crates) (policy : Policy) (p : BucketProg α)
    (Q : Except RelayError α → Bucket → Prop) (t : List (Prog.Event bucketOps)) (s : Bucket) :
    Prop :=
  p.Sound BucketStep (Keeps X policy) (Keeps X policy) (fun _ => Q) t s

section Requests

variable {t : List (Prog.Event bucketOps)} {s : Bucket} {α β : Type}

/-- A request, retried. `P` holds before it and whatever others do, and `S` of the
    response that is taken. -/
theorem safe_sendWithRetry {o : BucketOp} {wrap : bucketOps.Ans o → Except String (Response α)}
    {P : Bucket → Prop} {S : Response α → Bucket → Prop}
    (hP : ∀ s s', Keeps X policy s s' → P s → P s')
    (hstep : ∀ s a s', P s → BucketStep s o a s' →
      Keeps X policy s s' ∧ ∀ r, wrap a = .ok r → S r s')
    (attempts : Nat) (hs : P s) :
    Safe X policy (sendWithRetry (.op o fun a => .ret (wrap a)) attempts)
      (fun r s => P s ∧ ∀ response, r = .ok response → S response s) t s := by
  -- what one attempt leaves, and what its answer says
  have hone : ∀ {s s₁ : Bucket}, P s → Keeps X policy s s₁ → ∀ a s₂, BucketStep s₁ o a s₂ →
      Keeps X policy s₁ s₂ ∧ P s₂ ∧ ∀ r, wrap a = .ok r → S r s₂ := by
    intro s s₁ hs h₁ a s₂ h₂
    obtain ⟨hkeep, hS⟩ := hstep s₁ a s₂ (hP _ _ h₁ hs) h₂
    exact ⟨hkeep, hP _ _ hkeep (hP _ _ h₁ hs), hS⟩
  induction attempts generalizing t s with
  | zero =>
    intro s₁ h₁ a s₂ h₂
    obtain ⟨hkeep, hs₂, hS⟩ := hone hs h₁ a s₂ h₂
    refine ⟨hkeep, ?_⟩
    dsimp only
    rcases hw : wrap a with m | r
    · exact ⟨hs₂, nofun⟩
    · refine ⟨hs₂, ?_⟩
      rintro _ ⟨⟩
      exact hS r hw
  | succ attempts ih =>
    intro s₁ h₁ a s₂ h₂
    obtain ⟨hkeep, hs₂, hS⟩ := hone hs h₁ a s₂ h₂
    refine ⟨hkeep, ?_⟩
    dsimp only
    rcases hw : wrap a with m | r
    · exact ih hs₂
    · show Prog.Sound _ _ _ _ (if r.isServerError then sendWithRetry _ attempts else .ret r) _ _
      split
      · exact ih hs₂
      · refine ⟨hs₂, ?_⟩
        rintro _ ⟨⟩
        exact hS r hw

/-- Whatever has to be done about the token changes nothing. -/
theorem safe_withAuth {f : Unit → BucketProg α} {P : Bucket → Prop}
    {Q : Except RelayError α → Bucket → Prop} (hP : ∀ s s', Keeps X policy s s' → P s → P s')
    (hQ : ∀ e s, P s → Q (.error e) s) (hf : ∀ t s, P s → Safe X policy (f ()) Q t s) (hs : P s) :
    Safe X policy (withAuth >>= f) Q t s := by
  intro s₁ h₁ a s₂ h₂
  obtain rfl : s₂ = s₁ := h₂
  refine ⟨Keeps.refl _, ?_⟩
  rcases a with m | u
  · exact hQ _ _ (hP _ _ h₁ hs)
  · exact hf _ _ (hP _ _ h₁ hs)

theorem isError_of_failed {a : Except String (Response α)} (h : Failed a) {r : Response α}
    (hr : a = .ok r) : r.isError = true ∧ r.status ∉ [404, 409, 412] := by
  subst hr
  exact h

/-- What a download finds is there from then on. -/
theorem safe_getBytes (name : String) (hs : Recorded X policy s) :
    Safe X policy (getBytes name)
      (fun r s => Recorded X policy s ∧ ∀ bytes, r = .ok bytes → s[name]? = some bytes) t s := by
  refine safe_withAuth (P := Recorded X policy) (fun s s' h hr => h.2 hr)
    (fun e s hr => ⟨hr, nofun⟩) (fun t s hr => ?_) hs
  refine Prog.Sound.bind (safe_sendWithRetry (P := Recorded X policy)
    (S := fun r s => r.status = 404 ∨ r.isError = true ∨ s[name]? = some r.body)
    (fun s s' h hr => h.2 hr) ?_ 2 hr) ?_ ?_
  · rintro s a s' - ⟨ha, rfl⟩
    refine ⟨Keeps.refl _, fun r hr => ?_⟩
    rcases ha with hf | hf
    · exact .inr (.inl (isError_of_failed hf hr).1)
    · obtain rfl := Except.ok.inj ((show a = .ok r from hr).symm.trans hf)
      rcases s'[name]? with _ | b
      · exact .inl rfl
      · exact .inr (.inr rfl)
  · rintro t r s ⟨hr, hS⟩
    split
    · exact ⟨hr, nofun⟩
    · next h404 =>
        split
        · exact ⟨hr, nofun⟩
        · next herr =>
            refine ⟨hr, ?_⟩
            rintro _ ⟨⟩
            exact ((hS r rfl).resolve_left h404).resolve_left herr
  · rintro t e s ⟨hr, -⟩
    exact ⟨hr, nofun⟩

theorem safe_listNames (listPrefix : String) (hs : Recorded X policy s) :
    Safe X policy (listNames listPrefix)
      (fun r s => Recorded X policy s ∧ ∀ names, r = .ok names → ∀ name ∈ names, s[name]? ≠ none)
      t s := by
  refine safe_withAuth (P := Recorded X policy) (fun s s' h hr => h.2 hr)
    (fun e s hr => ⟨hr, nofun⟩) (fun t s hr => ?_) hs
  refine Prog.Sound.bind (safe_sendWithRetry (P := Recorded X policy)
    (S := fun r s => r.isError = true ∨ ∀ name ∈ r.body, s[name]? ≠ none)
    (fun s s' h hr => h.2 hr) ?_ 2 hr) ?_ ?_
  · rintro s a s' - ⟨ha, rfl⟩
    refine ⟨Keeps.refl _, fun r hr => ?_⟩
    rcases ha with hf | hf
    · exact .inl (isError_of_failed hf hr).1
    · obtain rfl := Except.ok.inj ((show a = .ok r from hr).symm.trans hf)
      refine .inr fun name hname => ?_
      rw [Bucket.namesUnder, List.mem_filter, mem_keys_iff] at hname
      exact hname.1
  · rintro t r s ⟨hr, hS⟩
    split
    · exact ⟨hr, fun _ he => by cases he⟩
    · next herr =>
        refine ⟨hr, ?_⟩
        rintro _ ⟨⟩
        exact (hS r rfl).resolve_left herr
  · rintro t e s ⟨hr, -⟩
    exact ⟨hr, fun _ he => by cases he⟩

/-- An upload that may be made: afterwards the name is taken, by these bytes if it says
    that they were written. -/
theorem safe_putBytesIfAbsent {name : String} {bytes : Bytes} {P : Bucket → Prop}
    (hP : ∀ s s', Keeps X policy s s' → P s → P s')
    (hput : ∀ s, P s → s[name]? = none → Keeps X policy s (s.insert name bytes)) (hs : P s) :
    Safe X policy (putBytesIfAbsent name bytes)
      (fun r s => P s ∧ (r = .ok .written → s[name]? = some bytes) ∧
        (r = .ok .alreadyExists → s[name]? ≠ none)) t s := by
  refine safe_withAuth hP (fun e s hr => ⟨hr, nofun, nofun⟩) (fun t s hr => ?_) hs
  refine Prog.Sound.bind (safe_sendWithRetry (P := P)
    (S := fun r s => (r.isSuccess = true → s[name]? = some bytes) ∧
      (r.status = 412 ∨ r.status = 409 → s[name]? ≠ none)) hP ?_ 2 hr) ?_ ?_
  · intro s a s' hps hstep
    have hfailed : ∀ {r : Response Unit}, Failed a → a = .ok r →
        r.isSuccess ≠ true ∧ ¬ (r.status = 412 ∨ r.status = 409) := by
      intro r hf hr
      obtain ⟨he, hstatus⟩ := isError_of_failed hf hr
      simp only [Response.isError, Bool.and_eq_true, decide_eq_true_eq] at he
      simp only [List.mem_cons, List.not_mem_nil, or_false, not_or] at hstatus
      refine ⟨fun hsuccess => ?_, by omega⟩
      simp only [Response.isSuccess, Bool.and_eq_true, decide_eq_true_eq] at hsuccess
      omega
    rcases hstep with ⟨hn, ha, rfl⟩ | ⟨hn, ha, rfl⟩ | ⟨ha, rfl⟩
    · have hb : (s.insert name bytes)[name]? = some bytes := by
        rw [getElem?_insert_eq, if_pos rfl]
      refine ⟨hput s hps hn, fun r hr => ⟨fun _ => hb, fun _ => ?_⟩⟩
      rw [hb]
      exact Option.some_ne_none bytes
    · refine ⟨Keeps.refl _, fun r hr => ⟨fun hsuccess => ?_, fun _ => hn⟩⟩
      rcases ha with ha | ha
      · obtain rfl := Except.ok.inj ((show a = .ok r from hr).symm.trans ha)
        exact absurd hsuccess (by decide)
      · obtain rfl := Except.ok.inj ((show a = .ok r from hr).symm.trans ha)
        exact absurd hsuccess (by decide)
    · refine ⟨Keeps.refl _, fun r hr => ?_⟩
      obtain ⟨h₁, h₂⟩ := hfailed ha hr
      exact ⟨fun h => absurd h h₁, fun h => absurd h h₂⟩
  · rintro t r s ⟨hps, hS⟩
    obtain ⟨hsuccess, hexists⟩ := hS r rfl
    split
    · next h => exact ⟨hps, fun _ => hsuccess h, nofun⟩
    · split
      · next h => exact ⟨hps, nofun, fun _ => hexists h⟩
      · exact ⟨hps, nofun, nofun⟩
  · rintro t e s ⟨hps, -⟩
    exact ⟨hps, nofun, nofun⟩

end Requests

/-! ## The parts of a push -/

section Push

variable {t : List (Prog.Event bucketOps)} {s : Bucket}

/-- A record that is read is stored, with its objects. -/
theorem safe_readReport (hX : ReadsBack X) (repoId key : String) (hs : Recorded X policy s) :
    Safe X policy (readReport X (idempotencyName X repoId key))
      (fun r s => Recorded X policy s ∧ ∀ report, r = .ok report →
        s[idempotencyName X repoId key]? = some (recordBytes X report)) t s := by
  refine Prog.Sound.bind (safe_getBytes _ hs) (fun t bytes s ⟨hr, hget⟩ => ?_)
    fun t e s ⟨hr, _⟩ => ⟨hr, nofun⟩
  refine Prog.sound_ofExcept ⟨hr, fun report hparse => ?_⟩
  have hb := hget bytes rfl
  rcases hr.entries _ _ hb with ⟨r, object, -, hname, -⟩ | ⟨r, key', report', -, rfl⟩
  · exact absurd hname.symm objectName_ne_idempotencyName
  · rw [reportFromSlice_recordBytes hX] at hparse
    rw [hb, ← Except.ok.inj hparse]

/-- The loop ends with every object held. -/
theorem safe_putObjects {repoId : String} {existingNames : List String}
    {objects : List CanonicalObject} (ha : ∀ object ∈ objects, Accepted X policy repoId object)
    (accepted duplicate : UInt64) (hs : Recorded X policy s)
    (hexisting : ∀ name ∈ existingNames, s[name]? ≠ none) :
    Safe X policy (putObjects X repoId existingNames accepted duplicate objects)
      (fun r s => Recorded X policy s ∧ ∀ counts, r = .ok counts →
        ∀ object ∈ objects, HeldAs X policy repoId s object.objectId) t s := by
  induction objects generalizing t s accepted duplicate with
  | nil => exact ⟨hs, fun _ _ => by simp⟩
  | cons object rest ih =>
    obtain ⟨hobject, hrest⟩ := List.forall_mem_cons.mp ha
    -- once the first object is held, it stays so during the rest of the loop
    have hstep : ∀ t s accepted duplicate, Recorded X policy s →
        (∀ name ∈ existingNames, s[name]? ≠ none) →
        s[objectName X repoId object.objectId]? ≠ none →
        Safe X policy (putObjects X repoId existingNames accepted duplicate rest)
          (fun r s => Recorded X policy s ∧ ∀ counts, r = .ok counts →
            ∀ o ∈ object :: rest, HeldAs X policy repoId s o.objectId) t s := by
      intro t s accepted duplicate hr hall hhead
      have hkept : ∀ s s', Keeps X policy s s' → HeldAs X policy repoId s object.objectId →
          HeldAs X policy repoId s' object.objectId := fun s s' h hheld => hheld.extends h.1
      refine ((ih hrest accepted duplicate hr hall).frame hkept hkept (hr.held hhead)).mono ?_
      rintro t r s ⟨⟨hr, hrest⟩, hheld⟩
      exact ⟨hr, fun counts hc => List.forall_mem_cons.mpr ⟨hheld, hrest counts hc⟩⟩
    unfold putObjects
    dsimp only
    by_cases hlisted : existingNames.contains (objectName X repoId object.objectId) = true
    · rw [if_pos hlisted]
      exact hstep _ _ _ _ hs hexisting (hexisting _ (List.contains_iff_mem.mp hlisted))
    · rw [if_neg hlisted]
      let P : Bucket → Prop := fun s => Recorded X policy s ∧ ∀ name ∈ existingNames, s[name]? ≠ none
      have hP : ∀ s s', Keeps X policy s s' → P s → P s' := fun s s' h hp =>
        ⟨h.2 hp.1, fun name hname => ne_none_of_extends h.1 (hp.2 name hname)⟩
      refine Prog.Sound.bind (safe_putBytesIfAbsent hP (fun s hp hn => keeps_object hobject hn)
        ⟨hs, hexisting⟩) ?_ ?_
      · rintro t put s ⟨⟨hr, hall⟩, hwritten, hexists⟩
        rcases put with _ | _
        · refine hstep _ _ _ _ hr hall ?_
          rw [hwritten rfl]
          exact Option.some_ne_none _
        · exact hstep _ _ _ _ hr hall (hexists rfl)
      · rintro t e s ⟨⟨hr, -⟩, -⟩
        exact ⟨hr, fun _ he => by cases he⟩

/-- What holds of a push from when it has returned. -/
def PushDone (X : Crates) (policy : Policy) (request : BundlePushRequest)
    (r : Except RelayError BundlePushReport) (s : Bucket) : Prop :=
  Recorded X policy s ∧ ∀ report, r = .ok report →
    s[idempotencyName X request.repoId request.idempotencyKey]? = some (recordBytes X report)

theorem safe_pushBundle (hX : ReadsBack X) (request : BundlePushRequest)
    (hs : Recorded X policy s) :
    Safe X policy (pushBundle X policy request) (PushDone X policy request) t s := by
  unfold pushBundle
  rcases hv : bundleValidationReport X policy request with e | validation
  · exact ⟨hs, nofun⟩
  have ha := (bundleValidationReport_ok hv).1
  show Safe X policy (pushValidated X request) _ t s
  refine Prog.Sound.bind (safe_readReport hX _ _ hs).attempt ?_ (by rintro t e s ⟨x, ⟨⟩, -⟩)
  rintro t found s ⟨x, hfound, hr, hrecord⟩
  obtain rfl := Except.ok.inj hfound
  rcases found with e | report
  swap
  · exact ⟨hr, fun report' he => by rw [← Except.ok.inj he]; exact hrecord report rfl⟩
  -- no record was found, for whatever reason
  refine Prog.Sound.bind (safe_listNames _ hr) ?_ (fun t e s ⟨hr, _⟩ => ⟨hr, nofun⟩)
  rintro t names s ⟨hr, hnames⟩
  refine Prog.Sound.bind (safe_putObjects ha 0 0 hr (hnames names rfl)) ?_
    (fun t e s ⟨hr, _⟩ => ⟨hr, nofun⟩)
  rintro t ⟨accepted, duplicate⟩ s ⟨hr, hall⟩
  let P : Bucket → Prop := fun s => Recorded X policy s ∧
    ∀ object ∈ request.objects, HeldAs X policy request.repoId s object.objectId
  have hP : ∀ s s', Keeps X policy s s' → P s → P s' := fun s s' h hp =>
    ⟨h.2 hp.1, fun object ho => (hp.2 object ho).extends h.1⟩
  refine Prog.Sound.bind (safe_putBytesIfAbsent hP (fun s hp hn => keeps_record hX hn ?_)
    ⟨hr, hall _ rfl⟩) ?_ (fun t e s ⟨⟨hr, _⟩, _⟩ => ⟨hr, nofun⟩)
  · intro id hid
    obtain ⟨object, ho, rfl⟩ := List.mem_map.mp hid
    exact hp.2 object ho
  · rintro t put s ⟨⟨hr, -⟩, hwritten, -⟩
    rcases put with _ | _
    · refine ⟨hr, fun report he => ?_⟩
      rw [← Except.ok.inj he]
      exact hwritten rfl
    · exact safe_readReport hX _ _ hr

end Push

/-! ## Any pushes, in any order -/

/-- The pushes keep to `Keeps`. -/
theorem keeping_push (hX : ReadsBack X) (policy : Policy) :
    Pool.Keeping BucketStep (pushBundle X policy) (Recorded X policy) (Keeps X policy)
      (PushDone X policy) where
  refl := Keeps.refl
  trans _ _ _ := Keeps.trans
  inv _ _ hs h := h.2 hs
  stable _ _ _ _ h hq := ⟨h.2 hq.1, fun report hr => h.1 _ _ (hq.2 report hr)⟩
  started request _ hs := safe_pushBundle hX request hs

/-- The pool of all pushes made to a store. -/
abbrev Pushes := Pool Bucket bucketOps RelayError BundlePushReport BundlePushRequest

/-- The calls with a key that have returned agree, and no name is written twice. -/
structure PushesAgree (X : Crates) (policy : Policy) (c : Pushes) : Prop where
  one_report : ∀ call ∈ c.calls, ∀ call' ∈ c.calls,
    call.request.repoId = call'.request.repoId →
    call.request.idempotencyKey = call'.request.idempotencyKey →
    ∀ report report', call.Returned report → call'.Returned report' → report = report'
  stored : ∀ call ∈ c.calls, ∀ report, call.Returned report → ∀ id ∈ report.objectIds,
    HeldAs X policy call.request.repoId c.store id
  write_once : ∀ c' : Pushes,
    Pool.Reach BucketStep (pushBundle X policy) (fun _ _ => True) c c' → Extends c.store c'.store

/-- In every run of any pushes, killed or not, with requests that fail on the way there
    or back, the calls with one key agree. -/
theorem pushes_agree (hX : ReadsBack X) (policy : Policy) (c : Pushes)
    (h : Pool.Reach BucketStep (pushBundle X policy) (fun _ _ => True) (Pool.idle ∅) c) :
    PushesAgree X policy c := by
  obtain ⟨hrecorded, -, hdone⟩ := Pool.reach_keeping (keeping_push hX policy) recorded_empty h
  refine ⟨?_, ?_, ?_⟩
  · intro call hcall call' hcall' hrepo hkey report report' hr hr'
    have hb := (hdone call hcall report hr).2 report rfl
    have hb' := (hdone call' hcall' report' hr').2 report' rfl
    rw [hrepo, hkey, hb'] at hb
    exact (recordBytes_inj hX (Option.some.inj hb)).symm
  · intro call hcall report hr id hid
    exact hrecorded.objects _ _ _ ((hdone call hcall report hr).2 report rfl) id hid
  · intro c' hlater
    exact (Pool.reach_keeping_later (keeping_push hX policy) recorded_empty h hlater).1

/-- A push that has returned. -/
theorem nullPush_agrees : ∃ c : Pushes,
    (∃ call ∈ c.calls, ∃ report, call.Returned report) ∧
      PushesAgree .reference ⟨false, []⟩ c := by
  obtain ⟨t, hreach⟩ := Pool.reach_alone bucketStep_exec
    (pushBundle .reference ⟨false, []⟩) nullPush ∅
  have hvalid : ∃ validation,
      bundleValidationReport .reference ⟨false, []⟩ nullPush = .ok validation :=
    bundleValidationReport_of_accepted (by simp [nullPush, accepted_unsigned])
  obtain ⟨validation, hv⟩ := hvalid
  obtain ⟨report, s₁, -, -, -, hrun⟩ := run_push_stored (s := ∅) hv
    Std.ExtTreeMap.getElem?_empty
  refine ⟨_, ?_, pushes_agree readsBack_reference _ _ hreach⟩
  rw [hrun]
  exact ⟨_, List.mem_singleton_self _, report, rfl⟩

end RickydataGit.Relay.GcsRelayStore
