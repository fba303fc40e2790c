/-
  The status of an attempt, and that clones with the same objects agree on it.

  `find_attempt` takes the attempt object of the least id among those with the attempt
  id, and `effective_attempt_status` the last transition by time and object id.
  Both read all objects of their kind, in the order of the ids; what they make of
  them is a function of the ids and of what each body says (`listBodies_eq`).

  `attempt_views_converge`: two stores of valid objects with the same attempts and
  transitions give the same results, however their copies came about, as long as every
  copy deserialises as its canonical form does. Copies in which an integer is spelled as
  a float do not (`floatLease_diverges`).
-/
import RickydataGit.Core.Representation
import RickydataGit.Cli.Patches
import RickydataGit.Git.Copies

namespace RickydataGit.Cli

open RickydataGit.Lib RickydataGit.Core RickydataGit.Git

structure AttemptStatusTransition where
  attemptId : String
  status : AttemptStatus
  reason : Option String
  createdBy : Option String
  createdAtMs : UInt64
  deriving DecidableEq

def AttemptStatusTransition.ofValue (v : Value) : Option AttemptStatusTransition := do
  let field ← asStruct ["attempt_id", "status", "reason", "created_by", "created_at_ms"] v
  let attemptId ← (field "attempt_id").bind readStr
  let status ← (field "status").bind AttemptStatus.ofValue
  let reason ← readOption readStr (field "reason")
  let createdBy ← readOption readStr (field "created_by")
  let createdAtMs ← (field "created_at_ms").bind readU64
  return { attemptId, status, reason, createdBy, createdAtMs }

/-- The transitions of an attempt, from the earliest on. -/
def sortedTransitions (transitions : List (String × AttemptStatusTransition)) :
    List (String × AttemptStatusTransition) :=
  transitions.mergeSort fun left right =>
    left.2.createdAtMs < right.2.createdAtMs ||
      (left.2.createdAtMs == right.2.createdAtMs && decide (left.1 ≤ right.1))

section

variable (T : Tools)

/-- The transitions of all attempts, with their object ids. -/
def listTransitions : Command (List (String × AttemptStatusTransition)) := do
  let listed ← listBodies T "agent.attempt_status" "AttemptStatusTransition"
    AttemptStatusTransition.ofValue
  return listed.map fun entry => (entry.objectId, entry.body)

def effectiveAttemptStatus (attemptId : String) : Command (AttemptStatus × Option String) := do
  let attempt ← findAttempt T attemptId
  let listed ← listTransitions T
  let transitions := listed.filter fun transition => transition.2.attemptId == attemptId
  match (sortedTransitions transitions).getLast? with
  | some (objectId, transition) => return (transition.status, some objectId)
  | none => return (attempt.status, none)

end

/-! ## Lists by id -/

/-- The id of a listed object and what its body says. -/
def Listed.view {α : Type} (entry : Listed α) : String × α := (entry.objectId, entry.body)

/-- What each id of a list says, if every one of them can be read. -/
def viewsOf {α : Type} (view : String → Except CliError α) (ids : List String) :
    Except CliError (List (String × α)) :=
  ids.mapM fun id => (view id).map fun body => (id, body)

section Views

variable {α : Type} {T : Tools} {s t : ObjectStore} {name : String} {read : Value → Option α}
  {view : String → Except CliError α}

theorem viewsOf_nil : viewsOf view [] = .ok [] := rfl

theorem viewsOf_cons (id : String) (ids : List String) : viewsOf view (id :: ids) =
    (view id).bind fun body => (viewsOf view ids).map fun views => (id, body) :: views := by
  unfold viewsOf
  rw [List.mapM_cons]
  rcases view id with e | body
  · rfl
  · rfl

variable (view) in
theorem readBodies_eq {entries : List ObjectListEntry}
    (h : ∀ entry ∈ entries, ∃ o, Sound T.toCrates entry.objectId o s ∧
      bodyOf T name read o = view entry.objectId) :
    ((readBodies T name read entries).run exec s).1.map (List.map Listed.view) =
      viewsOf view (entries.map ObjectListEntry.objectId) := by
  induction entries generalizing s with
  | nil => rfl
  | cons entry rest ih =>
    obtain ⟨⟨o, ho, hview⟩, hrest⟩ := List.forall_mem_cons.mp h
    obtain ⟨report, s', hrun, hobject, -, hsame⟩ := ho.read
    have hrun' := (Prog.run_mapFail_ok_iff exec CliError.git).mpr hrun
    have hih := ih (s := s') fun e he => by
      obtain ⟨o', ho', hv'⟩ := hrest e he
      exact ⟨o', ho'.same hsame, hv'⟩
    rw [List.map_cons, viewsOf_cons, ← hih, readBodies, Prog.run_bind_ok exec hrun', hobject,
      hview, Prog.run_bind, Prog.run_ofExcept]
    rcases view entry.objectId with e | body
    · rfl
    · simp only [Except.bind]
      rw [Prog.run_bind]
      rcases (readBodies T name read rest).run exec s' with ⟨e | listed, s₁⟩
      · rfl
      · rfl

variable (view) in
/-- The records of a kind, by id. -/
theorem listBodies_eq {kind : String} {ids : List String} (hs : AllValid T.toCrates s)
    (hids : ids.Pairwise (· < ·)) (hmem : ∀ id, id ∈ ids ↔ RefBackedOf T.toCrates s kind id)
    (h : ∀ id ∈ ids, ∃ o, Sound T.toCrates id o s ∧ bodyOf T name read o = view id) :
    ((listBodies T kind name read).run exec s).1.map (List.map Listed.view) =
      viewsOf view ids := by
  obtain ⟨entries, hlist, hsorted, hentries⟩ := hs.list kind
  have hsame : entries.map ObjectListEntry.objectId = ids :=
    hsorted.eq_of_mem_iff hids fun id => (hentries id).trans (hmem id).symm
  rw [listBodies, Prog.run_bind_ok exec ((Prog.run_mapFail_ok_iff exec _).mpr hlist),
    readBodies_eq view, hsame]
  intro entry he
  exact h _ (hsame ▸ List.mem_map_of_mem he)

/-- Ids that a filter leaves out of the views can be left out of the list. -/
theorem viewsOf_filter {ids ids' : List String} (hsub : ids.Sublist ids') (hnodup : ids'.Nodup)
    {keep : String × α → Bool}
    (h : ∀ id ∈ ids', id ∉ ids → ∃ body, view id = .ok body ∧ keep (id, body) = false) :
    (viewsOf view ids').map (List.filter keep) = (viewsOf view ids).map (List.filter keep) := by
  induction hsub with
  | slnil => rfl
  | @cons ids ids' id hsub ih =>
    obtain ⟨hnew, hnodup'⟩ := List.nodup_cons.mp hnodup
    obtain ⟨body, hbody, hkeep⟩ := h id List.mem_cons_self fun hm => hnew (hsub.subset hm)
    rw [viewsOf_cons, hbody, Except.bind,
      ← ih hnodup' fun id' hm hne => h id' (List.mem_cons_of_mem _ hm) hne]
    rcases viewsOf view ids' with e | views
    · rfl
    · simp [Except.map, hkeep]
  | @cons_cons ids ids' id hsub ih =>
    obtain ⟨hnew, hnodup'⟩ := List.nodup_cons.mp hnodup
    have hih := ih hnodup' fun id' hm hne => h id' (List.mem_cons_of_mem _ hm) fun hm' => by
      rcases List.mem_cons.mp hm' with rfl | hm'
      · exact hnew hm
      · exact hne hm'
    rw [viewsOf_cons, viewsOf_cons]
    rcases view id with e | body
    · rfl
    · simp only [Except.bind]
      rcases hv' : viewsOf view ids' with e' | views' <;> rcases hv : viewsOf view ids with e | views
      all_goals
        rw [hv', hv] at hih
        simp only [Except.map, reduceCtorEq, Except.error.injEq, Except.ok.injEq] at hih
      · rw [hih]
      · simp [Except.map, List.filter_cons, hih]

/-- All copies of a kind say one thing for each id, when they say what their canonical
    form says. -/
theorem exists_view (kind : String) (hs : AllValid T.toCrates s) (ht : AllValid T.toCrates t)
    (hsha : NoCollisions T.toCrates s t)
    (hread : ∀ o, HasCopy T.toCrates s o ∨ HasCopy T.toCrates t o → o.kind = kind →
      bodyOf T name read o = bodyOf T name read o.canonical) :
    ∃ view : String → Except CliError α, ∀ o, HasCopy T.toCrates s o ∨ HasCopy T.toCrates t o →
      o.kind = kind → bodyOf T name read o = view o.objectId := by
  classical
  refine ⟨fun id => if h : ∃ o, (HasCopy T.toCrates s o ∨ HasCopy T.toCrates t o) ∧ o.kind = kind ∧
    o.objectId = id then bodyOf T name read h.choose else .error .panic, fun o ho hk => ?_⟩
  have hex : ∃ o', (HasCopy T.toCrates s o' ∨ HasCopy T.toCrates t o') ∧ o'.kind = kind ∧
      o'.objectId = o.objectId := ⟨o, ho, hk, rfl⟩
  obtain ⟨ho', hk', hid⟩ := hex.choose_spec
  dsimp only
  rw [dif_pos hex]
  have hbody := (hsha.agree hs ht ho ho' hid.symm).2
  rw [hread _ ho hk, hread _ ho' hk']
  simp only [bodyOf, CanonicalObject.canonical, hbody]

end Views

/-! ## Attempts and their status by id -/

/-- What `find_attempt` makes of the attempts. -/
def attemptOf (attemptId : String) (attempts : List (String × AgentAttempt)) :
    Except CliError AgentAttempt :=
  match (attempts.mergeSort fun left right =>
      decide (left.2.attemptId ≤ right.2.attemptId)).find? fun attempt =>
        attempt.2.attemptId == attemptId with
  | none => .error (.bail s!"attempt {attemptId} was not found")
  | some attempt => .ok attempt.2

/-- What `effective_attempt_status` makes of the transitions of the attempt. -/
def statusOf (attempt : AgentAttempt) (transitions : List (String × AttemptStatusTransition)) :
    AttemptStatus × Option String :=
  match (sortedTransitions transitions).getLast? with
  | some (objectId, transition) => (transition.status, some objectId)
  | none => (attempt.status, none)

section Status

variable {T : Tools} {s t : ObjectStore}

theorem findAttempt_eq {views : Except CliError (List (String × AgentAttempt))}
    (h : ((listBodies T "agent.attempt" "AgentAttempt" AgentAttempt.ofValue).run exec s).1.map
      (List.map Listed.view) = views) (attemptId : String) :
    ((findAttempt T attemptId).run exec s).1 = views.bind (attemptOf attemptId) := by
  rcases hrun : (listBodies T "agent.attempt" "AgentAttempt" AgentAttempt.ofValue).run exec s with
    ⟨e | listed, s'⟩
  · rw [hrun] at h
    rw [← h, findAttempt, listAttempts, Prog.run_bind, Prog.run_bind, hrun]
    rfl
  · have hsort : (listed.mergeSort fun left right =>
          decide (left.body.attemptId ≤ right.body.attemptId)).map Listed.view =
        (listed.map Listed.view).mergeSort fun left right =>
          decide (left.2.attemptId ≤ right.2.attemptId) :=
      List.map_mergeSort fun a _ b _ => rfl
    have hlist : (listAttempts T).run exec s = (.ok (listed.mergeSort fun left right =>
        decide (left.body.attemptId ≤ right.body.attemptId)), s') := by
      rw [listAttempts, Prog.run_bind_ok exec hrun]
      rfl
    rw [hrun] at h
    rw [← h, findAttempt, Prog.run_bind_ok exec hlist]
    simp only [Except.map, Except.bind, attemptOf, ← hsort, List.find?_map]
    have hp : ((fun attempt : String × AgentAttempt => attempt.2.attemptId == attemptId) ∘
        Listed.view) = fun entry : Listed AgentAttempt => entry.body.attemptId == attemptId := rfl
    rw [hp]
    generalize List.find? _ (listed.mergeSort _) = found
    cases found with
    | none => rfl
    | some entry => rfl

theorem listTransitions_eq {views : Except CliError (List (String × AttemptStatusTransition))}
    (h : ((listBodies T "agent.attempt_status" "AttemptStatusTransition"
      AttemptStatusTransition.ofValue).run exec s).1.map (List.map Listed.view) = views) :
    ((listTransitions T).run exec s).1 = views := by
  rw [← h, listTransitions, Prog.run_bind]
  rcases (listBodies T "agent.attempt_status" "AttemptStatusTransition"
    AttemptStatusTransition.ofValue).run exec s with ⟨e | listed, s'⟩
  · rfl
  · rfl

theorem effectiveAttemptStatus_eq (attemptId : String) :
    ((effectiveAttemptStatus T attemptId).run exec s).1 =
      ((findAttempt T attemptId).run exec s).1.bind fun attempt =>
        (((listTransitions T).run exec ((findAttempt T attemptId).run exec s).2).1.map
          (List.filter fun transition => transition.2.attemptId == attemptId)).map
            (statusOf attempt) := by
  rw [effectiveAttemptStatus, Prog.run_bind]
  rcases (findAttempt T attemptId).run exec s with ⟨e | attempt, s'⟩
  · rfl
  · simp only [Except.bind]
    rw [Prog.run_bind]
    rcases (listTransitions T).run exec s' with ⟨e | listed, s''⟩
    · rfl
    · simp only [Except.map, statusOf]
      rcases (sortedTransitions (listed.filter fun transition =>
        transition.2.attemptId == attemptId)).getLast? with _ | ⟨objectId, transition⟩
      · rfl
      · rfl

end Status

/-! ## Convergence -/

/-- The copy says as an attempt or a transition what its canonical form says. -/
structure ReadsAlike (T : Tools) (o : CanonicalObject) : Prop where
  attempt : o.kind = "agent.attempt" → bodyOf T "AgentAttempt" AgentAttempt.ofValue o =
    bodyOf T "AgentAttempt" AgentAttempt.ofValue o.canonical
  transition : o.kind = "agent.attempt_status" →
    bodyOf T "AttemptStatusTransition" AttemptStatusTransition.ofValue o =
      bodyOf T "AttemptStatusTransition" AttemptStatusTransition.ofValue o.canonical

theorem readsAlike_canonical (T : Tools) (o : CanonicalObject) : ReadsAlike T o.canonical where
  attempt _ := by rw [o.canonical_canonical]
  transition _ := by rw [o.canonical_canonical]

/-- The id is that of a transition of another attempt. -/
def OfOther (T : Tools) (s : ObjectStore) (attemptId objectId : String) : Prop :=
  ∃ o transition, HasCopy T.toCrates s o ∧ o.kind = "agent.attempt_status" ∧
    o.objectId = objectId ∧ AttemptStatusTransition.ofValue o.body = some transition ∧
    transition.attemptId ≠ attemptId

section Convergence

variable {T : Tools} {s t : ObjectStore}

/-- The ids of a kind in two stores, the second with more of them. -/
theorem exists_ids {X : Crates} (hs : AllValid X s) (ht : AllValid X t) {kind : String}
    (hsub : ∀ id, RefBackedOf X s kind id → RefBackedOf X t kind id) :
    ∃ ids ids' : List String, ids.Pairwise (· < ·) ∧ ids'.Pairwise (· < ·) ∧
      (∀ id, id ∈ ids ↔ RefBackedOf X s kind id) ∧
      (∀ id, id ∈ ids' ↔ RefBackedOf X t kind id) ∧ ids.Sublist ids' := by
  obtain ⟨entries, -, hsorted, hmem⟩ := hs.list kind
  obtain ⟨entries', -, hsorted', hmem'⟩ := ht.list kind
  refine ⟨_, _, hsorted, hsorted', hmem, hmem', ?_⟩
  refine List.sublist_of_subperm_of_pairwise (r := (· ≤ ·)) ?_ (hsorted.imp le_of_lt)
    (hsorted'.imp le_of_lt)
  refine List.subperm_of_subset (hsorted.imp fun h => h.ne) fun id hid => ?_
  exact (hmem' id).mpr (hsub id ((hmem id).mp hid))

/-- Stores of valid objects with the same attempts find the same attempt, and the same
    status when they also have the same transitions, those of other attempts apart. -/
theorem attempt_views_converge (hs : AllValid T.toCrates s) (ht : AllValid T.toCrates t)
    (hsha : NoCollisions T.toCrates s t)
    (hread : ∀ o, HasCopy T.toCrates s o ∨ HasCopy T.toCrates t o → ReadsAlike T o)
    (hattempts : ∀ id, RefBackedOf T.toCrates s "agent.attempt" id ↔
      RefBackedOf T.toCrates t "agent.attempt" id) (attemptId : String) :
    ((findAttempt T attemptId).run exec t).1 = ((findAttempt T attemptId).run exec s).1 ∧
    ((∀ id, RefBackedOf T.toCrates s "agent.attempt_status" id →
        RefBackedOf T.toCrates t "agent.attempt_status" id) →
      (∀ id, RefBackedOf T.toCrates t "agent.attempt_status" id →
        RefBackedOf T.toCrates s "agent.attempt_status" id ∨ OfOther T t attemptId id) →
      ((effectiveAttemptStatus T attemptId).run exec t).1 =
        ((effectiveAttemptStatus T attemptId).run exec s).1) := by
  have hsha' : NoCollisions T.toCrates t s := fun o o' ho ho' => hsha o o' ho.symm ho'.symm
  -- the attempts
  obtain ⟨view, hview⟩ := exists_view "agent.attempt" hs ht hsha
    fun o ho hk => (hread o ho).attempt hk
  obtain ⟨ids, -, hids, -, hmem, -, -⟩ := exists_ids hs ht fun id => (hattempts id).mp
  have hfind : ((findAttempt T attemptId).run exec t).1 =
      ((findAttempt T attemptId).run exec s).1 := by
    rw [findAttempt_eq (listBodies_eq view hs hids hmem fun id hid => ?_),
      findAttempt_eq (listBodies_eq view ht hids
        (fun id => (hmem id).trans (hattempts id)) fun id hid => ?_)]
    · obtain ⟨o, hsound, hcopy, hk, rfl⟩ :=
        ht.sound hsha' hs ((hattempts id).mp ((hmem id).mp hid))
      exact ⟨o, hsound, hview o (.inr hcopy) hk⟩
    · obtain ⟨o, hsound, hcopy, hk, rfl⟩ := hs.sound hsha ht ((hmem id).mp hid)
      exact ⟨o, hsound, hview o (.inl hcopy) hk⟩
  refine ⟨hfind, fun hsub hother => ?_⟩
  -- the transitions, read in the stores that the search for the attempt leaves
  obtain ⟨view', hview'⟩ := exists_view "agent.attempt_status" hs ht hsha
    fun o ho hk => (hread o ho).transition hk
  obtain ⟨ids, ids', hids, hids', hmem, hmem', hsublist⟩ := exists_ids hs ht hsub
  have hsames := findAttempt_keeps T attemptId s
  have hsamet := findAttempt_keeps T attemptId t
  have hlists := listTransitions_eq (listBodies_eq view' (hs.same hsames) hids
    (fun id => (hmem id).trans (RefBackedOf.same hsames).symm) fun id hid => by
      obtain ⟨o, hsound, hcopy, hk, rfl⟩ := hs.sound hsha ht ((hmem id).mp hid)
      exact ⟨o, hsound.same hsames, hview' o (.inl hcopy) hk⟩)
  have hlistt := listTransitions_eq (listBodies_eq view' (ht.same hsamet) hids'
    (fun id => (hmem' id).trans (RefBackedOf.same hsamet).symm) fun id hid => by
      obtain ⟨o, hsound, hcopy, hk, rfl⟩ := ht.sound hsha' hs ((hmem' id).mp hid)
      exact ⟨o, hsound.same hsamet, hview' o (.inr hcopy) hk⟩)
  rw [effectiveAttemptStatus_eq, effectiveAttemptStatus_eq, hfind, hlists, hlistt,
    viewsOf_filter hsublist (hids'.imp fun h => h.ne)]
  intro id hid hnew
  rcases hother id ((hmem' id).mp hid) with hold | ⟨o, transition, hcopy, hk, rfl, hbody, hne⟩
  · exact absurd ((hmem id).mpr hold) hnew
  · refine ⟨transition, ?_, by simp [hne]⟩
    rw [← hview' o (.inr hcopy) hk, bodyOf, hbody]

end Convergence

/-! ## Copies that differ -/

/-- An attempt with a lease, its end written as a float. -/
def floatLease : Value :=
  .obj [("attempt_id", .str "t"), ("intent_id", .str "i"), ("base_commit", .str "c"),
    ("agent_id", .str "a"), ("lease_expires_at_ms", .num (.float oneAsF64)),
    ("status", .str "running")] (by decide)

def floatAttempt : CanonicalObject :=
  .new .reference "agent.attempt" defaultSchemaVersion 0 floatLease

theorem ofValue_floatLease : AgentAttempt.ofValue floatLease = none ∧
    AgentAttempt.ofValue (canonicalJson floatLease) =
      some ⟨"t", "i", "c", "a", some 1, .running, false⟩ := by
  decide +kernel

def floatDigits : List Char :=
  (hexEncode (Crates.reference.sha256 (signingMessage .reference "agent.attempt"
    defaultSchemaVersion floatLease))).toList

/-- A clone that has the attempt in canonical bytes. -/
def canonicalClone : ObjectStore :=
  ObjectStore.empty.writeRef (refNameOf floatDigits)
    (canonicalObjectBytes .reference floatAttempt)

/-- The same clone with a copy of another time in its cache. -/
def cachedClone : ObjectStore :=
  canonicalClone.writeCache (cachePathOf floatDigits)
    (canonicalObjectBytes .reference { floatAttempt with createdAtMs := 1 })

/-- A clone into which the attempt was fetched as it is. -/
def floatClone : ObjectStore :=
  ObjectStore.empty.writeRef (refNameOf floatDigits)
    (toVec Crates.reference.floatText floatAttempt.toValue)

theorem objectHex_floatAttempt : objectHex floatAttempt.objectId = .ok floatDigits :=
  (congrArg objectHex (canonicalObjectId_eq ..)).trans (objectHex_hashText ..)

theorem readObjectBytes_floatClone :
    readObjectBytes .reference (toVec Crates.reference.floatText floatAttempt.toValue) =
      .ok floatAttempt := by
  rw [readObjectBytes, objectFromSlice, readsBack_reference.compact, Option.bind_some,
    floatAttempt.ofValue_toValue]
  rfl

theorem floatAttempt_valid : floatAttempt.Valid .reference := CanonicalObject.valid_new ..

/-- The copies in the clones are the attempt, with this or that time, as it was fetched or
    in canonical form. -/
structure FloatCopy (o : CanonicalObject) : Prop where
  kind : o.kind = floatAttempt.kind
  schemaVersion : o.schemaVersion = floatAttempt.schemaVersion
  body : canonicalJson o.body = canonicalJson floatAttempt.body

theorem floatCopy_canonical : FloatCopy floatAttempt.canonical :=
  ⟨rfl, rfl, canonicalJson_idem floatAttempt.body⟩

theorem noCollisions_of_floatCopy {s t : ObjectStore}
    (h : ∀ o, HasCopy .reference s o ∨ HasCopy .reference t o → FloatCopy o) :
    NoCollisions .reference s t := fun o o' ho ho' _ =>
  signingMessage_eq_iff.mpr ⟨(h o ho).kind.trans (h o' ho').kind.symm,
    (h o ho).schemaVersion.trans (h o' ho').schemaVersion.symm,
    (h o ho).body.trans (h o' ho').body.symm⟩

theorem hasCopy_canonicalClone {o : CanonicalObject} (h : HasCopy .reference canonicalClone o) :
    o = floatAttempt.canonical := by
  rcases h.of_writeRef with hparse | hempty
  · rw [readObjectBytes_canonicalObjectBytes readsBack_reference] at hparse
    exact (Except.ok.inj hparse).symm
  · exact absurd hempty not_hasCopy_empty

theorem hasCopy_cachedClone {o : CanonicalObject} (h : HasCopy .reference cachedClone o) :
    o = floatAttempt.canonical ∨
      o = { floatAttempt with createdAtMs := 1 : CanonicalObject }.canonical := by
  rcases h.of_writeCache with hparse | hold
  · rw [readObjectBytes_canonicalObjectBytes readsBack_reference] at hparse
    exact .inr (Except.ok.inj hparse).symm
  · exact .inl (hasCopy_canonicalClone hold)

theorem hasCopy_floatClone {o : CanonicalObject} (h : HasCopy .reference floatClone o) :
    o = floatAttempt := by
  rcases h.of_writeRef with hparse | hempty
  · rw [readObjectBytes_floatClone] at hparse
    exact (Except.ok.inj hparse).symm
  · exact absurd hempty not_hasCopy_empty

theorem canonicalClone_valid : AllValid .reference canonicalClone :=
  (allValid_empty _).writeRef (readObjectBytes_canonicalObjectBytes readsBack_reference _)
    (CanonicalObject.valid_canonical floatAttempt_valid) objectHex_floatAttempt

theorem cachedClone_valid : AllValid .reference cachedClone :=
  canonicalClone_valid.writeCache (readObjectBytes_canonicalObjectBytes readsBack_reference _)
    (CanonicalObject.valid_canonical ⟨floatAttempt_valid.objectId, floatAttempt_valid.bodyHash⟩)
    objectHex_floatAttempt

theorem floatClone_valid : AllValid .reference floatClone :=
  (allValid_empty _).writeRef readObjectBytes_floatClone floatAttempt_valid
    objectHex_floatAttempt

/-- What is cached makes no difference to what is found of the attempt. -/
theorem cachedClone_converges :
    ((findAttempt .reference "t").run exec cachedClone).1 =
        ((findAttempt .reference "t").run exec canonicalClone).1 ∧
      ((effectiveAttemptStatus .reference "t").run exec cachedClone).1 =
        ((effectiveAttemptStatus .reference "t").run exec canonicalClone).1 := by
  have hcopies : ∀ o, HasCopy .reference canonicalClone o ∨ HasCopy .reference cachedClone o →
      FloatCopy o ∧ ReadsAlike .reference o := by
    rintro o (h | h)
    · rw [hasCopy_canonicalClone h]
      exact ⟨floatCopy_canonical, readsAlike_canonical _ _⟩
    · rcases hasCopy_cachedClone h with rfl | rfl
      · exact ⟨floatCopy_canonical, readsAlike_canonical _ _⟩
      · exact ⟨⟨rfl, rfl, canonicalJson_idem floatAttempt.body⟩, readsAlike_canonical _ _⟩
  have hsame : ∀ kind id, RefBackedOf .reference canonicalClone kind id ↔
      RefBackedOf .reference cachedClone kind id := fun kind id => Iff.rfl
  obtain ⟨hfind, hstatus⟩ := attempt_views_converge (T := .reference) canonicalClone_valid
    cachedClone_valid (noCollisions_of_floatCopy fun o ho => (hcopies o ho).1)
    (fun o ho => (hcopies o ho).2) (hsame "agent.attempt") "t"
  exact ⟨hfind, hstatus (fun id => (hsame _ id).mp) fun id h => .inl ((hsame _ id).mpr h)⟩

/-- What is found of an attempt in a store with the copies of one object. -/
theorem findAttempt_floatClones {s : ObjectStore} {o : CanonicalObject} (hs : AllValid .reference s)
    (hid : ∀ id, RefBackedOf .reference s "agent.attempt" id ↔ floatAttempt.objectId = id)
    (ho : ∀ o', HasCopy .reference s o' → o' = o) (hcopies : FloatCopy o)
    (attemptId : String) :
    ((findAttempt .reference attemptId).run exec s).1 =
      (bodyOf .reference "AgentAttempt" AgentAttempt.ofValue o).bind fun attempt =>
        attemptOf attemptId [(floatAttempt.objectId, attempt)] := by
  have hsha : NoCollisions .reference s s := noCollisions_of_floatCopy fun o' ho' => by
    rcases ho' with ho' | ho'
    · rw [ho o' ho']
      exact hcopies
    · rw [ho o' ho']
      exact hcopies
  have hlist : ((listBodies .reference "agent.attempt" "AgentAttempt" AgentAttempt.ofValue).run
      exec s).1.map (List.map Listed.view) =
        viewsOf (fun _ => bodyOf .reference "AgentAttempt" AgentAttempt.ofValue o)
          [floatAttempt.objectId] :=
    listBodies_eq _ hs (List.pairwise_singleton ..) (fun id => by
      rw [List.mem_singleton, eq_comm]
      exact (hid id).symm)
    fun id hmem => by
      obtain ⟨o', hsound, hcopy, -, rfl⟩ := hs.sound hsha hs ((hid id).mpr
        (List.mem_singleton.mp hmem).symm)
      exact ⟨o', hsound, by rw [ho o' hcopy]⟩
  rw [findAttempt_eq hlist, viewsOf_cons, viewsOf_nil]
  rcases bodyOf .reference "AgentAttempt" AgentAttempt.ofValue o with e | attempt
  · rfl
  · rfl

/-- Two clones of valid objects with one attempt of the same id: in the one it is found,
    in the other its lease cannot be read. -/
theorem floatLease_diverges :
    AllValid .reference canonicalClone ∧ AllValid .reference floatClone ∧
      NoCollisions .reference canonicalClone floatClone ∧
      (∀ kind id, RefBackedOf .reference canonicalClone kind id ↔
        RefBackedOf .reference floatClone kind id) ∧
      ((findAttempt .reference "t").run exec canonicalClone).1 =
        .ok ⟨"t", "i", "c", "a", some 1, .running, false⟩ ∧
      ((findAttempt .reference "t").run exec floatClone).1 =
        .error (.json (Tools.reference.bodyError "AgentAttempt" floatLease)) := by
  have hcanonical : ∀ kind id, RefBackedOf .reference canonicalClone kind id ↔
      floatAttempt.kind = kind ∧ floatAttempt.objectId = id := fun kind id =>
    refBackedOf_writeRef_empty (readObjectBytes_canonicalObjectBytes readsBack_reference _)
  have hfloat : ∀ kind id, RefBackedOf .reference floatClone kind id ↔
      floatAttempt.kind = kind ∧ floatAttempt.objectId = id := fun kind id =>
    refBackedOf_writeRef_empty readObjectBytes_floatClone
  have hcopy : FloatCopy floatAttempt := ⟨rfl, rfl, rfl⟩
  obtain ⟨hnone, hsome⟩ := ofValue_floatLease
  refine ⟨canonicalClone_valid, floatClone_valid, noCollisions_of_floatCopy ?_,
    fun kind id => (hcanonical kind id).trans (hfloat kind id).symm, ?_, ?_⟩
  · rintro o (h | h)
    · rw [hasCopy_canonicalClone h]
      exact floatCopy_canonical
    · rw [hasCopy_floatClone h]
      exact hcopy
  · rw [findAttempt_floatClones canonicalClone_valid
      (fun id => (hcanonical _ id).trans (and_iff_right rfl))
      (fun o' => hasCopy_canonicalClone) floatCopy_canonical]
    have hbody : bodyOf .reference "AgentAttempt" AgentAttempt.ofValue floatAttempt.canonical =
        .ok ⟨"t", "i", "c", "a", some 1, .running, false⟩ := by
      rw [bodyOf, CanonicalObject.canonical]
      dsimp only [floatAttempt, CanonicalObject.new]
      rw [hsome]
    rw [hbody]
    simp [Except.bind, attemptOf]
  · rw [findAttempt_floatClones floatClone_valid
      (fun id => (hfloat _ id).trans (and_iff_right rfl)) (fun o' => hasCopy_floatClone) hcopy]
    have hbody : bodyOf .reference "AgentAttempt" AgentAttempt.ofValue floatAttempt =
        .error (.json (Tools.reference.bodyError "AgentAttempt" floatLease)) := by
      rw [bodyOf]
      dsimp only [floatAttempt, CanonicalObject.new]
      rw [hnone]
    rw [hbody]
    rfl

end RickydataGit.Cli
