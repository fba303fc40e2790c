/-
  The commands on stores with known objects.

  On a filled store, without a key and with new ids, a command that finds what it needs
  succeeds and adds its objects, and no hashes collide on the way (`intentWrite_ends`,
  `workStart_ends`, `attemptStart_ends`, `changeDetect_ends`, `patchPrepare_ends`).
  `EndsAll` puts such calls together.
-/
import RickydataGit.Git.Filled
import RickydataGit.Cli.Steps

namespace RickydataGit.Cli

open RickydataGit.Lib RickydataGit.Core RickydataGit.Git

variable {T : Tools} {os : List CanonicalObject} {s t : ObjectStore}

/-! ## Records -/

/-- A new record is written without a key. -/
theorem writeRecord_ends (hX : ReadsBack T.toCrates) (h : Filled T.toCrates os s) (kind : String)
    (body : Value)
    (hnew : (cachedObject T.toCrates kind body).objectId ∉ os.map CanonicalObject.objectId) :
    ∃ report t, Ends T.toCrates (writeRecord T kind body none) s report t ∧
      report.objectId = (cachedObject T.toCrates kind body).objectId ∧
      Filled T.toCrates (cachedObject T.toCrates kind body :: os) t := by
  obtain ⟨report, t, hends, hid, hfilled⟩ :=
    h.write hX (w := .cached kind body) (valid_cachedObject kind body) hnew
  exact ⟨report, t, hends.mapFail CliError.git, hid, hfilled⟩

/-- The bytes of a record that was written are in its cache file. -/
theorem cache_writeRecord {kind : String} {body : Value} {report : ObjectWriteReport}
    {hex : List Char} (hrun : (writeRecord T kind body none).run exec s = (.ok report, t))
    (hhex : objectHex (cachedObject T.toCrates kind body).objectId = .ok hex) :
    t.cache[cachePathOf hex]? =
      some (canonicalObjectBytes T.toCrates (cachedObject T.toCrates kind body)) := by
  have hrun' : ((WriteCall.cached kind body).prog T.toCrates).run exec s = (.ok report, t) :=
    (Prog.run_mapFail_ok_iff exec CliError.git).mp hrun
  have hcache := WriteCall.cache_of_ok (X := T.toCrates) (w := .cached kind body) (s := s)
    (by rw [hrun']; rfl) hhex
  rw [hrun'] at hcache
  exact hcache

/-- A cached object is read, under every spelling of its id. -/
theorem read_cached_run (hX : ReadsBack T.toCrates) {objectId : String}
    {hex : List Char} {o : CanonicalObject} (hhex : objectHex objectId = .ok hex)
    (hcache : s.cache[cachePathOf hex]? = some (canonicalObjectBytes T.toCrates o)) :
    (readCachedObject T.toCrates objectId).run exec s = (.ok {
      objectId, cachePath := cachePathOf hex, source := .cache, object := o.canonical }, s) := by
  rw [readCachedObject_run s hhex, read_run_of_cache s hcache,
    readObjectBytes_canonicalObjectBytes hX]
  rfl

theorem readBodies_keepsAlong {α : Type} (name : String) (read : Value → Option α)
    (entries : List ObjectListEntry) (s : ObjectStore) :
    KeepsAlong (readBodies T name read entries) s := by
  induction entries generalizing s with
  | nil => exact keepsAlong_ret _ s
  | cons entry rest ih =>
    refine ((readCachedObject_keepsAlong _ _ s).mapFail _).bind fun _ t _ => ?_
    exact (keepsAlong_ofExcept _ t).bind fun _ u _ => (ih u).bind fun _ _ _ => keepsAlong_ret _ _

theorem listBodies_keepsAlong {α : Type} (kind name : String) (read : Value → Option α)
    (s : ObjectStore) : KeepsAlong (listBodies T kind name read) s :=
  ((listRefBackedObjects_keepsAlong _ _ s).mapFail _).bind fun _ t _ =>
    readBodies_keepsAlong name read _ t

/-- The records of a kind in a filled store are listed. -/
theorem listBodies_ends {α : Type} (hX : ReadsBack T.toCrates) (h : Filled T.toCrates os s)
    (kind name : String) {read : Value → Option α}
    (hread : ∀ o ∈ os, o.kind = kind → (read o.canonical.body).isSome) :
    ∃ listed t, Ends T.toCrates (listBodies T kind name read) s listed t ∧
      Filled T.toCrates os t ∧ ∀ record, record ∈ listed.map Listed.body ↔
        ∃ o ∈ os, o.kind = kind ∧ read o.canonical.body = some record := by
  obtain ⟨listed, hlisted, -⟩ := listBodies_run hX h.refs kind name read hread
  obtain ⟨t, hrun⟩ := Prog.exists_run_eq exec hlisted
  obtain ⟨hends, hfilled⟩ := h.ends_of_keepsAlong hX (listBodies_keepsAlong kind name read s) hrun
  refine ⟨listed, t, hends, hfilled, fun record => ?_⟩
  rw [listBodies_stored hX (h.ledger hX) hrun]
  constructor
  · rintro ⟨objectId, body, hbody, hr⟩
    obtain ⟨o, ho, hk, -, rfl⟩ := (h.holds hX).mp hbody
    exact ⟨o, ho, hk, hr⟩
  · rintro ⟨o, ho, hk, hr⟩
    exact ⟨o.objectId, o.canonical.body, (h.holds hX).mpr ⟨o, ho, hk, rfl, rfl⟩, hr⟩

/-- Where no object has the kind, nothing is listed. -/
theorem listBodies_none {α : Type} (hX : ReadsBack T.toCrates) (h : Filled T.toCrates os s)
    (kind name : String) (read : Value → Option α) (hkinds : ∀ o ∈ os, o.kind ≠ kind) :
    ∃ t, Ends T.toCrates (listBodies T kind name read) s [] t ∧ Filled T.toCrates os t := by
  obtain ⟨listed, t, hends, ht, hmem⟩ := listBodies_ends hX h kind name
    (fun o ho hk => absurd hk (hkinds o ho))
  have hnil : listed = [] := by
    refine List.eq_nil_iff_forall_not_mem.mpr fun entry hentry => ?_
    obtain ⟨o, ho, hk, -⟩ := (hmem entry.body).mp (List.mem_map_of_mem hentry)
    exact hkinds o ho hk
  rw [hnil] at hends
  exact ⟨t, hends, ht⟩

/-- The list commands sort what is listed. -/
theorem sortedBodies_ends {α : Type} (hX : ReadsBack T.toCrates) (h : Filled T.toCrates os s)
    (kind name : String) {read : Value → Option α} (le : Listed α → Listed α → Bool)
    (hread : ∀ o ∈ os, o.kind = kind → (read o.canonical.body).isSome) :
    ∃ listed t, Ends T.toCrates
        (listBodies T kind name read >>= fun found => pure (found.mergeSort le)) s listed t ∧
      Filled T.toCrates os t ∧ ∀ record, record ∈ listed.map Listed.body ↔
        ∃ o ∈ os, o.kind = kind ∧ read o.canonical.body = some record := by
  obtain ⟨listed, t, hends, hfilled, hmem⟩ := listBodies_ends hX h kind name hread
  refine ⟨_, t, hends.bind (ends_ret (hfilled.noCollisions hX) _), hfilled, fun record => ?_⟩
  rw [← hmem, List.mem_map, List.mem_map]
  simp only [List.mem_mergeSort]

/-- An attempt is found when all attempts with its id are the same record. -/
theorem findAttempt_ends (hX : ReadsBack T.toCrates) (h : Filled T.toCrates os s)
    {attempt : AgentAttempt}
    (hread : ∀ o ∈ os, o.kind = "agent.attempt" → (AgentAttempt.ofValue o.canonical.body).isSome)
    (hstored : ∃ o ∈ os, o.kind = "agent.attempt" ∧
      AgentAttempt.ofValue o.canonical.body = some attempt)
    (hunique : ∀ o ∈ os, ∀ found, o.kind = "agent.attempt" →
      AgentAttempt.ofValue o.canonical.body = some found →
      found.attemptId = attempt.attemptId → found = attempt) :
    ∃ t, Ends T.toCrates (findAttempt T attempt.attemptId) s attempt t ∧
      Filled T.toCrates os t := by
  obtain ⟨listed, t, hends, hfilled, hmem⟩ := sortedBodies_ends hX h "agent.attempt" "AgentAttempt"
    (fun left right : Listed AgentAttempt => decide (left.body.attemptId ≤ right.body.attemptId))
    hread
  refine ⟨t, hends.bind ?_, hfilled⟩
  obtain ⟨entry, hentry, hbody⟩ := List.mem_map.mp ((hmem attempt).mpr hstored)
  rcases hfind : listed.find? fun entry => entry.body.attemptId == attempt.attemptId with _ | found
  · have hnone := List.find?_eq_none.mp hfind entry hentry
    rw [hbody, beq_self_eq_true] at hnone
    exact absurd rfl hnone
  · have hid : found.body.attemptId = attempt.attemptId := by
      simpa using List.find?_some hfind
    obtain ⟨o, ho, hk, hr⟩ :=
      (hmem found.body).mp (List.mem_map_of_mem (List.mem_of_find?_eq_some hfind))
    rw [hfind]
    dsimp only
    rw [hunique o ho found.body hk hr hid]
    exact ends_ret (hfilled.noCollisions hX) _

/-! ## Commands -/

/-- Without a key, a valid intent is written as it is. -/
theorem intentWrite_ends (hX : ReadsBack T.toCrates) (h : Filled T.toCrates os s)
    {env : Environment} {intent : WorkIntent} (hsigning : env.signing = .ok none)
    (hvalid : (validateWorkIntent intent).isEmpty = true)
    (hnew : (cachedObject T.toCrates "agent.intent" intent.toValue).objectId ∉
      os.map CanonicalObject.objectId) :
    ∃ report t, Ends T.toCrates ((TypedCommand.intentWrite env (.ok intent)).prog T) s () t ∧
      Filled T.toCrates (cachedObject T.toCrates "agent.intent" intent.toValue :: os) t ∧
      (writeRecord T "agent.intent" intent.toValue none).run exec s = (.ok report, t) := by
  obtain ⟨report, t, hwrite, -, ht⟩ := writeRecord_ends hX h _ _ hnew
  have hclean := h.noCollisions hX
  have hclean' := ht.noCollisions hX
  refine ⟨report, t, Ends.bind (a := some report) ?_ (ends_ret hclean' ()), ht, hwrite.run⟩
  refine (ends_ofExcept hclean hsigning).bind ((ends_ofExcept hclean rfl).bind ?_)
  rw [if_pos hvalid]
  exact hwrite.bind (ends_ret hclean' _)

/-- An attempt in place, on an intent that is read and a base commit that is given. -/
theorem attemptStart_ends (hX : ReadsBack T.toCrates) (h : Filled T.toCrates os s)
    {env : Environment} {input : AttemptStartInput} {found : ObjectReadReport}
    {intent : WorkIntent} {baseCommit : String} {headCommit : Option String}
    {attempt : AgentAttempt} (hsigning : env.signing = .ok none)
    (hhead : env.headCommit = .ok headCommit) (hbase : input.baseCommit = some baseCommit)
    (hread : (readCachedObject T.toCrates input.intentId).run exec s = (.ok found, s))
    (hkind : found.object.kind = "agent.intent")
    (hintent : WorkIntent.ofValue found.object.body = some intent)
    (hvalid : (validateWorkIntent intent).isEmpty = true)
    (hattempt : attempt = {
      attemptId := computeAttemptId T input baseCommit, intentId := input.intentId, baseCommit
      agentId := input.agentId, leaseExpiresAtMs := input.leaseExpiresAtMs
      status := .running, inPlace := true })
    (hnew : (cachedObject T.toCrates "agent.attempt" attempt.toValue).objectId ∉
      os.map CanonicalObject.objectId) :
    ∃ t, Ends T.toCrates ((TypedCommand.attemptStart env input true).prog T) s () t ∧
      Filled T.toCrates (cachedObject T.toCrates "agent.attempt" attempt.toValue :: os) t := by
  obtain ⟨report, t, hwrite, -, ht⟩ := writeRecord_ends hX h _ _ hnew
  have hclean := h.noCollisions hX
  have hclean' := ht.noCollisions hX
  have hfound := (h.ends_of_keepsAlong hX (readCachedObject_keepsAlong _ _ s) hread).1
  have hbody : bodyOf T "WorkIntent" WorkIntent.ofValue found.object = .ok intent := by
    rw [bodyOf, hintent]
  refine ⟨t, Ends.bind (a := (attempt, report)) ?_ (ends_ret hclean' ()), ht⟩
  refine (ends_ofExcept hclean hsigning).bind ((hfound.mapFail _).bind ?_)
  rw [if_neg (not_not.mpr hkind)]
  refine (ends_ofExcept hclean hbody).bind ?_
  rw [if_pos hvalid]
  refine (ends_ofExcept hclean hhead).bind ?_
  rw [hbase]
  refine (ends_ofExcept hclean rfl).bind ?_
  rw [hattempt] at hwrite ⊢
  exact hwrite.bind (ends_ret hclean' _)

/-- Work is started in place: the intent, and the attempt on it. -/
theorem workStart_ends (hX : ReadsBack T.toCrates) (h : Filled T.toCrates os s)
    {env : Environment} {args : WorkStartArgs} {privacy : PrivacyClass} {intent : WorkIntent}
    {headCommit : Option String} {baseCommit : String} {attempt : AgentAttempt}
    (hsigning : env.signing = .ok none) (hprivacy : parsePrivacyClass args.privacy = .ok privacy)
    (hintent : issueImportIntent {
      platform := args.platform, repository := args.issueRepository, issueId := args.issueId
      url := args.url, objective := args.objective, baseCommit := args.baseCommit
      createdBy := args.createdBy, privacy } env.nowMs = intent)
    (hvalid : (validateWorkIntent intent).isEmpty = true) (hhead : env.headCommit = .ok headCommit)
    (hbase : (args.baseCommit <|> headCommit) = some baseCommit) (hplace : args.inPlace = true)
    (hattempt : attempt = {
      attemptId := computeAttemptId T {
        intentId := (cachedObject T.toCrates "agent.intent" intent.toValue).objectId
        agentId := args.agentId, idempotencyKey := args.idempotencyKey
        baseCommit := args.baseCommit, leaseExpiresAtMs := args.leaseExpiresAtMs } baseCommit
      intentId := (cachedObject T.toCrates "agent.intent" intent.toValue).objectId
      baseCommit, agentId := args.agentId, leaseExpiresAtMs := args.leaseExpiresAtMs
      status := .running, inPlace := true })
    (hnew : (cachedObject T.toCrates "agent.intent" intent.toValue).objectId ∉
      os.map CanonicalObject.objectId)
    (hnew' : (cachedObject T.toCrates "agent.attempt" attempt.toValue).objectId ∉
      (cachedObject T.toCrates "agent.intent" intent.toValue :: os).map CanonicalObject.objectId) :
    ∃ t, Ends T.toCrates ((TypedCommand.workStart env args).prog T) s () t ∧
      Filled T.toCrates (cachedObject T.toCrates "agent.attempt" attempt.toValue ::
        cachedObject T.toCrates "agent.intent" intent.toValue :: os) t := by
  obtain ⟨report, t, hwrite, hid, ht⟩ := writeRecord_ends hX h _ _ hnew
  obtain ⟨report', u, hwrite', -, hu⟩ := writeRecord_ends hX ht _ _ hnew'
  have hclean := h.noCollisions hX
  have hclean' := ht.noCollisions hX
  have hclean'' := hu.noCollisions hX
  refine ⟨u, Ends.bind (a := (attempt, report')) ?_ (ends_ret hclean'' ()), hu⟩
  refine (ends_ofExcept hclean hsigning).bind ((ends_ofExcept hclean hprivacy).bind ?_)
  dsimp only
  rw [hintent, if_pos hvalid]
  refine hwrite.bind ((ends_ofExcept hclean' hhead).bind ?_)
  dsimp only
  rw [hbase, hid, hplace]
  refine (ends_ofExcept hclean' rfl).bind ?_
  rw [hattempt] at hwrite' ⊢
  exact hwrite'.bind (ends_ret hclean'' _)

/-- Without runs none is selected. -/
theorem selectChangeRuns_ends (hX : ReadsBack T.toCrates) (h : Filled T.toCrates os s)
    (hruns : ∀ o ∈ os, o.kind ≠ "agent.run") (attemptId : String) :
    ∃ t, Ends T.toCrates (selectChangeRuns T attemptId []) s [] t ∧ Filled T.toCrates os t := by
  obtain ⟨listed, t, hlisted, ht, hmem⟩ := sortedBodies_ends hX h "agent.run" "AgentRun"
    (fun left right : Listed AgentRun => decide (left.body.runId ≤ right.body.runId))
    fun o ho hk => absurd hk (hruns o ho)
  have hnil : listed = [] := by
    refine List.eq_nil_iff_forall_not_mem.mpr fun entry hentry => ?_
    obtain ⟨o, ho, hk, -⟩ := (hmem entry.body).mp (List.mem_map_of_mem hentry)
    exact hruns o ho hk
  subst hnil
  have hclean := ht.noCollisions hX
  refine ⟨t, hlisted.bind (Ends.bind (t := t) (a := []) (ends_ofExcept hclean rfl) ?_), ht⟩
  dsimp only
  rw [List.mergeSort_nil]
  exact ends_ret hclean []

theorem preparedPatchOf_congr (T : Tools) (attempt : AgentAttempt)
    {changes changes' : List ChangeEvidence} (hchanges : ∀ change, change ∈ changes ↔ change ∈ changes')
    (diffObjectId : String) :
    preparedPatchOf T attempt changes diffObjectId = preparedPatchOf T attempt changes' diffObjectId := by
  have hmap : ∀ read : ChangeEvidence → String,
      sortedDedup (changes.map read) = sortedDedup (changes'.map read) := fun read =>
    sortedDedup_congr fun value => by simp only [List.mem_map, hchanges]
  have hflat : ∀ read : ChangeEvidence → List String,
      sortedDedup (changes.flatMap read) = sortedDedup (changes'.flatMap read) := fun read =>
    sortedDedup_congr fun value => by simp only [List.mem_flatMap, hchanges]
  simp only [preparedPatchOf, hmap, hflat]

section Attempt

variable {attempt : AgentAttempt} {env : Environment} {git : GitDiff}
  (hX : ReadsBack T.toCrates) (h : Filled T.toCrates os s) (hsigning : env.signing = .ok none)
  (hgit : env.gitDiff attempt = .ok git)
  (hattempts : ∀ o ∈ os, o.kind = "agent.attempt" →
    (AgentAttempt.ofValue o.canonical.body).isSome)
  (hstored : ∃ o ∈ os, o.kind = "agent.attempt" ∧
    AgentAttempt.ofValue o.canonical.body = some attempt)
  (hunique : ∀ o ∈ os, ∀ found, o.kind = "agent.attempt" →
    AgentAttempt.ofValue o.canonical.body = some found →
    found.attemptId = attempt.attemptId → found = attempt)

include hX h hsigning hgit hattempts hstored hunique

/-- A change without runs is recorded of a diff that is not empty. -/
theorem changeDetect_ends (hdiff : git.diff ≠ []) (hruns : ∀ o ∈ os, o.kind ≠ "agent.run")
    {change : ChangeEvidence} (hchange : changeOf T attempt (worktreeDiff T git) [] = change)
    (hnew : (cachedObject T.toCrates "agent.change" change.toValue).objectId ∉
      os.map CanonicalObject.objectId) :
    ∃ t, Ends T.toCrates
        ((TypedCommand.changeDetect env ⟨attempt.attemptId, []⟩).prog T) s () t ∧
      Filled T.toCrates (cachedObject T.toCrates "agent.change" change.toValue :: os) t := by
  obtain ⟨t, hfound, ht⟩ := findAttempt_ends hX h hattempts hstored hunique
  obtain ⟨u, hselected, hu⟩ := selectChangeRuns_ends hX ht hruns attempt.attemptId
  obtain ⟨report, v, hwrite, -, hv⟩ := writeRecord_ends hX hu _ _ hnew
  have hclean := h.noCollisions hX
  have hclean'' := hv.noCollisions hX
  have hdetected : detectAttemptDiff T env attempt = .ok (worktreeDiff T git) := by
    rw [detectAttemptDiff, hgit]
    rfl
  have hchanged : (worktreeDiff T git).changed = true := by
    simpa [worktreeDiff] using hdiff
  refine ⟨v, Ends.bind (a := (change, report)) ?_ (ends_ret hclean'' ()), hv⟩
  refine (ends_ofExcept hclean hsigning).bind (hfound.bind ?_)
  refine (ends_ofExcept (ht.noCollisions hX) hdetected).bind ?_
  rw [hchanged, if_neg (by decide)]
  refine hselected.bind ?_
  dsimp only
  rw [hchange]
  exact hwrite.bind (ends_ret hclean'' _)

/-- The patch of the changes, if the diff of the work tree is that of one of them. -/
theorem patchPrepare_ends {changes : List ChangeEvidence} {patchDiff : PatchDiff}
    {patch : PreparedPatch} (hread : ∀ o ∈ os, o.kind = "agent.change" →
      (ChangeEvidence.ofValue o.canonical.body).isSome)
    (hchanges : ∀ change, change ∈ changes ↔ (∃ o ∈ os, o.kind = "agent.change" ∧
      ChangeEvidence.ofValue o.canonical.body = some change) ∧
      change.attemptId = attempt.attemptId)
    (hhash : (worktreeDiff T git).diffHash ∈ changes.map ChangeEvidence.diffHash)
    (hpatch : preparedPatchOf T attempt changes
      (cachedObject T.toCrates "agent.patch_diff" patchDiff.toValue).objectId = patch)
    (hpatchDiff : patchDiffOf patch.patchId attempt (worktreeDiff T git) = patchDiff)
    (hnew : (cachedObject T.toCrates "agent.patch_diff" patchDiff.toValue).objectId ∉
      os.map CanonicalObject.objectId)
    (hnew' : (cachedObject T.toCrates "agent.patch" patch.toValue).objectId ∉
      (cachedObject T.toCrates "agent.patch_diff" patchDiff.toValue :: os).map
        CanonicalObject.objectId) :
    ∃ t, Ends T.toCrates ((TypedCommand.patchPrepare env attempt.attemptId).prog T) s () t ∧
      Filled T.toCrates (cachedObject T.toCrates "agent.patch" patch.toValue ::
        cachedObject T.toCrates "agent.patch_diff" patchDiff.toValue :: os) t := by
  obtain ⟨t, hfound, ht⟩ := findAttempt_ends hX h hattempts hstored hunique
  obtain ⟨listed, u, hlisted, hu, hmem⟩ := sortedBodies_ends hX ht "agent.change" "ChangeEvidence"
    (fun left right : Listed ChangeEvidence => decide (left.body.changeId ≤ right.body.changeId))
    hread
  obtain ⟨report, v, hwrite, hid, hv⟩ := writeRecord_ends hX hu _ _ hnew
  obtain ⟨report', w, hwrite', -, hw⟩ := writeRecord_ends hX hv _ _ hnew'
  have hclean := hw.noCollisions hX
  have hdetected : detectAttemptDiff T env attempt = .ok (worktreeDiff T git) := by
    rw [detectAttemptDiff, hgit]
    rfl
  -- the changes that are found are those, in some order
  have hsame : ∀ change, change ∈ ((listed.map Listed.body).filter fun change =>
      change.attemptId == attempt.attemptId) ↔ change ∈ changes := by
    intro change
    rw [List.mem_filter, hmem, beq_iff_eq, hchanges]
  obtain ⟨change, hchange, hchangeHash⟩ := List.mem_map.mp hhash
  refine ⟨w, Ends.bind (a := (patch, report')) ?_ (ends_ret hclean ()), hw⟩
  refine (ends_ofExcept (h.noCollisions hX) hsigning).bind (hfound.bind (hlisted.bind ?_))
  dsimp only
  generalize ((listed.map Listed.body).filter fun change =>
    change.attemptId == attempt.attemptId) = found at hsame ⊢
  have hpatch' : ∀ diffObjectId, preparedPatchOf T attempt found diffObjectId =
      preparedPatchOf T attempt changes diffObjectId :=
    preparedPatchOf_congr T attempt hsame
  have hpatchId : patchIdOf T attempt.attemptId (sortedDedup (found.map ChangeEvidence.changeId)) =
      patch.patchId := by
    rw [← hpatch, ← hpatch']
    rfl
  have hnonempty : found.isEmpty = false := by
    rw [List.isEmpty_eq_false_iff_exists_mem]
    exact ⟨change, (hsame change).mpr hchange⟩
  have hany : (found.any fun change => change.diffHash == (worktreeDiff T git).diffHash) = true :=
    List.any_eq_true.mpr ⟨change, (hsame change).mpr hchange, beq_iff_eq.mpr hchangeHash⟩
  rw [hnonempty, if_neg (by decide)]
  refine (ends_ofExcept (hu.noCollisions hX) hdetected).bind ?_
  rw [hany, if_pos rfl, hpatchId, hpatchDiff]
  refine hwrite.bind ?_
  rw [hid, hpatch', hpatch]
  exact hwrite'.bind (ends_ret hclean _)

end Attempt

/-! ## Sequences -/

/-- The calls succeed one after another, without collisions on the way. -/
structure EndsAll (T : Tools) (s : ObjectStore) (calls : List TypedCommand) (t : ObjectStore) :
    Prop where
  run : runAll T s calls = t
  clean : ∀ u, PassesThrough T s calls u → NoCollisions T.toCrates u u

theorem endsAll_nil (hX : ReadsBack T.toCrates) (h : Filled T.toCrates os s) :
    EndsAll T s [] s where
  run := rfl
  clean := by
    rintro u rfl
    exact h.noCollisions hX

theorem EndsAll.cons {call : TypedCommand} {rest : List TypedCommand} {u : ObjectStore}
    (hcall : Ends T.toCrates (call.prog T) s () t) (h : EndsAll T t rest u) :
    EndsAll T s (call :: rest) u where
  run := by rw [runAll, hcall.run, h.run]
  clean v hv := by
    rcases hv with hv | hv
    · exact hcall.clean v hv
    · rw [hcall.run] at hv
      exact h.clean v hv

theorem EndsAll.append {calls calls' : List TypedCommand} {u : ObjectStore}
    (h : EndsAll T s calls t) (h' : EndsAll T t calls' u) : EndsAll T s (calls ++ calls') u := by
  induction calls generalizing s with
  | nil =>
    obtain rfl : s = t := h.run
    exact h'
  | cons call rest ih =>
    obtain ⟨hrun, hclean⟩ := ih ⟨h.run, fun v hv => h.clean v (.inr hv)⟩
    refine ⟨hrun, fun v hv => ?_⟩
    rcases hv with hv | hv
    · exact h.clean v (.inl hv)
    · exact hclean v hv

end RickydataGit.Cli
