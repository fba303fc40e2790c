/-
  The work tree of an attempt, and what `attempt status` says of it.

  Detection takes the diff of an attempt in place from the repository itself, and of any
  other attempt from its own work tree, which has to be a directory. The status report
  looks at the path of the own work tree in both cases.

  `status_agrees_iff`: exactly when the report has the diff that detection would record,
  and names the directory it is taken from.
-/
import RickydataGit.Cli.Attempts
import RickydataGit.Cli.IdPaths
import RickydataGit.Cli.KnownRuns

namespace RickydataGit.Cli

open RickydataGit.Lib RickydataGit.Core RickydataGit.Git

/-! ## The diff of an attempt -/

/-- What is on the disk at one moment. -/
structure Disk where
  isDir : String → Bool
  createDirAll : String → Except CliError Unit
  /-- What git prints in a directory, with an index file and for a base commit. -/
  gitDiff : (directory index baseCommit : String) → Except CliError GitDiff

section Detect

variable (site : Site) (disk : Disk)

def existingAttemptWorktreePath (attemptId : String) : Except CliError String := do
  let worktreePath ← attemptWorktreePath site attemptId
  if disk.isDir worktreePath = false then
    .error (.bail s!"attempt worktree for {attemptId} does not exist at {worktreePath}")
  else .ok worktreePath

/-- The path of the index that `TempGitIndex::new` makes room for. -/
def tempIndexPath (attemptId : String) : Except CliError String := do
  let gitDir ← foundGitDir site
  let hex ← idHex "attempt" attemptId
  let tempDir := joinPath (joinPath gitDir "rickydata") "tmp"
  disk.createDirAll tempDir
  let digits ← firstDigits hex
  let nowMs ← site.tempFileMs
  return joinPath tempDir s!"change-{digits}-{nowMs.toNat}.index"

/-- The directory that detection looks at. -/
def detectedWorktree (attempt : AgentAttempt) : Except CliError String :=
  if attempt.inPlace then .ok site.repo else existingAttemptWorktreePath site disk attempt.attemptId

/-- What `detect_attempt_diff` has git print. -/
def gitDiffOf (attempt : AgentAttempt) : Except CliError GitDiff := do
  let worktreePath ← detectedWorktree site disk attempt
  let index ← tempIndexPath site disk attempt.attemptId
  disk.gitDiff worktreePath index attempt.baseCommit

/-- The surroundings on this disk. -/
def Environment.at (env : Environment) : Environment :=
  { env with gitDiff := gitDiffOf site disk }

/-! ## The report -/

structure AttemptStatusCliReport where
  attemptId : String
  intentId : String
  baseCommit : String
  agentId : String
  status : AttemptStatus
  statusObjectId : Option String
  worktreePath : String
  worktreeExists : Bool
  changed : Option Bool
  diffHash : Option String
  diffBytes : Option UInt64
  filePaths : List String

variable (T : Tools) (env : Environment)

/-- The diff, if there is a work tree. -/
def detectedIf (worktreeExists : Bool) (attempt : AgentAttempt) :
    Except CliError (Option WorktreeDiff) :=
  if worktreeExists then (detectAttemptDiff T (env.at site disk) attempt).map some else .ok none

def buildAttemptStatusReport (attemptId : String) : Command AttemptStatusCliReport := do
  let attempt ← findAttempt T attemptId
  let (status, statusObjectId) ← effectiveAttemptStatus T attemptId
  let worktreePath ← attemptWorktreePath site attemptId
  let worktreeExists := disk.isDir worktreePath
  let detected ← detectedIf site disk T env worktreeExists attempt
  return {
    attemptId := attempt.attemptId, intentId := attempt.intentId
    baseCommit := attempt.baseCommit, agentId := attempt.agentId, status, statusObjectId
    worktreePath, worktreeExists, changed := detected.map fun diff => diff.changed
    diffHash := detected.map fun diff => diff.diffHash
    diffBytes := detected.map fun diff => diff.diffBytes
    filePaths := (detected.map fun diff => diff.filePaths).getD [] }

/-- The report has this diff, and the directory it was taken from. -/
structure Describes (report : AttemptStatusCliReport) (attempt : AgentAttempt)
    (detected : WorktreeDiff) : Prop where
  changed : report.changed = some detected.changed
  diffHash : report.diffHash = some detected.diffHash
  diffBytes : report.diffBytes = some detected.diffBytes
  filePaths : report.filePaths = detected.filePaths
  worktree : detectedWorktree site disk attempt = .ok report.worktreePath
  exists_ : report.worktreeExists = true

end Detect

section Agreement

variable {T : Tools} {env : Environment} {site : Site} {disk : Disk} {s t u : ObjectStore}
  {attemptId : String} {attempt : AgentAttempt} {detected : WorktreeDiff}

theorem attemptId_of_findAttempt
    (h : (findAttempt T attemptId).run exec s = (.ok attempt, t)) : attempt.attemptId = attemptId := by
  obtain ⟨attempts, u, -, hrun⟩ := Prog.run_bind_inv exec h
  split at hrun
  · cases hrun
  · next entry hfind =>
      cases hrun
      simpa using List.find?_some hfind

/-- A diff was taken somewhere. -/
theorem exists_detectedWorktree
    (h : detectAttemptDiff T (env.at site disk) attempt = .ok detected) :
    ∃ directory, detectedWorktree site disk attempt = .ok directory := by
  rcases hdir : detectedWorktree site disk attempt with e | directory
  · have hdiff : (env.at site disk).gitDiff attempt = .error e := by
      show gitDiffOf site disk attempt = .error e
      rw [gitDiffOf, hdir]
      rfl
    rw [detectAttemptDiff, hdiff] at h
    cases h
  · exact ⟨directory, rfl⟩

theorem existingAttemptWorktreePath_ok_iff {path : String} :
    existingAttemptWorktreePath site disk attemptId = .ok path ↔
      attemptWorktreePath site attemptId = .ok path ∧ disk.isDir path = true := by
  unfold existingAttemptWorktreePath
  rcases attemptWorktreePath site attemptId with e | path'
  · exact iff_of_false (fun h => nomatch h) fun h => nomatch h.1
  · show (if disk.isDir path' = false then _ else _) = _ ↔ _
    split
    · next hnone =>
        refine iff_of_false (fun h => nomatch h) fun h => ?_
        rw [Except.ok.inj h.1, h.2] at hnone
        cases hnone
    · next hsome =>
        constructor
        · intro h
          obtain rfl := Except.ok.inj h
          exact ⟨rfl, Bool.not_eq_false _ ▸ hsome⟩
        · rintro ⟨h, -⟩
          rw [Except.ok.inj h]

/-- The report on an attempt that was found, whose status can be read. -/
theorem report_run {status : AttemptStatus × Option String}
    (hfind : (findAttempt T attemptId).run exec s = (.ok attempt, t))
    (hstatus : (effectiveAttemptStatus T attemptId).run exec t = (.ok status, u)) {path : String}
    (hpath : attemptWorktreePath site attemptId = .ok path) :
    (buildAttemptStatusReport site disk T env attemptId).run exec s =
      ((detectedIf site disk T env (disk.isDir path) attempt).map fun found => {
        attemptId := attempt.attemptId, intentId := attempt.intentId
        baseCommit := attempt.baseCommit, agentId := attempt.agentId, status := status.1
        statusObjectId := status.2, worktreePath := path, worktreeExists := disk.isDir path
        changed := found.map fun diff => diff.changed
        diffHash := found.map fun diff => diff.diffHash
        diffBytes := found.map fun diff => diff.diffBytes
        filePaths := (found.map fun diff => diff.filePaths).getD [] }, u) := by
  rw [buildAttemptStatusReport, Prog.run_bind_ok exec hfind, Prog.run_bind_ok exec hstatus, hpath]
  simp only [Prog.liftM_ok, Prog.ret_bind]
  rcases detectedIf site disk T env (disk.isDir path) attempt with e | found
  · rfl
  · rfl

end Agreement

/-- Where a diff is detected, the status report has it, with its directory, exactly when the status
    can be read and the attempt is not in place, or in place in its own work tree. -/
theorem status_agrees_iff {T : Tools} {env : Environment} {site : Site} {disk : Disk}
    {s t : ObjectStore} {attemptId : String} {attempt : AgentAttempt} {detected : WorktreeDiff}
    (hfind : (findAttempt T attemptId).run exec s = (.ok attempt, t))
    (hdetect : detectAttemptDiff T (env.at site disk) attempt = .ok detected) :
    (∃ report u, (buildAttemptStatusReport site disk T env attemptId).run exec s =
        (.ok report, u) ∧ Describes site disk report attempt detected) ↔
      (∃ status u, (effectiveAttemptStatus T attemptId).run exec t = (.ok status, u)) ∧
        (attempt.inPlace = false ∨ existingAttemptWorktreePath site disk attemptId = .ok site.repo) := by
  have hid := attemptId_of_findAttempt hfind
  constructor
  · rintro ⟨report, u, hrun, hdescribes⟩
    obtain ⟨attempt', t', hfind', hrun⟩ := Prog.run_bind_inv exec hrun
    obtain ⟨rfl, rfl⟩ : attempt' = attempt ∧ t' = t := by
      have heq := hfind'.symm.trans hfind
      simpa using heq
    obtain ⟨status, u', hstatus, hrun⟩ := Prog.run_bind_inv exec hrun
    obtain ⟨path, hpath, hrun⟩ := Prog.run_bind_ofExcept_inv exec hrun
    obtain ⟨found, -, hrun⟩ := Prog.run_bind_ofExcept_inv exec hrun
    cases hrun
    refine ⟨⟨status, _, hstatus⟩, ?_⟩
    rcases hplace : attempt'.inPlace with _ | _
    · exact .inl rfl
    · have hrepo := hdescribes.worktree
      rw [detectedWorktree, if_pos hplace] at hrepo
      obtain rfl := Except.ok.inj hrepo
      exact .inr (existingAttemptWorktreePath_ok_iff.mpr ⟨hpath, hdescribes.exists_⟩)
  · rintro ⟨⟨status, u, hstatus⟩, hplace⟩
    have hdirectory : ∃ path, existingAttemptWorktreePath site disk attemptId = .ok path ∧
        detectedWorktree site disk attempt = .ok path := by
      rcases hin : attempt.inPlace with _ | _
      · obtain ⟨path, hpath⟩ := exists_detectedWorktree hdetect
        refine ⟨path, ?_, hpath⟩
        rwa [detectedWorktree, if_neg (by rw [hin]; decide), hid] at hpath
      · refine ⟨site.repo, hplace.resolve_left (by rw [hin]; decide), ?_⟩
        rw [detectedWorktree, if_pos hin]
    obtain ⟨path, hexisting, hworktree⟩ := hdirectory
    obtain ⟨hpath, hdir⟩ := existingAttemptWorktreePath_ok_iff.mp hexisting
    have hrun := @report_run T env site disk s t u attemptId attempt status hfind hstatus path hpath
    rw [hdir, detectedIf, if_pos rfl, hdetect] at hrun
    exact ⟨_, u, hrun, ⟨rfl, rfl, rfl, rfl, hworktree, rfl⟩⟩

/-! ## A store with one attempt -/

def shownAttempt (inPlace : Bool) : AgentAttempt where
  attemptId := "sha256:0123456789abcdef"
  intentId := "intent"
  baseCommit := "b"
  agentId := "agent"
  leaseExpiresAtMs := none
  status := .running
  inPlace := inPlace

def shownSite : Site := ⟨"/repo", .ok (some "/repo/.git"), .ok 0⟩

/-- Every directory has a change. Work trees are there or not. -/
def shownDisk (worktrees : Bool) : Disk where
  isDir _ := worktrees
  createDirAll _ := .ok ()
  gitDiff _ _ _ := .ok ⟨[100, 105, 102, 102], "", "M\tREADME.md", ["README.md"]⟩

theorem shown_worktree : attemptWorktreePath shownSite "sha256:0123456789abcdef" =
    .ok "/repo/.git/rickydata/worktrees/0123456789ab" := by
  decide

theorem shown_detected (inPlace worktrees : Bool) (h : inPlace = true ∨ worktrees = true) :
    ∃ detected, detectAttemptDiff .reference (quietEnvironment.at shownSite (shownDisk worktrees))
      (shownAttempt inPlace) = .ok detected := by
  have hdirectory : ∃ directory,
      detectedWorktree shownSite (shownDisk worktrees) (shownAttempt inPlace) = .ok directory := by
    rcases inPlace with _ | _
    · exact ⟨_, existingAttemptWorktreePath_ok_iff.mpr ⟨shown_worktree, h.resolve_left (by decide)⟩⟩
    · exact ⟨_, rfl⟩
  have hindex : tempIndexPath shownSite (shownDisk worktrees) "sha256:0123456789abcdef" =
      .ok "/repo/.git/rickydata/tmp/change-0123456789ab-0.index" := by
    rcases worktrees with _ | _
    · decide
    · decide
  obtain ⟨directory, hdirectory⟩ := hdirectory
  have hdiff : (quietEnvironment.at shownSite (shownDisk worktrees)).gitDiff
      (shownAttempt inPlace) = .ok ⟨[100, 105, 102, 102], "", "M\tREADME.md", ["README.md"]⟩ := by
    show gitDiffOf shownSite (shownDisk worktrees) (shownAttempt inPlace) = _
    rw [gitDiffOf, hdirectory, shownAttempt, hindex]
    rfl
  rw [detectAttemptDiff, hdiff]
  exact ⟨_, rfl⟩

/-- The attempt is found, and is running. -/
theorem shown_found (inPlace : Bool) : ∃ s t u,
    (findAttempt .reference "sha256:0123456789abcdef").run exec s =
      (.ok (shownAttempt inPlace), t) ∧
    (effectiveAttemptStatus .reference "sha256:0123456789abcdef").run exec t =
      (.ok (.running, none), u) := by
  have hX : ReadsBack Tools.reference.toCrates := readsBack_reference
  obtain ⟨report, s, -, -, hs⟩ := writeRecord_ends (T := .reference) hX (filled_empty _)
    "agent.attempt" (shownAttempt inPlace).toValue (by simp)
  have hbody : AgentAttempt.ofValue (cachedObject Tools.reference.toCrates "agent.attempt"
      (shownAttempt inPlace).toValue).canonical.body = some (shownAttempt inPlace) := by
    have hcanonical : (cachedObject Tools.reference.toCrates "agent.attempt"
        (shownAttempt inPlace).toValue).canonical.body =
        canonicalJson (shownAttempt inPlace).toValue := canonicalJson_idem _
    rw [hcanonical, AgentAttempt.readBack]
  have hfind := fun {s : ObjectStore} (hs : Filled Tools.reference.toCrates [cachedObject
      Tools.reference.toCrates "agent.attempt" (shownAttempt inPlace).toValue] s) =>
    @findAttempt_ends .reference _ s hX hs (shownAttempt inPlace)
      (fun o ho _ => by rw [List.mem_singleton.mp ho, hbody]; rfl)
      ⟨_, List.mem_singleton_self _, rfl, hbody⟩ fun o ho found _ hfound _ => by
        rw [List.mem_singleton.mp ho, hbody] at hfound
        exact (Option.some.inj hfound).symm
  obtain ⟨t, hrun, ht⟩ := hfind hs
  obtain ⟨u, hagain, hu⟩ := hfind ht
  obtain ⟨v, hnone, hv⟩ := listBodies_none (T := .reference) hX hu "agent.attempt_status"
    "AttemptStatusTransition" AttemptStatusTransition.ofValue (fun o ho => by
      rw [List.mem_singleton.mp ho]
      exact (by decide : "agent.attempt" ≠ "agent.attempt_status"))
  refine ⟨s, t, v, hrun.run, ?_⟩
  have htransitions : (listTransitions .reference).run exec u = (.ok [], v) :=
    (Prog.run_bind_ok exec hnone.run _).trans rfl
  have hfound : (findAttempt .reference "sha256:0123456789abcdef").run exec t =
      (.ok (shownAttempt inPlace), u) := hagain.run
  rw [effectiveAttemptStatus, Prog.run_bind_ok exec hfound, Prog.run_bind_ok exec htransitions]
  simp only [sortedTransitions, List.filter_nil, List.mergeSort_nil]
  rfl

/-- The status of an attempt with a work tree of its own. -/
theorem isolated_described : ∃ s detected,
    detectAttemptDiff .reference (quietEnvironment.at shownSite (shownDisk true))
      (shownAttempt false) = .ok detected ∧
    ∃ report u, (buildAttemptStatusReport shownSite (shownDisk true) .reference quietEnvironment
        "sha256:0123456789abcdef").run exec s = (.ok report, u) ∧
      Describes shownSite (shownDisk true) report (shownAttempt false) detected := by
  obtain ⟨s, t, u, hfind, hstatus⟩ := shown_found false
  obtain ⟨detected, hdetect⟩ := shown_detected false true (.inr rfl)
  exact ⟨s, detected, hdetect,
    (status_agrees_iff hfind hdetect).mpr ⟨⟨_, u, hstatus⟩, .inl rfl⟩⟩

/-- The status of an attempt in place has no diff, where one is detected. -/
theorem inPlace_not_described : ∃ s t detected,
    (findAttempt .reference "sha256:0123456789abcdef").run exec s = (.ok (shownAttempt true), t) ∧
    detectAttemptDiff .reference (quietEnvironment.at shownSite (shownDisk false))
      (shownAttempt true) = .ok detected ∧
    (∃ report u, (buildAttemptStatusReport shownSite (shownDisk false) .reference quietEnvironment
      "sha256:0123456789abcdef").run exec s = (.ok report, u) ∧ report.changed = none) ∧
    ¬ ∃ report u, (buildAttemptStatusReport shownSite (shownDisk false) .reference quietEnvironment
        "sha256:0123456789abcdef").run exec s = (.ok report, u) ∧
      Describes shownSite (shownDisk false) report (shownAttempt true) detected := by
  obtain ⟨s, t, u, hfind, hstatus⟩ := shown_found true
  obtain ⟨detected, hdetect⟩ := shown_detected true false (.inl rfl)
  have hrun := @report_run .reference quietEnvironment shownSite (shownDisk false) s t u _ _ _
    hfind hstatus _ shown_worktree
  refine ⟨s, t, detected, hfind, hdetect, ⟨_, u, hrun, rfl⟩, ?_⟩
  rintro ⟨report, v, hreport, hdescribes⟩
  cases hrun.symm.trans hreport
  cases hdescribes.changed

end RickydataGit.Cli
