/-
  The idempotency key of `work start`.

  A call writes two records, the intent and the attempt on it, and the id of the attempt
  is a hash over the id of the intent, the agent, the base commit and the key. The same
  call made again is therefore the same two writes if its intent is the same, and writes
  that were made once change nothing (`Recorded.again`).

  The intent of a call without an issue carries a task that is named after the clock.
  `workStart_again_iff`: a later call gives the same ids and leaves the store as it is
  exactly if an issue is given, or the clock reads the same. The key does not help: it
  enters the id of the attempt, never the intent.
-/
import RickydataGit.Git.Recorded
import RickydataGit.Cli.KnownRuns

namespace RickydataGit.Cli

open RickydataGit.Lib RickydataGit.Core RickydataGit.Git

/-! ## Records written again -/

section Records

variable {T : Tools} {s t : ObjectStore} {kind : String} {body : Value}
  {signing : Option (Bytes × Option String)} {report : ObjectWriteReport}

theorem writeRecord_ok_iff : (writeRecord T kind body signing).run exec s = (.ok report, t) ↔
    ((writeCall T.toCrates kind body signing).prog T.toCrates).run exec s = (.ok report, t) := by
  rw [prog_writeCall]
  exact Prog.run_mapFail_ok_iff exec CliError.git

/-- Whatever the key, the body is the canonical form of the one given. -/
theorem body_writeCall (X : Crates) (kind : String) (body : Value)
    (signing : Option (Bytes × Option String)) :
    ((writeCall X kind body signing).object X).canonical.body = canonicalJson body := by
  cases signing with
  | none => exact canonicalJson_idem body
  | some key => exact canonicalJson_idem body

end Records

/-! ## One call -/

/-- The intent of a call. -/
def WorkStartArgs.intent (args : WorkStartArgs) (privacy : PrivacyClass)
    (nowMs : Except CliError UInt64) : WorkIntent :=
  issueImportIntent {
    platform := args.platform, repository := args.issueRepository, issueId := args.issueId
    url := args.url, objective := args.objective, baseCommit := args.baseCommit
    createdBy := args.createdBy, privacy } nowMs

/-- The attempt of a call on an intent. -/
def WorkStartArgs.attempt (T : Tools) (args : WorkStartArgs) (intentId baseCommit : String) :
    AgentAttempt where
  attemptId := computeAttemptId T {
    intentId, agentId := args.agentId, idempotencyKey := args.idempotencyKey
    baseCommit := args.baseCommit, leaseExpiresAtMs := args.leaseExpiresAtMs } baseCommit
  intentId := intentId
  baseCommit := baseCommit
  agentId := args.agentId
  leaseExpiresAtMs := args.leaseExpiresAtMs
  status := .running
  inPlace := args.inPlace

/-- An issue is named in full. -/
def WorkStartArgs.NamesIssue (args : WorkStartArgs) : Prop :=
  args.issueRepository.isSome ∧ args.issueId.isSome

/-- The number a task is given: the clock, zero if it cannot be read. -/
def taskNumber (nowMs : Except CliError UInt64) : UInt64 := nowMs.toOption.getD 0

/-- Two intents of one call are the same exactly if nothing of them depends on the clock. -/
theorem intent_eq_iff (args : WorkStartArgs) (privacy : PrivacyClass)
    (nowMs later : Except CliError UInt64) :
    args.intent privacy later = args.intent privacy nowMs ↔
      args.NamesIssue ∨ taskNumber later = taskNumber nowMs := by
  have htask : ∀ n m : UInt64, (s!"work-{n.toNat}" : String) = s!"work-{m.toNat}" ↔ n = m := by
    intro n m
    rw [← UInt64.toNat_inj, ← Nat.repr_inj]
    exact String.append_right_inj "work-"
  unfold WorkStartArgs.intent WorkStartArgs.NamesIssue issueImportIntent taskNumber
  rcases args.issueRepository with _ | repository
  · simpa using htask _ _
  · rcases args.issueId with _ | issueId
    · simpa using htask _ _
    · simp

section WorkStart

variable {T : Tools} {env env' : Environment} {args : WorkStartArgs} {s s₁ s₂ : ObjectStore}
  {attempt : AgentAttempt} {object : ObjectWriteReport}

theorem workStart_eq (T : Tools) (env : Environment) (args : WorkStartArgs) :
    workStart T env args = (do
      let signing ← env.signing
      let privacy ← parsePrivacyClass args.privacy
      if (validateWorkIntent (args.intent privacy env.nowMs)).isEmpty then
        let intentObject ←
          writeRecord T "agent.intent" (args.intent privacy env.nowMs).toValue signing
        startAttempt T env {
          intentId := intentObject.objectId, agentId := args.agentId
          idempotencyKey := args.idempotencyKey, baseCommit := args.baseCommit
          leaseExpiresAtMs := args.leaseExpiresAtMs } args.inPlace signing
      else .fail (.bail "generated work intent is invalid")) := rfl

/-- A call that ends well, by its parts: the intent is written, then the attempt on it. -/
theorem workStart_ok_iff :
    (workStart T env args).run exec s = (.ok (attempt, object), s₁) ↔
      ∃ signing privacy headCommit baseCommit intentObject u,
        env.signing = .ok signing ∧ parsePrivacyClass args.privacy = .ok privacy ∧
        (validateWorkIntent (args.intent privacy env.nowMs)).isEmpty = true ∧
        (writeRecord T "agent.intent" (args.intent privacy env.nowMs).toValue signing).run exec s =
          (.ok intentObject, u) ∧
        env.headCommit = .ok headCommit ∧ (args.baseCommit <|> headCommit) = some baseCommit ∧
        attempt = args.attempt T intentObject.objectId baseCommit ∧
        skipIf args.inPlace (env.ensureAttemptWorktree attempt.attemptId baseCommit) = .ok () ∧
        (writeRecord T "agent.attempt" attempt.toValue signing).run exec u = (.ok object, s₁) := by
  constructor
  · intro hrun
    obtain ⟨signing, hsigning, hrun⟩ := Prog.run_bind_ofExcept_inv exec hrun
    obtain ⟨privacy, hprivacy, hrun⟩ := Prog.run_bind_ofExcept_inv exec hrun
    dsimp only at hrun
    split at hrun
    · next hvalid =>
        obtain ⟨intentObject, u, hintent, hrun⟩ := Prog.run_bind_inv exec hrun
        obtain ⟨headCommit, hhead, hrun⟩ := Prog.run_bind_ofExcept_inv exec hrun
        dsimp only at hrun
        split at hrun
        · cases hrun
        · next baseCommit hbase =>
            obtain ⟨_, htree, hrun⟩ := Prog.run_bind_ofExcept_inv exec hrun
            obtain ⟨object', t, hattempt, hrun⟩ := Prog.run_bind_inv exec hrun
            cases hrun
            exact ⟨signing, privacy, headCommit, baseCommit, intentObject, u, hsigning, hprivacy,
              hvalid, hintent, hhead, hbase, rfl, htree, hattempt⟩
    · cases hrun
  · rintro ⟨signing, privacy, headCommit, baseCommit, intentObject, u, hsigning, hprivacy, hvalid,
      hintent, hhead, hbase, rfl, htree, hattempt⟩
    rw [workStart_eq, hsigning, hprivacy, Prog.liftM_ok, Prog.ret_bind, Prog.liftM_ok,
      Prog.ret_bind, if_pos hvalid, Prog.run_bind_ok exec hintent, startAttempt, hhead,
      Prog.liftM_ok, Prog.ret_bind, hbase]
    refine (Prog.run_bind_ok exec ((Prog.run_ofExcept exec _ u).trans (by rw [← htree]; rfl)) _).trans ?_
    exact Prog.run_bind_ok exec hattempt _

/-- The surroundings of a call made again: the same key and the same `HEAD`, and the work
    trees that were made are there. -/
structure SameHead (env env' : Environment) : Prop where
  signing : env'.signing = env.signing
  headCommit : env'.headCommit = env.headCommit
  ensureAttemptWorktree : ∀ attemptId baseCommit,
    env.ensureAttemptWorktree attemptId baseCommit = .ok () →
      env'.ensureAttemptWorktree attemptId baseCommit = .ok ()

/-- The records of a call that ended well are there afterwards, and in every later store. -/
theorem recorded_writeRecord {kind : String} {body : Value}
    {signing : Option (Bytes × Option String)} {report : ObjectWriteReport}
    (hrun : (writeRecord T kind body signing).run exec s = (.ok report, s₁))
    (hcache : Extends s₁.cache s₂.cache) (hrefs : Extends s₁.refs s₂.refs) :
    Recorded T.toCrates (writeCall T.toCrates kind body signing) s₂ :=
  (recorded_of_ok (writeRecord_ok_iff.mp hrun)).mono hcache hrefs

theorem extends_writeRecord {kind : String} {body : Value}
    {signing : Option (Bytes × Option String)} {report : ObjectWriteReport}
    (hrun : (writeRecord T kind body signing).run exec s = (.ok report, s₁)) :
    Extends s.cache s₁.cache ∧ Extends s.refs s₁.refs := by
  have hextends :=
    (writeCall T.toCrates kind body signing).extends (X := T.toCrates) s
  rw [writeRecord_ok_iff.mp hrun] at hextends
  exact hextends

/-- A record that is there is written again under its id, and nothing is added. -/
theorem writeRecord_again {kind : String} {body : Value}
    {signing : Option (Bytes × Option String)} {report : ObjectWriteReport}
    (hrun : (writeRecord T kind body signing).run exec s = (.ok report, s₁))
    (hcache : Extends s₁.cache s₂.cache) (hrefs : Extends s₁.refs s₂.refs) :
    ∃ report', (writeRecord T kind body signing).run exec s₂ = (.ok report', s₂) ∧
      report'.objectId = report.objectId := by
  obtain ⟨report', hrun', hid⟩ := (recorded_writeRecord hrun hcache hrefs).again
  refine ⟨report', writeRecord_ok_iff.mpr hrun', hid.trans ?_⟩
  exact (WriteCall.objectId_of_ok (writeRecord_ok_iff.mp hrun)).symm

/-- One id for two records of a kind: they are one record. -/
theorem body_eq_of_objectId_eq {kind : String} {body body' : Value} {t : ObjectStore}
    {signing : Option (Bytes × Option String)} {report report' : ObjectWriteReport}
    (hrun : (writeRecord T kind body signing).run exec s = (.ok report, s₁))
    (hcache : Extends s₁.cache s₂.cache) (hrefs : Extends s₁.refs s₂.refs)
    (hrun' : (writeRecord T kind body' signing).run exec s₂ = (.ok report', t))
    (hid : report'.objectId = report.objectId) : canonicalJson body' = canonicalJson body := by
  have hbytes := (recorded_writeRecord hrun hcache hrefs).bytes_eq
    (by rw [← WriteCall.objectId_of_ok (writeRecord_ok_iff.mp hrun),
      ← WriteCall.objectId_of_ok (writeRecord_ok_iff.mp hrun'), hid])
    (writeRecord_ok_iff.mp hrun')
  have hbody := congrArg CanonicalObject.body (canonicalObjectBytes_eq_iff.mp hbytes)
  rw [body_writeCall, body_writeCall] at hbody
  exact hbody

variable (hrun : (workStart T env args).run exec s = (.ok (attempt, object), s₁))
  (hcache : Extends s₁.cache s₂.cache) (hrefs : Extends s₁.refs s₂.refs)
  (hsame : SameHead env env')

include hrun hcache hrefs hsame

/-- With an issue, or at the same time, the later call does nothing. -/
theorem workStart_again (h : args.NamesIssue ∨ taskNumber env'.nowMs = taskNumber env.nowMs) :
    ∃ object', (workStart T env' args).run exec s₂ = (.ok (attempt, object'), s₂) := by
  obtain ⟨signing, privacy, headCommit, baseCommit, intentObject, u, hsigning, hprivacy, hvalid,
    hintent, hhead, hbase, hattempt, htree, hwrite⟩ := workStart_ok_iff.mp hrun
  have heq := (intent_eq_iff args privacy env.nowMs env'.nowMs).mpr h
  obtain ⟨hcache', hrefs'⟩ := extends_writeRecord hwrite
  obtain ⟨intentObject', hintent', hid⟩ :=
    writeRecord_again hintent (hcache'.trans hcache) (hrefs'.trans hrefs)
  obtain ⟨object', hwrite', -⟩ := writeRecord_again hwrite hcache hrefs
  refine ⟨object', workStart_ok_iff.mpr ⟨signing, privacy, headCommit, baseCommit, intentObject',
    s₂, by rw [hsame.signing, hsigning], hprivacy, by rw [heq, hvalid], by rw [heq, hintent'],
    by rw [hsame.headCommit, hhead], hbase, by rw [hid, hattempt], ?_, hwrite'⟩⟩
  unfold skipIf at htree ⊢
  split at htree
  · next hplace => rw [if_pos hplace]
  · next hplace =>
      rw [if_neg hplace]
      exact hsame.ensureAttemptWorktree _ _ htree

/-- Without an issue, the later call gives the same intent only at the same time. -/
theorem names_issue_of_again {attempt' : AgentAttempt} {object' : ObjectWriteReport}
    {t : ObjectStore} (hagain : (workStart T env' args).run exec s₂ = (.ok (attempt', object'), t))
    (hid : attempt'.intentId = attempt.intentId) :
    args.NamesIssue ∨ taskNumber env'.nowMs = taskNumber env.nowMs := by
  obtain ⟨signing, privacy, _, _, intentObject, u, hsigning, hprivacy, -, hintent, -, -, hattempt,
    -, hwrite⟩ := workStart_ok_iff.mp hrun
  obtain ⟨signing', privacy', _, _, intentObject', u', hsigning', hprivacy', -, hintent', -, -,
    hattempt', -, -⟩ := workStart_ok_iff.mp hagain
  rw [hsame.signing, hsigning] at hsigning'
  obtain rfl := Except.ok.inj hsigning'
  obtain rfl := Except.ok.inj (hprivacy.symm.trans hprivacy')
  rw [hattempt, hattempt'] at hid
  obtain ⟨hcache', hrefs'⟩ := extends_writeRecord hwrite
  have hbody := body_eq_of_objectId_eq hintent (hcache'.trans hcache) (hrefs'.trans hrefs)
    hintent' hid
  have hintents := congrArg WorkIntent.ofValue hbody
  rw [WorkIntent.readBack, WorkIntent.readBack] at hintents
  exact (intent_eq_iff args privacy env.nowMs env'.nowMs).mp (Option.some.inj hintents)

/-- A later call with the same arguments gives the same intent id and the same attempt id and
    adds nothing, exactly if an issue is named or the clock gives the same task. -/
theorem workStart_again_iff :
    (∃ attempt' object', (workStart T env' args).run exec s₂ = (.ok (attempt', object'), s₂) ∧
      attempt'.intentId = attempt.intentId ∧ attempt'.attemptId = attempt.attemptId) ↔
      args.NamesIssue ∨ taskNumber env'.nowMs = taskNumber env.nowMs := by
  constructor
  · rintro ⟨attempt', object', hagain, hid, -⟩
    exact names_issue_of_again hrun hcache hrefs hsame hagain hid
  · intro h
    obtain ⟨object', hagain⟩ := workStart_again hrun hcache hrefs hsame h
    exact ⟨attempt, object', hagain, rfl, rfl⟩

end WorkStart

/-! ## Work without an issue -/

/-- A repository is given, an issue is not. -/
def exampleWork : WorkStartArgs where
  platform := "github"
  issueRepository := some "owner/repo"
  issueId := none
  url := none
  objective := "fix"
  baseCommit := none
  createdBy := none
  privacy := "private_body"
  agentId := "agent"
  idempotencyKey := some "key"
  leaseExpiresAtMs := none
  inPlace := true

def exampleHead : String := "0123456789abcdef0123456789abcdef01234567"

def environmentAt (nowMs : UInt64) : Environment :=
  { quietEnvironment with nowMs := .ok nowMs, headCommit := .ok (some exampleHead) }

theorem environmentAt_sameHead (nowMs later : UInt64) :
    SameHead (environmentAt nowMs) (environmentAt later) where
  signing := rfl
  headCommit := rfl
  ensureAttemptWorktree _ _ h := h

def workIntent : WorkIntent := exampleWork.intent .privateBody (.ok 0)

def workIntentObject : CanonicalObject :=
  cachedObject .reference "agent.intent" workIntent.toValue

def workAttempt : AgentAttempt where
  attemptId := "sha256:a8cc84bbfec170c6e4a615bb9e5a24bd5e3d6cb6b4ade251fd1d1543344e45ca"
  intentId := "sha256:531f70fdcf7e3369468c2954496d9594426a72e5386d1da910b9c21be5a009e0"
  baseCommit := exampleHead
  agentId := "agent"
  leaseExpiresAtMs := none
  status := .running
  inPlace := true

def workAttemptObject : CanonicalObject :=
  cachedObject .reference "agent.attempt" workAttempt.toValue

theorem workIntentObject_objectId : workIntentObject.objectId = workAttempt.intentId := by
  rw [workIntentObject, objectId_cachedObject]
  decide +kernel

theorem workAttemptObject_objectId : workAttemptObject.objectId =
    "sha256:8c25637a75e9a8e8a4fbf1f5d77a9d3cd4bddb7cb3781d353372d7abc8e2739f" := by
  rw [workAttemptObject, objectId_cachedObject]
  decide +kernel

theorem workAttempt_eq :
    workAttempt = exampleWork.attempt .reference workIntentObject.objectId exampleHead := by
  have hid : computeAttemptId .reference {
      intentId := workAttempt.intentId, agentId := "agent", idempotencyKey := some "key"
      baseCommit := none, leaseExpiresAtMs := none } exampleHead = workAttempt.attemptId := by
    rw [computeAttemptId, stableJsonHash_eq]
    decide +kernel
  have hattempt : exampleWork.attempt .reference workAttempt.intentId exampleHead =
      { workAttempt with attemptId := computeAttemptId .reference {
        intentId := workAttempt.intentId, agentId := "agent", idempotencyKey := some "key"
        baseCommit := none, leaseExpiresAtMs := none } exampleHead } := rfl
  rw [workIntentObject_objectId, hattempt, hid]

theorem exampleWork_run : ∃ object t,
    (workStart .reference (environmentAt 0) exampleWork).run exec .empty =
      (.ok (workAttempt, object), t) := by
  have hX : ReadsBack Tools.reference.toCrates := readsBack_reference
  obtain ⟨report, t, hwrite, hid, ht⟩ :=
    writeRecord_ends (T := .reference) hX (filled_empty _) "agent.intent" workIntent.toValue (by simp)
  obtain ⟨report', u, hwrite', -, -⟩ :=
    writeRecord_ends (T := .reference) hX ht "agent.attempt" workAttempt.toValue (by
      show workAttemptObject.objectId ∉ [workIntentObject].map CanonicalObject.objectId
      rw [List.map_singleton, List.mem_singleton, workAttemptObject_objectId,
        workIntentObject_objectId]
      decide)
  refine ⟨report', u, workStart_ok_iff.mpr ⟨none, .privateBody, some exampleHead, exampleHead,
    report, t, rfl, rfl, by decide, hwrite.run, rfl, rfl, ?_, rfl, hwrite'.run⟩⟩
  rw [hid]
  exact workAttempt_eq

/-- At the same time, the second call does nothing. -/
theorem exampleWork_again : ∃ object t attempt' object',
    (workStart .reference (environmentAt 0) exampleWork).run exec .empty =
      (.ok (workAttempt, object), t) ∧
    (workStart .reference (environmentAt 0) exampleWork).run exec t =
      (.ok (attempt', object'), t) ∧
    attempt'.intentId = workAttempt.intentId ∧ attempt'.attemptId = workAttempt.attemptId := by
  obtain ⟨object, t, hrun⟩ := exampleWork_run
  obtain ⟨attempt', object', hagain⟩ := (workStart_again_iff hrun (.refl _) (.refl _)
    (environmentAt_sameHead 0 0)).mpr (.inr rfl)
  exact ⟨object, t, attempt', object', hrun, hagain⟩

/-- One millisecond later, the same arguments, key and `HEAD` give no second call that agrees
    with the first. -/
theorem exampleWork_later : ∃ object t,
    (workStart .reference (environmentAt 0) exampleWork).run exec .empty =
      (.ok (workAttempt, object), t) ∧
    ¬ ∃ attempt' object', (workStart .reference (environmentAt 1) exampleWork).run exec t =
        (.ok (attempt', object'), t) ∧
      attempt'.intentId = workAttempt.intentId ∧ attempt'.attemptId = workAttempt.attemptId := by
  obtain ⟨object, t, hrun⟩ := exampleWork_run
  refine ⟨object, t, hrun, ?_⟩
  rintro ⟨attempt', object', hagain, hid, -⟩
  have h := names_issue_of_again hrun (.refl _) (.refl _) (environmentAt_sameHead 0 1) hagain hid
  rcases h with ⟨-, h⟩ | h
  · exact absurd h (by decide)
  · exact absurd h (by decide)

end RickydataGit.Cli
