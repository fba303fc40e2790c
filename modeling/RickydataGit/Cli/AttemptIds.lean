/-
  What an attempt id names.

  The id of an attempt is a hash over the intent, the agent, the base commit and the key. The
  record also has a lease and whether the attempt is in place, and it is stored under a hash
  of all of it. So a second start under the same key with another lease, or with `--in-place`
  left out, stores a second attempt of the same id, and the lookup takes one of the two.

  `attemptId_names_one`: while no start finds a stored attempt under the id it computes with
  other such terms, one id names one attempt, and the lookup finds it. In `leasedLater` a
  start does.
-/
import RickydataGit.Cli.WorkKeys
import RickydataGit.Cli.Provenance

namespace RickydataGit.Cli

open RickydataGit.Lib RickydataGit.Core RickydataGit.Git

/-! ## Identities -/

/-- What the id of an attempt is computed from. -/
structure AttemptIdentity where
  intentId : String
  agentId : String
  baseCommit : String
  idempotencyKey : String

/-- The text that is hashed is the canonical form of this value. -/
def AttemptIdentity.toValue (identity : AttemptIdentity) : Value :=
  .obj [("intent_id", .str identity.intentId), ("agent_id", .str identity.agentId),
    ("base_commit", .str identity.baseCommit),
    ("idempotency_key", .str identity.idempotencyKey)] (by simp)

def AttemptIdentity.id (X : Crates) (identity : AttemptIdentity) : String :=
  stableJsonHash X identity.toValue

/-- No other identity is hashed to the same id. -/
def AttemptIdentity.Apart (X : Crates) (identity identity' : AttemptIdentity) : Prop :=
  NoCollision X (canonicalBytes X identity.toValue) (canonicalBytes X identity'.toValue)

theorem AttemptIdentity.eq_of_id {X : Crates} {identity identity' : AttemptIdentity}
    (hapart : identity.Apart X identity') (h : identity.id X = identity'.id X) :
    identity = identity' := by
  have hvalue := canonicalBytes_eq_iff.mp (hashText_inj hapart h)
  have hfield : ∀ key, ((identity.toValue.get key).map canonicalJson).bind readStr =
      ((identity'.toValue.get key).map canonicalJson).bind readStr := fun key => by
    rw [← get_canonicalJson, hvalue, get_canonicalJson]
  have hintent := hfield "intent_id"
  have hagent := hfield "agent_id"
  have hbase := hfield "base_commit"
  have hkey := hfield "idempotency_key"
  simp only [AttemptIdentity.toValue, Value.get_obj] at hintent hagent hbase hkey
  cases identity
  cases identity'
  simp_all

/-- The identity of a start on a base commit. -/
def AttemptStartInput.identity (input : AttemptStartInput) (baseCommit : String) :
    AttemptIdentity where
  intentId := input.intentId
  agentId := input.agentId
  baseCommit := baseCommit
  idempotencyKey := input.idempotencyKey.getD "default"

theorem computeAttemptId_eq (T : Tools) (input : AttemptStartInput) (baseCommit : String) :
    computeAttemptId T input baseCommit = (input.identity baseCommit).id T.toCrates := rfl

/-- The attempt is named by the identity it has with this key. -/
def AgentAttempt.identity (attempt : AgentAttempt) (key : String) : AttemptIdentity where
  intentId := attempt.intentId
  agentId := attempt.agentId
  baseCommit := attempt.baseCommit
  idempotencyKey := key

/-- As every started attempt is: running, and named after its identity. -/
structure Identified (X : Crates) (attempt : AgentAttempt) (key : String) : Prop where
  status : attempt.status = .running
  named : attempt.attemptId = (attempt.identity key).id X

/-! ## Starts -/

/-- The attempt of a start. -/
def AttemptStartInput.attempt (T : Tools) (input : AttemptStartInput) (inPlace : Bool)
    (baseCommit : String) : AgentAttempt where
  attemptId := computeAttemptId T input baseCommit
  intentId := input.intentId
  baseCommit := baseCommit
  agentId := input.agentId
  leaseExpiresAtMs := input.leaseExpiresAtMs
  status := .running
  inPlace := inPlace

theorem AttemptStartInput.identified (T : Tools) (input : AttemptStartInput) (inPlace : Bool)
    (baseCommit : String) : Identified T.toCrates (input.attempt T inPlace baseCommit)
      (input.idempotencyKey.getD "default") :=
  ⟨rfl, rfl⟩

/-- The input of the second part of `work start`. -/
def WorkStartArgs.input (args : WorkStartArgs) (intentId : String) : AttemptStartInput where
  intentId := intentId
  agentId := args.agentId
  idempotencyKey := args.idempotencyKey
  baseCommit := args.baseCommit
  leaseExpiresAtMs := args.leaseExpiresAtMs

/-- The attempt that a call writes, if it comes to that. -/
inductive Starts (T : Tools) : TypedCommand → AgentAttempt → Prop where
  | attemptStart {env : Environment} {input : AttemptStartInput} {inPlace : Bool}
      {headCommit : Option String} {baseCommit : String} :
      env.headCommit = .ok headCommit → (input.baseCommit <|> headCommit) = some baseCommit →
      Starts T (.attemptStart env input inPlace) (input.attempt T inPlace baseCommit)
  | workStart {env : Environment} {args : WorkStartArgs} {privacy : PrivacyClass}
      {headCommit : Option String} {baseCommit : String} :
      parsePrivacyClass args.privacy = .ok privacy → env.headCommit = .ok headCommit →
      (args.baseCommit <|> headCommit) = some baseCommit →
      Starts T (.workStart env args)
        ((args.input (cachedObject T.toCrates "agent.intent"
          (args.intent privacy env.nowMs).toValue).objectId).attempt T args.inPlace baseCommit)

theorem Starts.identified {T : Tools} {call : TypedCommand} {attempt : AgentAttempt}
    (h : Starts T call attempt) : ∃ key, Identified T.toCrates attempt key := by
  cases h with
  | attemptStart _ _ => exact ⟨_, AttemptStartInput.identified ..⟩
  | workStart _ _ _ => exact ⟨_, AttemptStartInput.identified ..⟩

/-- `attempt start` or `work start`. -/
def TypedCommand.IsStart : TypedCommand → Prop
  | .attemptStart .. | .workStart .. => True
  | _ => False

/-- The attempts of both stores are the same. -/
def SameAttempts (X : Crates) (s t : ObjectStore) : Prop :=
  ∀ objectId body, Holds X t "agent.attempt" objectId body ↔ Holds X s "agent.attempt" objectId body

/-- What a start does to the attempts: it writes its own, or nothing. -/
def StartEffect (T : Tools) (call : TypedCommand) (s t : ObjectStore) : Prop :=
  ∃ u, SameAttempts T.toCrates s u ∧ (t = u ∨ ∃ attempt, Starts T call attempt ∧
    Wrote T.toCrates "agent.attempt" attempt.toValue u t)

section Effects

variable {T : Tools} {s t : ObjectStore} {call : TypedCommand}

theorem startEffect_none (T : Tools) (call : TypedCommand) (s : ObjectStore) :
    StartEffect T call s s :=
  ⟨s, fun _ _ => .rfl, .inl rfl⟩

theorem StartEffect.before {u : ObjectStore} (h : SameAttempts T.toCrates s u)
    (heffect : StartEffect T call u t) : StartEffect T call s t := by
  obtain ⟨v, hv, ht⟩ := heffect
  exact ⟨v, fun objectId body => (hv objectId body).trans (h objectId body), ht⟩

theorem startAttempt_eq {env : Environment} {input : AttemptStartInput} {inPlace : Bool}
    {headCommit : Option String} {baseCommit : String} (signing : Option (Bytes × Option String))
    (hhead : env.headCommit = .ok headCommit)
    (hbase : (input.baseCommit <|> headCommit) = some baseCommit)
    (htree : skipIf inPlace (env.ensureAttemptWorktree (computeAttemptId T input baseCommit)
      baseCommit) = .ok ()) :
    startAttempt T env input inPlace signing = (do
      let object ← writeRecord T "agent.attempt" (input.attempt T inPlace baseCommit).toValue signing
      return (input.attempt T inPlace baseCommit, object)) := by
  rw [startAttempt, hhead, Prog.liftM_ok, Prog.ret_bind, hbase]
  dsimp only
  rw [htree, Prog.liftM_ok, Prog.ret_bind]
  rfl

theorem startAttempt_effect {env : Environment} {input : AttemptStartInput} {inPlace : Bool}
    (signing : Option (Bytes × Option String))
    (hstarts : ∀ headCommit baseCommit, env.headCommit = .ok headCommit →
      (input.baseCommit <|> headCommit) = some baseCommit →
        Starts T call (input.attempt T inPlace baseCommit)) :
    StartEffect T call s ((startAttempt T env input inPlace signing).run exec s).2 := by
  rcases hhead : env.headCommit with e | headCommit
  · rw [startAttempt, hhead]
    exact startEffect_none T call s
  rcases hbase : input.baseCommit <|> headCommit with _ | baseCommit
  · rw [startAttempt, hhead, Prog.liftM_ok, Prog.ret_bind, hbase]
    exact startEffect_none T call s
  rcases htree : skipIf inPlace (env.ensureAttemptWorktree (computeAttemptId T input baseCommit)
    baseCommit) with e | _
  · rw [startAttempt, hhead, Prog.liftM_ok, Prog.ret_bind, hbase]
    dsimp only
    rw [htree]
    exact startEffect_none T call s
  · rw [startAttempt_eq signing hhead hbase htree]
    refine ⟨s, fun _ _ => .rfl, .inr ⟨_, hstarts headCommit baseCommit hhead hbase, ?_⟩⟩
    have hwrote : Wrote T.toCrates "agent.attempt"
        (input.attempt T inPlace baseCommit).toValue s _ := wrote_writeRecord signing s
    rw [Prog.run_bind]
    rcases hrun : (writeRecord T "agent.attempt"
      (input.attempt T inPlace baseCommit).toValue signing).run exec s with ⟨e | object, u⟩ <;>
        rw [hrun] at hwrote
    · exact hwrote
    · exact hwrote

theorem sameAttempts_of_wrote (hX : ReadsBack T.toCrates) {body : Value}
    (hwrote : Wrote T.toCrates "agent.intent" body s t) : SameAttempts T.toCrates s t :=
  fun _ _ => ⟨fun h => (hwrote.holds hX h).resolve_right fun hk => absurd hk.1 (by decide),
    hwrote.keeps⟩

theorem objectId_writeCall (X : Crates) (kind : String) (body : Value)
    (signing : Option (Bytes × Option String)) :
    ((writeCall X kind body signing).object X).objectId = (cachedObject X kind body).objectId := by
  cases signing with
  | none => rfl
  | some key => rfl

theorem attemptStart_effect (env : Environment) (input : AttemptStartInput) (inPlace : Bool) :
    StartEffect T (.attemptStart env input inPlace) s
      ((attemptStart T env input inPlace).run exec s).2 := by
  unfold attemptStart
  rcases env.signing with e | signing
  · exact startEffect_none T _ s
  rw [Prog.liftM_ok, Prog.ret_bind, Prog.run_bind]
  have hkeeps := (readCachedObject_keeps T.toCrates input.intentId).mapFail CliError.git s
  rcases hread : ((readCachedObject T.toCrates input.intentId).mapFail CliError.git).run exec s with
    ⟨e | report, u⟩ <;> rw [hread] at hkeeps
  · exact ⟨u, fun _ _ => Holds.same hkeeps, .inl rfl⟩
  · refine StartEffect.before (fun _ _ => Holds.same hkeeps) ?_
    dsimp only
    split
    · exact startEffect_none T _ u
    · rcases bodyOf T "WorkIntent" WorkIntent.ofValue report.object with e | intent
      · exact startEffect_none T _ u
      · rw [Prog.liftM_ok, Prog.ret_bind]
        split
        · exact startAttempt_effect signing fun _ _ => .attemptStart
        · exact startEffect_none T _ u

theorem workStart_effect (hX : ReadsBack T.toCrates) (env : Environment) (args : WorkStartArgs) :
    StartEffect T (.workStart env args) s ((workStart T env args).run exec s).2 := by
  rw [workStart_eq]
  rcases env.signing with e | signing
  · exact startEffect_none T _ s
  rw [Prog.liftM_ok, Prog.ret_bind]
  rcases hprivacy : parsePrivacyClass args.privacy with e | privacy
  · exact startEffect_none T _ s
  rw [Prog.liftM_ok, Prog.ret_bind]
  split
  · have hwrote : Wrote T.toCrates "agent.intent" (args.intent privacy env.nowMs).toValue s _ :=
      wrote_writeRecord signing s
    have hsame := sameAttempts_of_wrote hX hwrote
    rw [Prog.run_bind]
    rcases hwrite : (writeRecord T "agent.intent" (args.intent privacy env.nowMs).toValue
      signing).run exec s with ⟨e | object, u⟩ <;> rw [hwrite] at hsame
    · exact ⟨u, hsame, .inl rfl⟩
    · refine StartEffect.before hsame ?_
      have hid : object.objectId = (cachedObject T.toCrates "agent.intent"
          (args.intent privacy env.nowMs).toValue).objectId :=
        (WriteCall.objectId_of_ok (writeRecord_ok_iff.mp hwrite)).trans (objectId_writeCall ..)
      have hstarts : ∀ headCommit baseCommit, env.headCommit = .ok headCommit →
          ((args.input object.objectId).baseCommit <|> headCommit) = some baseCommit →
          Starts T (.workStart env args)
            ((args.input object.objectId).attempt T args.inPlace baseCommit) := by
        rw [hid]
        exact fun _ _ => .workStart hprivacy
      exact startAttempt_effect signing hstarts
  · exact startEffect_none T _ s

theorem start_effect (hX : ReadsBack T.toCrates) (hstart : call.IsStart) (s : ObjectStore) :
    StartEffect T call s ((call.prog T).run exec s).2 := by
  have hforget : ∀ {α : Type} {p : Command α}, StartEffect T call s (p.run exec s).2 →
      StartEffect T call s ((do let _ ← p : Command Unit).run exec s).2 := by
    intro α p hp
    rw [Prog.run_bind]
    rcases hrun : p.run exec s with ⟨e | a, t⟩ <;> rw [hrun] at hp
    · exact hp
    · exact hp
  cases call with
  | attemptStart env input inPlace => exact hforget (attemptStart_effect env input inPlace)
  | workStart env args => exact hforget (workStart_effect hX env args)
  | _ => cases hstart

end Effects

/-! ## One attempt for each id -/

/-- The call finds no attempt under the id it computes that has another lease or place. -/
def SameTerms (T : Tools) (call : TypedCommand) (s : ObjectStore) : Prop :=
  ∀ attempt stored, Starts T call attempt → StoredAttempt T.toCrates s stored →
    stored.attemptId = attempt.attemptId →
    stored.leaseExpiresAtMs = attempt.leaseExpiresAtMs ∧ stored.inPlace = attempt.inPlace

/-- The identities of the call and of the stored attempts do not collide. -/
def IdentitiesApart (T : Tools) (call : TypedCommand) (s : ObjectStore) : Prop :=
  ∀ attempt stored key key', Starts T call attempt → StoredAttempt T.toCrates s stored →
    Identified T.toCrates attempt key → Identified T.toCrates stored key' →
    (stored.identity key').Apart T.toCrates (attempt.identity key)

/-- An id names one attempt, and the lookup finds it. -/
structure OneAttempt (T : Tools) (s : ObjectStore) : Prop where
  bodies : ∀ objectId objectId' body body' attempt attempt',
    Holds T.toCrates s "agent.attempt" objectId body →
    Holds T.toCrates s "agent.attempt" objectId' body' →
    AgentAttempt.ofValue body = some attempt → AgentAttempt.ofValue body' = some attempt' →
    attempt.attemptId = attempt'.attemptId → body = body'
  found : ∀ attempt, StoredAttempt T.toCrates s attempt →
    ((findAttempt T attempt.attemptId).run exec s).1 = .ok attempt

/-- The stored attempts are started ones, one for each id. -/
structure Named (X : Crates) (s : ObjectStore) : Prop where
  started : ∀ objectId body, Holds X s "agent.attempt" objectId body →
    ∃ attempt key, body = canonicalJson attempt.toValue ∧ Identified X attempt key
  one : ∀ attempt attempt', StoredAttempt X s attempt → StoredAttempt X s attempt' →
    attempt.attemptId = attempt'.attemptId → attempt = attempt'

section Named

variable {T : Tools} {s t : ObjectStore} {call : TypedCommand}

theorem Named.same (h : Named T.toCrates s) (hst : SameAttempts T.toCrates s t) :
    Named T.toCrates t where
  started objectId body hbody := h.started objectId body ((hst objectId body).mp hbody)
  one attempt attempt' := by
    rintro ⟨objectId, body, hbody, hread⟩ ⟨objectId', body', hbody', hread'⟩
    exact h.one attempt attempt' ⟨objectId, body, (hst _ _).mp hbody, hread⟩
      ⟨objectId', body', (hst _ _).mp hbody', hread'⟩

theorem Named.identified (h : Named T.toCrates s) {stored : AgentAttempt}
    (hstored : StoredAttempt T.toCrates s stored) : ∃ key, Identified T.toCrates stored key := by
  obtain ⟨objectId, body, hbody, hread⟩ := hstored
  obtain ⟨attempt, key, rfl, hid⟩ := h.started objectId body hbody
  rw [AgentAttempt.readBack] at hread
  obtain rfl := Option.some.inj hread
  exact ⟨key, hid⟩

/-- An attempt of one identity, lease and place is one record. -/
theorem attempt_eq_of_terms {X : Crates} {attempt stored : AgentAttempt} {key key' : String}
    (h : Identified X attempt key) (h' : Identified X stored key')
    (hid : stored.attemptId = attempt.attemptId)
    (hapart : (stored.identity key').Apart X (attempt.identity key))
    (hterms : stored.leaseExpiresAtMs = attempt.leaseExpiresAtMs ∧
      stored.inPlace = attempt.inPlace) : stored = attempt := by
  have hidentity := AttemptIdentity.eq_of_id hapart
    (h'.named.symm.trans (hid.trans h.named))
  have hstatus := h'.status.trans h.status.symm
  obtain ⟨hlease, hplace⟩ := hterms
  cases attempt
  cases stored
  simp_all [AgentAttempt.identity]

/-- A new attempt is the stored one of its id, if there is one. -/
theorem Named.wrote (hX : ReadsBack T.toCrates) (h : Named T.toCrates s) {attempt : AgentAttempt}
    (hwrote : Wrote T.toCrates "agent.attempt" attempt.toValue s t)
    (hid : ∃ key, Identified T.toCrates attempt key)
    (hsame : ∀ stored, StoredAttempt T.toCrates s stored →
      stored.attemptId = attempt.attemptId → stored = attempt) : Named T.toCrates t := by
  have hcases : ∀ stored, StoredAttempt T.toCrates t stored →
      StoredAttempt T.toCrates s stored ∨ stored = attempt := by
    rintro stored ⟨objectId, body, hbody, hread⟩
    rcases hwrote.holds hX hbody with hold | ⟨-, rfl⟩
    · exact .inl ⟨objectId, body, hold, hread⟩
    · rw [AgentAttempt.readBack] at hread
      exact .inr (Option.some.inj hread).symm
  constructor
  · intro objectId body hbody
    rcases hwrote.holds hX hbody with hold | ⟨-, rfl⟩
    · exact h.started objectId body hold
    · obtain ⟨key, hkey⟩ := hid
      exact ⟨attempt, key, rfl, hkey⟩
  · intro a a' ha ha' heq
    rcases hcases a ha with hs | rfl
    · rcases hcases a' ha' with hs' | rfl
      · exact h.one a a' hs hs' heq
      · exact hsame a hs heq
    · rcases hcases a' ha' with hs' | rfl
      · exact (hsame a' hs' heq.symm).symm
      · rfl

theorem StoredAttempt.sameAttempts (hst : SameAttempts T.toCrates s t) {attempt : AgentAttempt}
    (h : StoredAttempt T.toCrates t attempt) : StoredAttempt T.toCrates s attempt := by
  obtain ⟨objectId, body, hbody, hread⟩ := h
  exact ⟨objectId, body, (hst _ _).mp hbody, hread⟩

/-- A start whose terms agree with the stored ones. -/
theorem Named.start (hX : ReadsBack T.toCrates) (h : Named T.toCrates s) (hstart : call.IsStart)
    (hterms : SameTerms T call s) (hapart : IdentitiesApart T call s) :
    Named T.toCrates ((call.prog T).run exec s).2 := by
  obtain ⟨u, hu, ht | ⟨attempt, hattempt, hwrote⟩⟩ := start_effect hX hstart s
  · rw [ht]
    exact h.same hu
  · refine (h.same hu).wrote hX hwrote hattempt.identified fun stored hstored hid => ?_
    have hstored' := StoredAttempt.sameAttempts hu hstored
    obtain ⟨key, hkey⟩ := hattempt.identified
    obtain ⟨key', hkey'⟩ := h.identified hstored'
    exact attempt_eq_of_terms hkey hkey' hid
      (hapart attempt stored key key' hattempt hstored' hkey hkey')
      (hterms attempt stored hattempt hstored' hid)

theorem Named.runAll (hX : ReadsBack T.toCrates) {calls : List TypedCommand}
    (h : Named T.toCrates s) (hstarts : ∀ call ∈ calls, call.IsStart)
    (hterms : EachCall T (SameTerms T) s calls) (hapart : EachCall T (IdentitiesApart T) s calls) :
    Named T.toCrates (runAll T s calls) := by
  induction calls generalizing s with
  | nil => exact h
  | cons call rest ih =>
    obtain ⟨hstart, hrest⟩ := List.forall_mem_cons.mp hstarts
    exact ih (h.start hX hstart hterms.1 hapart.1) hrest hterms.2 hapart.2

/-- Bodies that can be read are listed. -/
theorem readBodies_ok {α : Type} {name : String} {read : Value → Option α}
    {entries : List ObjectListEntry} (h : ∀ entry ∈ entries, ∃ o,
      Sound T.toCrates entry.objectId o s ∧ (read o.body).isSome) :
    ∃ listed t, (readBodies T name read entries).run exec s = (.ok listed, t) := by
  induction entries generalizing s with
  | nil => exact ⟨[], s, rfl⟩
  | cons entry rest ih =>
    obtain ⟨⟨o, ho, hsome⟩, hrest⟩ := List.forall_mem_cons.mp h
    obtain ⟨report, s', hrun, hobject, -, hsame⟩ := ho.read
    obtain ⟨body, hbody⟩ := Option.isSome_iff_exists.mp hsome
    obtain ⟨listed, t, hlisted⟩ := ih (s := s') fun e he => by
      obtain ⟨o', ho', hsome'⟩ := hrest e he
      exact ⟨o', ho'.same hsame, hsome'⟩
    have hok : bodyOf T name read report.object = .ok body := by
      rw [hobject, bodyOf, hbody]
    rw [readBodies, Prog.run_bind_ok exec ((Prog.run_mapFail_ok_iff exec CliError.git).mpr hrun),
      hok, Prog.liftM_ok, Prog.ret_bind, Prog.run_bind_ok exec hlisted]
    exact ⟨_, t, rfl⟩

/-- Where all attempts are started ones they can be listed. -/
theorem Named.lists (h : Named T.toCrates s) (hs : Ledger T.toCrates s) :
    ∃ listed t, (listAttempts T).run exec s = (.ok listed, t) := by
  obtain ⟨entries, hlist, -, hmem⟩ := hs.valid.list "agent.attempt"
  obtain ⟨listed, t, hlisted⟩ := @readBodies_ok T s _ "AgentAttempt" AgentAttempt.ofValue entries
    fun entry he => by
      obtain ⟨o, hsound, hcopy, hkind, hid⟩ :=
        hs.valid.sound hs.sha hs.valid ((hmem _).mp (List.mem_map_of_mem he))
      have hheld := hs.holds_copy hcopy
      rw [hkind] at hheld
      obtain ⟨attempt, key, hbody, -⟩ := h.started _ _ hheld
      refine ⟨o, hsound, ?_⟩
      rw [hbody, AgentAttempt.readBack]
      rfl
  have hbodies : (listBodies T "agent.attempt" "AgentAttempt" AgentAttempt.ofValue).run exec s =
      (.ok listed, t) := by
    rw [listBodies, Prog.run_bind_ok exec ((Prog.run_mapFail_ok_iff exec CliError.git).mpr hlist),
      hlisted]
  exact ⟨_, t, Prog.run_bind_ok exec hbodies _⟩

theorem Named.oneAttempt (hX : ReadsBack T.toCrates) (h : Named T.toCrates s)
    (hs : Ledger T.toCrates s) : OneAttempt T s where
  bodies objectId objectId' body body' attempt attempt' hbody hbody' hread hread' hid := by
    obtain rfl := h.one attempt attempt' ⟨_, _, hbody, hread⟩ ⟨_, _, hbody', hread'⟩ hid
    obtain ⟨first, -, rfl, -⟩ := h.started _ _ hbody
    obtain ⟨second, -, rfl, -⟩ := h.started _ _ hbody'
    rw [AgentAttempt.readBack] at hread hread'
    rw [Option.some.inj hread, Option.some.inj hread']
  found attempt hattempt := by
    obtain ⟨listed, t, hlisted⟩ := h.lists hs
    have hstored := sortedBodies_stored hX hs hlisted
    obtain ⟨entry, hentry, hbody⟩ := List.mem_map.mp ((hstored attempt).mpr hattempt)
    rw [findAttempt, Prog.run_bind_ok exec hlisted]
    rcases hfind : listed.find? fun entry => entry.body.attemptId == attempt.attemptId with _ | found
    · have hnone := List.find?_eq_none.mp hfind entry hentry
      rw [hbody, beq_self_eq_true] at hnone
      exact absurd rfl hnone
    · have hid : found.body.attemptId = attempt.attemptId := by
        simpa using List.find?_some hfind
      have hfound := (hstored found.body).mp
        (List.mem_map_of_mem (List.mem_of_find?_eq_some hfind))
      rw [hfind, ← h.one found.body attempt hfound hattempt hid]
      rfl

end Named

/-- After every sequence of starts, made in a store without attempts, an id names one attempt,
    if no start finds other terms under the id it computes. -/
theorem attemptId_names_one {T : Tools} (hX : ReadsBack T.toCrates) {s : ObjectStore}
    (hledger : Ledger T.toCrates s)
    (hnone : ∀ objectId body, ¬ Holds T.toCrates s "agent.attempt" objectId body)
    (calls : List TypedCommand) (hstarts : ∀ call ∈ calls, call.IsStart)
    (hterms : EachCall T (SameTerms T) s calls) (hapart : EachCall T (IdentitiesApart T) s calls)
    (hsha : ∀ u, PassesThrough T s calls u → NoCollisions T.toCrates u u) :
    OneAttempt T (runAll T s calls) := by
  have hnamed : Named T.toCrates s := by
    constructor
    · exact fun objectId body hbody => absurd hbody (hnone objectId body)
    · rintro _ _ ⟨objectId, body, hbody, -⟩
      exact absurd hbody (hnone objectId body)
  have hledger' := (runAll_invariant (I := fun _ => True) hX
    (fun _ _ _ _ (_ : True) _ _ _ => trivial) hledger trivial
    (eachCall_of_forall (fun _ _ => trivial) s) hsha).1
  exact (hnamed.runAll hX hstarts hterms hapart).oneAttempt hX hledger'

/-! ## A lease that comes later -/

theorem runAll_append (T : Tools) (s : ObjectStore) (calls calls' : List TypedCommand) :
    runAll T s (calls ++ calls') = runAll T (runAll T s calls) calls' := by
  induction calls generalizing s with
  | nil => rfl
  | cons call rest ih => exact ih _

/-- The first start of the intent names its attempt. -/
theorem exampleStart_named :
    OneAttempt .reference (runAll .reference .empty (exampleStart exampleIntentId)) := by
  have hX : ReadsBack Tools.reference.toCrates := readsBack_reference
  obtain ⟨t, hends, -⟩ := exampleStart_filled
  obtain ⟨report, s, hfirst, hs, -⟩ := @intentWrite_ends .reference [] .empty hX (filled_empty _)
    quietEnvironment exampleIntent rfl (by decide) (by simp)
  have hnone : ∀ objectId body, ¬ Holds Crates.reference s "agent.attempt" objectId body := by
    intro objectId body hbody
    obtain ⟨o, ho, hk, -⟩ := (hs.holds hX).mp hbody
    rw [List.mem_singleton.mp ho] at hk
    exact absurd hk (by decide : "agent.intent" ≠ "agent.attempt")
  have hstored : ∀ attempt, ¬ StoredAttempt Crates.reference s attempt := by
    rintro attempt ⟨objectId, body, hbody, -⟩
    exact hnone objectId body hbody
  have hrun : runAll .reference .empty (exampleStart exampleIntentId) = runAll .reference s
      [.attemptStart quietEnvironment (exampleInput exampleIntentId) true] := by
    rw [exampleStart, runAll, hfirst.run]
  rw [hrun]
  refine attemptId_names_one (T := .reference) hX (hs.ledger hX) hnone _ (fun call hcall => ?_)
    ⟨fun _ stored _ h => absurd h (hstored stored), trivial⟩
    ⟨fun _ stored _ _ _ h => absurd h (hstored stored), trivial⟩ fun u hu => hends.clean u (.inr ?_)
  · rw [List.mem_singleton.mp hcall]
    trivial
  · rw [hfirst.run]
    exact hu

def leasedInput : AttemptStartInput := ⟨exampleIntentId, "a", none, some "b", some 7⟩

/-- The same start again, with a lease. -/
def leasedLater : List TypedCommand :=
  exampleStart exampleIntentId ++ [.attemptStart quietEnvironment leasedInput true]

def leasedAttempt : AgentAttempt := { lowerAttempt with leaseExpiresAtMs := some 7 }

def leasedAttemptObject : CanonicalObject :=
  cachedObject .reference "agent.attempt" leasedAttempt.toValue

theorem leasedAttemptObject_objectId : leasedAttemptObject.objectId =
    "sha256:f0713e7f482c2945cc069c730ac5a5c7d770bec3d64cc55a0edca3026b4e2d45" := by
  rw [leasedAttemptObject, objectId_cachedObject]
  decide +kernel

/-- The start finds its intent, and writes the attempt with the lease. -/
theorem leasedLater_filled : Filled .reference
    [leasedAttemptObject, lowerAttemptObject, intentObject]
    (runAll .reference .empty leasedLater) := by
  have hX : ReadsBack Tools.reference.toCrates := readsBack_reference
  obtain ⟨t, hends, ht⟩ := exampleStart_filled
  have hledger := ht.ledger hX
  have hintent : Holds Crates.reference t "agent.intent" exampleIntentId
      (canonicalJson intentObject.body) :=
    (ht.holds hX).mpr ⟨intentObject, by simp, rfl, intentObject_objectId, rfl⟩
  obtain ⟨o, hsound, hcopy, hkind, hid⟩ :=
    hledger.valid.sound hledger.sha hledger.valid hintent.refBackedOf
  obtain ⟨read, t', hread, hobject, -, hsame⟩ := hsound.read
  have hheld := hledger.holds_copy hcopy
  rw [hid] at hheld
  obtain ⟨-, hbody⟩ := hledger.holds_inj hheld hintent
  have hof : bodyOf .reference "WorkIntent" WorkIntent.ofValue read.object = .ok exampleIntent := by
    have hcanonical : canonicalJson intentObject.body = canonicalJson exampleIntent.toValue :=
      canonicalJson_idem _
    rw [bodyOf, hobject, hbody, hcanonical, WorkIntent.readBack]
  have hnew : leasedAttemptObject.objectId ∉
      [lowerAttemptObject, intentObject].map CanonicalObject.objectId := by
    rw [List.map_cons, List.map_singleton, leasedAttemptObject_objectId,
      lowerAttemptObject_objectId, intentObject_objectId]
    decide
  obtain ⟨object, u, hwrite, -, hu⟩ := writeRecord_ends (T := .reference) hX (ht.same hsame)
    "agent.attempt" leasedAttempt.toValue hnew
  have hattempt : leasedInput.attempt .reference true "b" = leasedAttempt := by
    have hid : computeAttemptId .reference leasedInput "b" = lowerAttempt.attemptId := by
      rw [computeAttemptId, stableJsonHash_eq]
      decide +kernel
    rw [AttemptStartInput.attempt, hid]
    rfl
  have hstart : (startAttempt .reference quietEnvironment leasedInput true none).run exec t' =
      (.ok (leasedAttempt, object), u) := by
    have hhead : quietEnvironment.headCommit = .ok none := rfl
    rw [startAttempt_eq none hhead rfl rfl, hattempt,
      Prog.run_bind_ok exec hwrite.run]
    rfl
  have hrun : (attemptStart .reference quietEnvironment leasedInput true).run exec t =
      (.ok (leasedAttempt, object), u) := by
    have hsigning : quietEnvironment.signing = .ok none := rfl
    have hvalid : (validateWorkIntent exampleIntent).isEmpty = true := by decide
    have hread' := (Prog.run_mapFail_ok_iff exec CliError.git).mpr hread
    rw [attemptStart, hsigning, Prog.liftM_ok, Prog.ret_bind]
    refine (Prog.run_bind_ok exec hread' _).trans ?_
    rw [if_neg (by rw [hobject, hkind]; decide), hof, Prog.liftM_ok, Prog.ret_bind, if_pos hvalid,
      hstart]
  have hall : runAll .reference .empty leasedLater = u := by
    have hlast := runAll_append .reference .empty (exampleStart exampleIntentId)
      [.attemptStart quietEnvironment leasedInput true]
    rw [leasedLater, hlast, hends.run, runAll, runAll, TypedCommand.prog,
      Prog.run_bind_ok exec hrun]
    rfl
  rw [hall]
  exact hu

/-- Two attempts of one id are stored. -/
theorem leasedLater_two : ¬ OneAttempt .reference (runAll .reference .empty leasedLater) := by
  intro h
  have hX : ReadsBack Tools.reference.toCrates := readsBack_reference
  have hleased : Holds Crates.reference (runAll .reference .empty leasedLater) "agent.attempt"
      leasedAttemptObject.objectId (canonicalJson leasedAttempt.toValue) :=
    (leasedLater_filled.holds hX).mpr ⟨_, by simp, rfl, rfl, canonicalJson_idem _⟩
  have hlower : Holds Crates.reference (runAll .reference .empty leasedLater) "agent.attempt"
      lowerAttemptObject.objectId (canonicalJson lowerAttempt.toValue) :=
    (leasedLater_filled.holds hX).mpr ⟨lowerAttemptObject, by simp, rfl, rfl, canonicalJson_idem _⟩
  have hbody := h.bodies _ _ _ _ leasedAttempt lowerAttempt hleased hlower
    (AgentAttempt.readBack _) (AgentAttempt.readBack _) rfl
  have hattempts := congrArg AgentAttempt.ofValue hbody
  rw [AgentAttempt.readBack, AgentAttempt.readBack] at hattempts
  exact absurd (congrArg AgentAttempt.leaseExpiresAtMs (Option.some.inj hattempts)) (by decide)

end RickydataGit.Cli
