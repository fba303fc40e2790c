/-
  The chain from a patch back to its intent.

  `Linked X s kind body` : what an object of the kind refers to is stored. An attempt has
  its intent, a run, a change, a patch and a transition their attempt, a change its runs,
  a patch its changes and its diff, and a submitted attempt a patch.

  `provenance_of_lowerCase`: it holds of every object after every sequence of commands
  from the empty store, if each `attempt start` spells its intent id in lower case. The
  store folds the digits of an id it looks up, and the attempt records the id as it was
  typed (`upperCaseStart_breaks_provenance`); `work start` records the id of the object.
-/
import RickydataGit.Cli.KnownRuns

namespace RickydataGit.Cli

open RickydataGit.Lib RickydataGit.Core RickydataGit.Git

/-- The diff object of a patch: stored, of the same patch, attempt and base commit, and
    with one of its diff hashes. -/
def HasDiff (X : Crates) (s : ObjectStore) (patch : PreparedPatch) (diffObjectId : String) : Prop :=
  ∃ body patchDiff, Holds X s "agent.patch_diff" diffObjectId body ∧
    PatchDiff.ofValue body = some patchDiff ∧ patchDiff.patchId = patch.patchId ∧
    patchDiff.attemptId = patch.attemptId ∧ patchDiff.baseCommit = patch.baseCommit ∧
    patchDiff.diffHash ∈ patch.diffHashes

/-- What an object of the kind refers to is stored. -/
def Linked (X : Crates) (s : ObjectStore) (kind : String) (body : Value) : Prop :=
  match kind with
  | "agent.attempt" =>
    ∃ attempt, AgentAttempt.ofValue body = some attempt ∧
      RefBackedOf X s "agent.intent" attempt.intentId
  | "agent.run" => ∃ run, AgentRun.ofValue body = some run ∧ HasAttempt X s run.attemptId
  | "agent.change" =>
    ∃ change, ChangeEvidence.ofValue body = some change ∧ HasAttempt X s change.attemptId ∧
      ∀ runId ∈ change.runIds,
        ∃ run, StoredRun X s run ∧ run.runId = runId ∧ run.attemptId = change.attemptId
  | "agent.patch" =>
    ∃ patch, PreparedPatch.ofValue body = some patch ∧ HasAttempt X s patch.attemptId ∧
      (∀ changeId ∈ patch.changeIds, ∃ change, StoredChange X s change ∧
        change.changeId = changeId ∧ change.attemptId = patch.attemptId) ∧
      ∀ diffObjectId ∈ patch.diffObjectIds, HasDiff X s patch diffObjectId
  | "agent.attempt_status" =>
    ∃ transition, AttemptStatusTransition.ofValue body = some transition ∧
      HasAttempt X s transition.attemptId ∧
      (transition.status = .submitted →
        ∃ patch, StoredPatch X s patch ∧ patch.attemptId = transition.attemptId)
  | _ => True

def Provenance (X : Crates) (s : ObjectStore) : Prop :=
  ∀ kind objectId body, Holds X s kind objectId body → Linked X s kind body

/-- An `attempt start` gives its intent id in lower case. -/
def SpellsLowerCase : TypedCommand → Prop
  | .attemptStart _ input _ => LowerCase input.intentId
  | _ => True

section Steps

variable {X : Crates} {s t : ObjectStore}

theorem IsStored.mono {α : Type} {kind : String} {read : Value → Option α} {record : α}
    (hst : ∀ kind objectId body, Holds X s kind objectId body → Holds X t kind objectId body)
    (h : IsStored X s kind read record) : IsStored X t kind read record := by
  obtain ⟨objectId, body, hbody, hread⟩ := h
  exact ⟨objectId, body, hst _ _ _ hbody, hread⟩

/-- Links are not broken by what comes later. -/
theorem Linked.mono {kind : String} {body : Value}
    (hst : ∀ kind objectId body, Holds X s kind objectId body → Holds X t kind objectId body)
    (h : Linked X s kind body) : Linked X t kind body := by
  have hattempt : ∀ {attemptId}, HasAttempt X s attemptId → HasAttempt X t attemptId :=
    fun ⟨attempt, hstored, hid⟩ => ⟨attempt, hstored.mono hst, hid⟩
  unfold Linked at h ⊢
  split at h
  · obtain ⟨attempt, hread, hintent⟩ := h
    obtain ⟨body', hbody⟩ := hintent.holds
    exact ⟨attempt, hread, (hst _ _ _ hbody).refBackedOf⟩
  · obtain ⟨run, hread, ha⟩ := h
    exact ⟨run, hread, hattempt ha⟩
  · obtain ⟨change, hread, ha, hruns⟩ := h
    refine ⟨change, hread, hattempt ha, fun runId hr => ?_⟩
    obtain ⟨run, hrun, hrest⟩ := hruns runId hr
    exact ⟨run, hrun.mono hst, hrest⟩
  · obtain ⟨patch, hread, ha, hchanges, hdiffs⟩ := h
    refine ⟨patch, hread, hattempt ha, fun changeId hc => ?_, fun diffObjectId hd => ?_⟩
    · obtain ⟨change, hchange, hrest⟩ := hchanges changeId hc
      exact ⟨change, hchange.mono hst, hrest⟩
    · obtain ⟨body', patchDiff, hbody, hrest⟩ := hdiffs diffObjectId hd
      exact ⟨body', patchDiff, hst _ _ _ hbody, hrest⟩
  · obtain ⟨transition, hread, ha, hsub⟩ := h
    refine ⟨transition, hread, hattempt ha, fun hs => ?_⟩
    obtain ⟨patch, hpatch, hid⟩ := hsub hs
    exact ⟨patch, hpatch.mono hst, hid⟩
  · trivial

/-- What a call may write is linked in the store it is written in. -/
theorem Writes.linked {T : Tools} {call : TypedCommand} {s₀ : ObjectStore} {kind : String}
    {body : Value} (hlower : SpellsLowerCase call) (h : Ledger T.toCrates s)
    (hw : Writes T call s₀ s kind body) : Linked T.toCrates s kind (canonicalJson body) := by
  cases hw with
  | intent => trivial
  | workAttempt hintent => exact ⟨_, AgentAttempt.readBack _, hintent⟩
  | @attempt env input inPlace attempt intentId hex hcall hid hintent hhex hhex' =>
    subst hcall
    refine ⟨_, AgentAttempt.readBack _, ?_⟩
    -- the only spelling of the digits in lower case is the id of the object
    obtain ⟨r, hr, o, hparse, hk, rfl⟩ := hintent
    have hv := h.valid.valid (.ref hr hparse)
    rw [hid, ← (lowerCase_iff hv hhex hhex').mp hlower]
    exact ⟨r, hr, o, hparse, hk, rfl⟩
  | transition hattempt hpatch => exact ⟨_, AttemptStatusTransition.readBack _, hattempt, hpatch⟩
  | trace => trivial
  | run hattempt => exact ⟨_, AgentRun.readBack _, hattempt⟩
  | change hattempt hruns =>
    refine ⟨_, ChangeEvidence.readBack _, ⟨_, hattempt, rfl⟩, fun runId hmem => ?_⟩
    obtain ⟨run, hrun, rfl⟩ := List.mem_map.mp hmem
    exact ⟨run, (hruns run hrun).1, rfl, (hruns run hrun).2⟩
  | patchDiff => trivial
  | @patch env attemptId attempt changes detected diffObjectId hcall hattempt hid hchanges hdetected
      hhash hdiff hkept hold =>
    refine ⟨_, PreparedPatch.readBack _, ⟨_, hattempt, rfl⟩, fun changeId hmem => ?_,
      fun diffObjectId' hmem => ?_⟩
    · obtain ⟨change, hchange, rfl⟩ := List.mem_map.mp (mem_sortedDedup.mp hmem)
      obtain ⟨hstored, hcid⟩ := (hchanges change).mp hchange
      exact ⟨change, hstored, rfl, hcid.trans hid.symm⟩
    · obtain rfl := List.mem_singleton.mp hmem
      exact ⟨_, _, hdiff, PatchDiff.readBack _, rfl, rfl, rfl, mem_sortedDedup.mpr hhash⟩
  | application => trivial
  | retirement => trivial

end Steps

/-- After every sequence of commands, every object refers to what is stored, if every
    `attempt start` spells the id of its intent in lower case. -/
theorem provenance_of_lowerCase {T : Tools} (hX : ReadsBack T.toCrates)
    (calls : List TypedCommand) (hlower : ∀ call ∈ calls, SpellsLowerCase call)
    (hsha : ∀ u, PassesThrough T .empty calls u → NoCollisions T.toCrates u u) :
    Provenance T.toCrates (runAll T .empty calls) := by
  have hempty : Provenance T.toCrates .empty := by
    rintro kind objectId body ⟨r, hr, -⟩
    have hsome := (mem_objectRefs.mp hr).1
    simp [ObjectStore.empty] at hsome
  have hmeets := eachCall_of_forall (T := T) hlower .empty
  refine (runAll_invariant hX (fun call s₀ s t hcall _ hI hstep => ?_) (ledger_empty _) hempty
    hmeets hsha).2
  have hkeeps : ∀ kind objectId body, Holds T.toCrates s kind objectId body →
      Holds T.toCrates t kind objectId body := fun _ _ _ => hstep.keeps
  cases hstep with
  | read hledger hs =>
    intro kind objectId body hbody
    exact (hI kind objectId body ((Holds.same hs).mp hbody)).mono hkeeps
  | write hledger hw hwrote _ =>
    intro kind objectId body hbody
    rcases hwrote.holds hX hbody with hold | ⟨rfl, rfl⟩
    · exact (hI kind objectId body hold).mono hkeeps
    · exact (hw.linked hcall hledger).mono hkeeps

/-! ## Two spellings of an id -/

def exampleIntent : WorkIntent where
  objective := "o"
  issueRefs := [⟨"p", "r", "1", none⟩]
  taskRefs := []
  baseCommit := none
  allowedCapabilities := []
  privacy := .publicMetadata
  teePolicy := none
  releaseGuard := none
  createdBy := none

def intentObject : CanonicalObject := cachedObject .reference "agent.intent" exampleIntent.toValue

/-- The id of the intent. -/
def exampleIntentId : String :=
  "sha256:48c0faafd5ceddf7093c65870061c55f7f96515e11f7f7f034da54415cd0abb2"

theorem intentObject_objectId : intentObject.objectId = exampleIntentId := by
  rw [intentObject, objectId_cachedObject]
  decide +kernel

/-- The id of the intent, typed in upper case. -/
def upperIntentId : String :=
  "sha256:48C0FAAFD5CEDDF7093C65870061C55F7F96515E11F7F7F034DA54415CD0ABB2"

def exampleInput (intentId : String) : AttemptStartInput := ⟨intentId, "a", none, some "b", none⟩

/-- The intent is written and an attempt is started on it. -/
def exampleStart (intentId : String) : List TypedCommand :=
  [.intentWrite quietEnvironment (.ok exampleIntent),
    .attemptStart quietEnvironment (exampleInput intentId) true]

def startedAttempt (intentId attemptId : String) : AgentAttempt where
  attemptId := attemptId
  intentId := intentId
  baseCommit := "b"
  agentId := "a"
  leaseExpiresAtMs := none
  status := .running
  inPlace := true

theorem exampleStart_ends {intentId attemptId : String}
    (hdigits : objectHex intentId = objectHex exampleIntentId)
    (hid : computeAttemptId .reference (exampleInput intentId) "b" = attemptId)
    (hnew : (cachedObject .reference "agent.attempt"
      (startedAttempt intentId attemptId).toValue).objectId ≠ exampleIntentId) :
    ∃ t, EndsAll .reference .empty (exampleStart intentId) t ∧ Filled .reference
      [cachedObject .reference "agent.attempt" (startedAttempt intentId attemptId).toValue,
        intentObject] t := by
  have hX := readsBack_reference
  have hvalid : (validateWorkIntent exampleIntent).isEmpty = true := by decide
  obtain ⟨report, s, hfirst, hs, hwrite⟩ := @intentWrite_ends .reference [] .empty hX
    (filled_empty _) quietEnvironment exampleIntent rfl hvalid (by simp)
  -- the intent is read from its cache file, which is named after the folded digits
  obtain ⟨m, -, hhex⟩ := objectHex_of_valid (X := .reference) (o := intentObject)
    (valid_cachedObject ..)
  have hread := read_cached_run (T := .reference) hX
    (hdigits.trans (intentObject_objectId ▸ hhex)) (cache_writeRecord hwrite hhex)
  have hkind : intentObject.canonical.kind = "agent.intent" := rfl
  have hintent : WorkIntent.ofValue intentObject.canonical.body = some exampleIntent := by
    have hbody : intentObject.canonical.body = canonicalJson exampleIntent.toValue :=
      canonicalJson_idem _
    rw [hbody, WorkIntent.readBack]
  have hattempt : startedAttempt intentId attemptId = {
      attemptId := computeAttemptId .reference (exampleInput intentId) "b"
      intentId := (exampleInput intentId).intentId, baseCommit := "b"
      agentId := (exampleInput intentId).agentId
      leaseExpiresAtMs := (exampleInput intentId).leaseExpiresAtMs, status := .running
      inPlace := true } := by
    rw [hid]
    rfl
  have hnew' : (cachedObject .reference "agent.attempt"
      (startedAttempt intentId attemptId).toValue).objectId ∉
        [intentObject].map CanonicalObject.objectId := by
    rw [List.map_singleton, List.mem_singleton, intentObject_objectId]
    exact hnew
  obtain ⟨t, hsecond, ht⟩ := @attemptStart_ends .reference _ _ hX hs quietEnvironment
    (exampleInput intentId) _ _ _ _ _ rfl rfl rfl hread hkind hintent hvalid hattempt hnew'
  exact ⟨t, .cons hfirst (.cons hsecond (endsAll_nil hX ht)), ht⟩

/-- The attempt of the intent, by its id. -/
def lowerAttempt : AgentAttempt := startedAttempt exampleIntentId
  "sha256:84d388d68af534277b08dd3cf1a1642e9418bd7774748b5b5ed8b00199cb295d"

def lowerAttemptObject : CanonicalObject :=
  cachedObject .reference "agent.attempt" lowerAttempt.toValue

theorem lowerAttemptObject_objectId : lowerAttemptObject.objectId =
    "sha256:3bcbf13189e06f041b81acd8d1ef6edbff98decb2a8c91a534a6d3e629740f35" := by
  rw [lowerAttemptObject, objectId_cachedObject]
  decide +kernel

theorem exampleStart_filled : ∃ t, EndsAll .reference .empty (exampleStart exampleIntentId) t ∧
    Filled .reference [lowerAttemptObject, intentObject] t := by
  have hid : computeAttemptId .reference (exampleInput exampleIntentId) "b" =
      lowerAttempt.attemptId := by
    rw [computeAttemptId, stableJsonHash_eq]
    decide +kernel
  have hnew : lowerAttemptObject.objectId ≠ exampleIntentId := by
    rw [lowerAttemptObject_objectId]
    decide
  exact exampleStart_ends rfl hid hnew

/-- In lower case the attempt refers to its intent. -/
theorem exampleStart_provenance :
    Provenance .reference (runAll .reference .empty (exampleStart exampleIntentId)) := by
  obtain ⟨t, hends, -⟩ := exampleStart_filled
  refine provenance_of_lowerCase (T := .reference) readsBack_reference _ ?_ hends.clean
  have hlower : LowerCase exampleIntentId := by
    obtain ⟨m, hm, -⟩ := objectHex_of_valid (X := .reference) (o := intentObject)
      (valid_cachedObject ..)
    rw [← intentObject_objectId, hm]
    exact lowerCase_hashText m
  intro call hcall
  simp only [exampleStart, List.mem_cons, List.not_mem_nil, or_false] at hcall
  rcases hcall with rfl | rfl
  · trivial
  · exact hlower

/-- The attempt as it is recorded when the id is typed in upper case. -/
def upperAttempt : AgentAttempt := startedAttempt upperIntentId
  "sha256:0cf70e0fd4ff618cf82dd546e4ac8161ba450e6443f27de41fdeb749c6760cd8"

def upperAttemptObject : CanonicalObject :=
  cachedObject .reference "agent.attempt" upperAttempt.toValue

theorem upperAttemptObject_objectId : upperAttemptObject.objectId =
    "sha256:e619775a94dc31b4d487b5de55903faedb9859eea90552392e8d44a355fc03e0" := by
  rw [upperAttemptObject, objectId_cachedObject]
  decide +kernel

theorem upperCaseStart_filled : Filled .reference [upperAttemptObject, intentObject]
    (runAll .reference .empty (exampleStart upperIntentId)) := by
  have hdigits : objectHex upperIntentId = objectHex exampleIntentId := by decide +kernel
  have hid : computeAttemptId .reference (exampleInput upperIntentId) "b" =
      upperAttempt.attemptId := by
    rw [computeAttemptId, stableJsonHash_eq]
    decide +kernel
  have hnew : upperAttemptObject.objectId ≠ exampleIntentId := by
    rw [upperAttemptObject_objectId]
    decide
  obtain ⟨t, hends, ht⟩ := exampleStart_ends hdigits hid hnew
  rw [hends.run]
  exact ht

/-- In upper case the attempt is stored, and names an intent that is not. -/
theorem upperCaseStart_breaks_provenance :
    ¬ Provenance .reference (runAll .reference .empty (exampleStart upperIntentId)) := by
  intro h
  have hfilled := upperCaseStart_filled
  have hX := readsBack_reference
  have hattempt := (hfilled.holds hX).mpr ⟨upperAttemptObject, by simp, rfl, rfl, rfl⟩
  obtain ⟨attempt, hread, hintent⟩ := h _ _ _ hattempt
  have hbody : canonicalJson upperAttemptObject.body = canonicalJson upperAttempt.toValue :=
    canonicalJson_idem _
  rw [hbody, AgentAttempt.readBack] at hread
  obtain rfl := Option.some.inj hread
  obtain ⟨body, hbody⟩ := hintent.holds
  obtain ⟨o, ho, hk, hid, -⟩ := (hfilled.holds hX).mp hbody
  simp only [List.mem_cons, List.not_mem_nil, or_false] at ho
  rcases ho with rfl | rfl
  · exact absurd hk (by decide)
  · rw [intentObject_objectId] at hid
    exact absurd hid (by decide)

end RickydataGit.Cli
