/-
  The graph of a scan is closed.

  `ProvenanceChain` : what the store has of an attempt names the id of a stored intent, and
  what it has of a run, a change or a patch names a stored attempt. Every loop finds all
  records of its kind, as a read finds them (`EvidenceOf`), so the references between the
  records of a scan are those of the store (`EvidenceOf.linked`).

  Then the edges join nodes of the scan: those between records by the chain, all others
  because the loop that pushes the edge pushes its end or has pushed it before
  (`graphPieces_closed`).
-/
import RickydataGit.Cli.GraphScan
import RickydataGit.Cli.Selection

namespace RickydataGit.Cli

open RickydataGit.Lib RickydataGit.Core RickydataGit.Git

/-! ## Edges between pieces -/

/-- The edges join ids of the set. -/
abbrev Joins (S : String → Prop) (net : GraphNet) : Prop :=
  net.Within GraphEdge.fromId GraphEdge.toId S

/-- The ids of the nodes belong to the set. -/
def NodesIn (S : String → Prop) (net : GraphNet) : Prop :=
  ∀ n ∈ net.nodes, S n.id

section Pieces

variable {S : String → Prop} {net net' : GraphNet}

theorem nodesIn_append : NodesIn S (net ++ net') ↔ NodesIn S net ∧ NodesIn S net' := by
  rw [NodesIn, Net.nodes_append, List.forall_mem_append]
  exact Iff.rfl

theorem nodesIn_flatMap {α : Type} {l : List α} {f : α → GraphNet} :
    NodesIn S (.flatMap l f) ↔ ∀ a ∈ l, NodesIn S (f a) := by
  simp only [NodesIn, Net.nodes_flatMap, List.mem_flatMap]
  exact ⟨fun h a ha n hn => h n ⟨a, ha, hn⟩, fun h n ⟨a, ha, hn⟩ => h a ha n hn⟩

/-- The symbols of a file hang on its node. -/
theorem rustSymbols_joins {relPath repoNodeId fileId : String} (hfile : S fileId)
    (lines : List String) {isTest : Bool} {lineNumber : Nat}
    (hin : NodesIn S (rustSymbols relPath repoNodeId fileId isTest lineNumber lines)) :
    Joins S (rustSymbols relPath repoNodeId fileId isTest lineNumber lines) := by
  induction lines generalizing isTest lineNumber with
  | nil => exact fun e he => nomatch he
  | cons line lines ih =>
    rw [rustSymbols] at hin ⊢
    split at hin
    · next htest =>
        rw [if_pos htest]
        exact ih hin
    · next htest =>
        rw [if_neg htest]
        split at hin
        · next name hname =>
            obtain ⟨hsymbol, hrest⟩ := nodesIn_append.mp hin
            have hid := hsymbol _ List.mem_cons_self
            refine Net.within_append (fun e he => ?_) (ih hrest)
            rcases List.mem_cons.mp he with rfl | he
            · exact ⟨hfile, hid⟩
            · obtain ⟨-, he⟩ := List.mem_ite_nil_right.mp he
              obtain rfl := List.mem_singleton.mp he
              exact ⟨hfile, hid⟩
        · split at hin
          · next kind name hkind =>
              obtain ⟨hsymbol, hrest⟩ := nodesIn_append.mp hin
              exact Net.within_append
                (Net.within_singleton hfile (hsymbol _ List.mem_cons_self)) (ih hrest)
          · exact ih hin

theorem sourceFileNets_joins {X : Crates} {repoNodeId commit repo : String} (hrepo : S repoNodeId)
    {files : List SourceFile} (hnet : sourceFileNets X repoNodeId commit repo files = .ok net)
    (hin : NodesIn S net) : Joins S net := by
  induction files generalizing net with
  | nil =>
    obtain rfl := Except.ok.inj hnet
    exact fun e he => nomatch he
  | cons file files ih =>
    rw [sourceFileNets] at hnet
    rcases htext : file.text with _ | content
    · rw [htext] at hnet
      cases hnet
    · rw [htext] at hnet
      rcases hrest : sourceFileNets X repoNodeId commit repo files with e | rest
      · rw [hrest] at hnet
        cases hnet
      · rw [hrest] at hnet
        obtain rfl := Except.ok.inj hnet
        obtain ⟨hfile, hin⟩ := nodesIn_append.mp hin
        obtain ⟨hnode, hsymbols⟩ := nodesIn_append.mp hfile
        have hid := hnode _ List.mem_cons_self
        exact Net.within_append (Net.within_append (Net.within_singleton hrepo hid)
          (rustSymbols_joins hid _ hsymbols)) (ih hrest hin)

theorem codeStructureGraph_joins {X : Crates} {repoNodeId commit repo : String} {tree : SourceTree}
    (hrepo : S repoNodeId) (hnet : codeStructureGraph X repoNodeId commit repo tree = .ok net)
    (hin : NodesIn S net) : Joins S net := by
  rw [codeStructureGraph] at hnet
  rcases hfiles : collectRustSourceFiles tree with e | files
  · rw [hfiles] at hnet
    cases hnet
  · rw [hfiles] at hnet
    exact sourceFileNets_joins hrepo hnet hin

/-- The files of a record hang on its node, if there are any. -/
theorem touchedFiles_joins {repoNodeId commit nodeId version : String} {files : List String}
    (hnode : S nodeId)
    (hin : NodesIn S (.flatMap files (touchedFileNet repoNodeId commit nodeId version))) :
    Joins S (.flatMap files (touchedFileNet repoNodeId commit nodeId version)) :=
  Net.within_flatMap fun file hfile =>
    Net.within_singleton hnode (nodesIn_flatMap.mp hin file hfile _ List.mem_cons_self)

end Pieces

/-- The references between the records of a scan. -/
structure EvidenceLinked (evidence : GraphEvidence) : Prop where
  intents : ∀ entry ∈ evidence.attempts, ∃ intent ∈ evidence.intents, intent.1 = entry.2.intentId
  runs : ∀ entry ∈ evidence.runs,
    ∃ attempt ∈ evidence.attempts, attempt.2.attemptId = entry.2.attemptId
  changes : ∀ entry ∈ evidence.changes,
    ∃ attempt ∈ evidence.attempts, attempt.2.attemptId = entry.2.attemptId
  patches : ∀ entry ∈ evidence.patches,
    ∃ attempt ∈ evidence.attempts, attempt.2.attemptId = entry.2.attemptId

/-- What the loops push is closed, whatever the code structure adds to it. -/
theorem graphPieces_closed {repo repoId : String} {commit : Option String} {code : GraphNet}
    {evidence : GraphEvidence} (hlinked : EvidenceLinked evidence)
    (hcode : ∀ S : String → Prop, S (graphId "Repository" [repoId]) → NodesIn S code →
      Joins S code) :
    Net.Closed GraphEdge.fromId GraphEdge.toId GraphNode.id
      (graphPieces repo repoId commit code evidence) := by
  have hall : NodesIn (fun i => i ∈ (graphPieces repo repoId commit code evidence).nodes.map
      GraphNode.id) (graphPieces repo repoId commit code evidence) :=
    fun n hn => List.mem_map_of_mem hn
  rw [Net.Closed]
  generalize (fun i => i ∈ (graphPieces repo repoId commit code evidence).nodes.map
    GraphNode.id) = S at hall ⊢
  unfold graphPieces at hall ⊢
  simp only [nodesIn_append, nodesIn_flatMap] at hall
  obtain ⟨⟨⟨⟨⟨⟨⟨hrepository, hcommit⟩, hin⟩, hintents⟩, hattempts⟩, hruns⟩, hchanges⟩, hpatches⟩ :=
    hall
  have hrepo : S (graphId "Repository" [repoId]) := hrepository _ List.mem_cons_self
  -- the node of an attempt that a record names
  have hattempt : ∀ {attemptId}, (∃ attempt ∈ evidence.attempts, attempt.2.attemptId = attemptId) →
      S (graphId "RickydataAttempt" [graphId "Repository" [repoId], attemptId]) := by
    rintro _ ⟨attempt, hmem, rfl⟩
    exact hattempts attempt hmem _ List.mem_cons_self
  refine Net.within_append (Net.within_append (Net.within_append (Net.within_append
    (Net.within_append (Net.within_append (Net.within_append ?_ ?_) ?_) ?_) ?_) ?_) ?_) ?_
  · exact fun e he => nomatch he
  · rcases commit with _ | head
    · exact fun e he => nomatch he
    · exact Net.within_singleton hrepo (hcommit _ List.mem_cons_self)
  · exact hcode S hrepo hin
  · exact Net.within_flatMap fun entry he =>
      Net.within_singleton hrepo (hintents entry he _ List.mem_cons_self)
  · refine Net.within_flatMap fun entry he e hedge => ?_
    have hnode := hattempts entry he _ List.mem_cons_self
    rcases List.mem_cons.mp hedge with rfl | hedge
    · exact ⟨hrepo, hnode⟩
    · obtain rfl := List.mem_singleton.mp hedge
      obtain ⟨intent, hmem, hid⟩ := hlinked.intents entry he
      refine ⟨hnode, ?_⟩
      have hintent := hintents intent hmem _ List.mem_cons_self
      dsimp only [intentNet, graphNode] at hintent
      rwa [hid] at hintent
  · exact Net.within_flatMap fun entry he => Net.within_singleton (hattempt (hlinked.runs entry he))
      (hruns entry he _ List.mem_cons_self)
  · refine Net.within_flatMap fun entry he => ?_
    obtain ⟨hown, hfiles⟩ := nodesIn_append.mp (hchanges entry he)
    have hnode := hown _ List.mem_cons_self
    exact Net.within_append (Net.within_singleton (hattempt (hlinked.changes entry he)) hnode)
      (touchedFiles_joins hnode hfiles)
  · refine Net.within_flatMap fun entry he => ?_
    obtain ⟨hown, hfiles⟩ := nodesIn_append.mp (hpatches entry he)
    have hnode := hown _ List.mem_cons_self
    exact Net.within_append (Net.within_singleton (hattempt (hlinked.patches entry he)) hnode)
      (touchedFiles_joins hnode hfiles)

/-! ## What the store says -/

/-- What a read of the id finds, from the cache or from the reference. -/
def Says {α : Type} (X : Crates) (s : ObjectStore) (read : Value → Option α) (objectId : String)
    (record : α) : Prop :=
  ∃ hex bytes object, objectHex objectId = .ok hex ∧ content s hex = some bytes ∧
    readObjectBytes X bytes = .ok object ∧ read object.body = some record

/-- A record that the loops find: the id is listed, and a read finds the record. -/
def Shows {α : Type} (X : Crates) (s : ObjectStore) (kind : String) (read : Value → Option α)
    (objectId : String) (record : α) : Prop :=
  RefBackedOf X s kind objectId ∧ Says X s read objectId record

def ShowsAttempt (X : Crates) (s : ObjectStore) (attemptId : String) : Prop :=
  ∃ objectId attempt, Shows X s "agent.attempt" AgentAttempt.ofValue objectId attempt ∧
    attempt.attemptId = attemptId

/-- Attempts name stored intents; runs, changes and patches name stored attempts. -/
structure ProvenanceChain (X : Crates) (s : ObjectStore) : Prop where
  attempts : ∀ objectId attempt, Shows X s "agent.attempt" AgentAttempt.ofValue objectId attempt →
    RefBackedOf X s "agent.intent" attempt.intentId
  runs : ∀ objectId run, Shows X s "agent.run" AgentRun.ofValue objectId run →
    ShowsAttempt X s run.attemptId
  changes : ∀ objectId change, Shows X s "agent.change" ChangeEvidence.ofValue objectId change →
    ShowsAttempt X s change.attemptId
  patches : ∀ objectId patch, Shows X s "agent.patch" PreparedPatch.ofValue objectId patch →
    ShowsAttempt X s patch.attemptId

section Says

variable {α : Type} {X : Crates} {T : Tools} {s t : ObjectStore} {kind name objectId : String}
  {read : Value → Option α} {record record' : α}

theorem Says.same (hs : SameContent s t) :
    Says X t read objectId record ↔ Says X s read objectId record := by
  constructor
  · rintro ⟨hex, bytes, object, hhex, hc, hrest⟩
    exact ⟨hex, bytes, object, hhex, (hs.held hex (objectHex_length hhex)).symm.trans hc, hrest⟩
  · rintro ⟨hex, bytes, object, hhex, hc, hrest⟩
    exact ⟨hex, bytes, object, hhex, (hs.held hex (objectHex_length hhex)).trans hc, hrest⟩

theorem Shows.same (hs : SameContent s t) :
    Shows X t kind read objectId record ↔ Shows X s kind read objectId record :=
  and_congr (RefBackedOf.same hs) (Says.same hs)

theorem Says.inj (h : Says X s read objectId record) (h' : Says X s read objectId record') :
    record = record' := by
  obtain ⟨hex, bytes, object, hhex, hc, hparse, hread⟩ := h
  obtain ⟨hex', bytes', object', hhex', hc', hparse', hread'⟩ := h'
  obtain rfl := Except.ok.inj (hhex.symm.trans hhex')
  obtain rfl := Option.some.inj (hc.symm.trans hc')
  obtain rfl := Except.ok.inj (hparse.symm.trans hparse')
  exact Option.some.inj (hread.symm.trans hread')

theorem readBodies_tell {entries : List ObjectListEntry} {listed : List (Listed α)}
    (hrun : (readBodies T name read entries).run exec s = (.ok listed, t)) :
    listed.map Listed.objectId = entries.map ObjectListEntry.objectId ∧
      ∀ e ∈ listed, Says T.toCrates s read e.objectId e.body := by
  induction entries generalizing s t listed with
  | nil =>
    obtain rfl := Except.ok.inj (congrArg Prod.fst hrun)
    exact ⟨rfl, fun e he => nomatch he⟩
  | cons entry rest ih =>
    obtain ⟨report, s₁, hread, hrun⟩ := Prog.run_bind_inv exec hrun
    rw [Prog.run_mapFail_ok_iff] at hread
    obtain ⟨body, hbody, hrun⟩ := Prog.run_bind_ofExcept_inv exec hrun
    obtain ⟨more, s₂, hmore, hrun⟩ := Prog.run_bind_inv exec hrun
    obtain rfl := Except.ok.inj (congrArg Prod.fst hrun)
    have hsame := (readCachedObject_keeps _ _).of_run hread
    obtain ⟨hids, htold⟩ := ih hmore
    obtain ⟨hex, bytes, hhex, hc, hparse⟩ := object_of_read hread
    refine ⟨by rw [List.map_cons, List.map_cons, hids], List.forall_mem_cons.mpr ⟨?_, ?_⟩⟩
    · refine ⟨hex, bytes, report.object, hhex, hc, hparse, ?_⟩
      unfold bodyOf at hbody
      split at hbody
      · cases hbody
      · next record hrecord =>
          obtain rfl := Except.ok.inj hbody
          exact hrecord
    · exact fun e he => (Says.same hsame).mp (htold e he)

/-- A listing fails at the first blob that does not parse. -/
theorem parses_of_listEntries {kind : Option String} {refs : List (String × Bytes)}
    {entries : List ObjectListEntry} (h : listEntries X kind refs = .ok entries) :
    ∀ r ∈ refs, ∃ object, readObjectBytes X r.2 = .ok object := by
  induction refs generalizing entries with
  | nil => exact fun r hr => nomatch hr
  | cons r rest ih =>
    unfold listEntries at h
    rcases hobject : readObjectBytes X r.2 with e | object
    · rw [hobject] at h
      cases h
    rcases hrest : listEntries X kind rest with e | restEntries
    · rw [hobject, hrest] at h
      cases h
    exact List.forall_mem_cons.mpr ⟨⟨object, hobject⟩, ih hrest⟩

/-- The ids of a listing are those that some reference holds an object of. -/
theorem mem_listed_iff {entries : List ObjectListEntry}
    (h : (listRefBackedObjects X (some kind)).run exec s = (.ok entries, t)) :
    objectId ∈ entries.map ObjectListEntry.objectId ↔ RefBackedOf X s kind objectId := by
  rw [listRefBackedObjects_run] at h
  rcases hfound : listEntries X (some kind) (objectRefs s) with e | found
  · rw [hfound] at h
    cases congrArg Prod.fst h
  · rw [hfound] at h
    obtain rfl := Except.ok.inj (congrArg Prod.fst h)
    obtain ⟨found', hfound', hmem⟩ := listEntries_ok (some kind) (parses_of_listEntries hfound)
    obtain rfl := Except.ok.inj (hfound.symm.trans hfound')
    rw [List.mem_map]
    simp only [List.mem_mergeSort, hmem]
    constructor
    · rintro ⟨_, ⟨r, hr, o, hparse, hk, rfl⟩, rfl⟩
      exact ⟨r, hr, o, hparse, hk kind rfl, rfl⟩
    · rintro ⟨r, hr, o, hparse, hk, rfl⟩
      exact ⟨_, ⟨r, hr, o, hparse, fun expected he => hk.trans (Option.some.inj he), rfl⟩, rfl⟩

/-- The lists have all ids of their kind, and what a read finds under them. -/
structure ListsAll (X : Crates) (s : ObjectStore) (kind : String) (read : Value → Option α)
    (listed : List (String × α)) : Prop where
  shows : ∀ entry ∈ listed, Shows X s kind read entry.1 entry.2
  all : ∀ objectId, RefBackedOf X s kind objectId → ∃ entry ∈ listed, entry.1 = objectId

theorem ListsAll.of_same {listed : List (String × α)} (hs : SameContent s t)
    (h : ListsAll X t kind read listed) : ListsAll X s kind read listed where
  shows entry he := (Shows.same hs).mp (h.shows entry he)
  all objectId hid := h.all objectId ((RefBackedOf.same hs).mpr hid)

theorem ListsAll.perm {listed listed' : List (String × α)} (hp : listed.Perm listed')
    (h : ListsAll X s kind read listed) : ListsAll X s kind read listed' where
  shows entry he := h.shows entry (hp.mem_iff.mpr he)
  all objectId hid := by
    obtain ⟨entry, he, rfl⟩ := h.all objectId hid
    exact ⟨entry, hp.mem_iff.mp he, rfl⟩

theorem listBodies_all {listed : List (Listed α)}
    (hrun : (listBodies T kind name read).run exec s = (.ok listed, t)) :
    ListsAll T.toCrates s kind read (listed.map Listed.view) ∧ SameContent s t := by
  have hkeeps := (listBodies_keeps T kind name read).of_run hrun
  obtain ⟨entries, s₁, hlist, hrun⟩ := Prog.run_bind_inv exec hrun
  rw [Prog.run_mapFail_ok_iff] at hlist
  have hsame := (listRefBackedObjects_keeps _ _).of_run hlist
  obtain ⟨hids, htold⟩ := readBodies_tell hrun
  have hmem : ∀ objectId, objectId ∈ listed.map Listed.objectId ↔
      RefBackedOf T.toCrates s kind objectId := fun objectId => by rw [hids, mem_listed_iff hlist]
  refine ⟨⟨fun entry he => ?_, fun objectId hid => ?_⟩, hkeeps⟩
  · obtain ⟨e, hlisted, rfl⟩ := List.mem_map.mp he
    exact ⟨(hmem _).mp (List.mem_map_of_mem hlisted), (Says.same hsame).mp (htold e hlisted)⟩
  · obtain ⟨e, he, rfl⟩ := List.mem_map.mp ((hmem objectId).mpr hid)
    exact ⟨e.view, List.mem_map_of_mem he, rfl⟩

/-- The list commands sort what is listed. -/
theorem sortedBodies_all {le : Listed α → Listed α → Bool} {listed : List (Listed α)}
    (hrun : (listBodies T kind name read >>= fun found => pure (found.mergeSort le)).run exec s =
      (.ok listed, t)) :
    ListsAll T.toCrates s kind read (listed.map Listed.view) ∧ SameContent s t := by
  obtain ⟨found, s₁, hfound, hrun⟩ := Prog.run_bind_inv exec hrun
  obtain ⟨hok, rfl⟩ := Prod.mk.inj hrun
  obtain rfl := Except.ok.inj hok
  obtain ⟨hall, hsame⟩ := listBodies_all hfound
  exact ⟨hall.perm ((List.mergeSort_perm found le).symm.map _), hsame⟩

end Says

/-- The evidence of a store: all there is of each kind. -/
structure EvidenceOf (X : Crates) (s : ObjectStore) (evidence : GraphEvidence) : Prop where
  intents : ListsAll X s "agent.intent" WorkIntent.ofValue evidence.intents
  attempts : ListsAll X s "agent.attempt" AgentAttempt.ofValue evidence.attempts
  runs : ListsAll X s "agent.run" AgentRun.ofValue evidence.runs
  changes : ListsAll X s "agent.change" ChangeEvidence.ofValue evidence.changes
  patches : ListsAll X s "agent.patch" PreparedPatch.ofValue evidence.patches

theorem graphEvidence_of {T : Tools} {s t : ObjectStore} {evidence : GraphEvidence}
    (hrun : (graphEvidence T).run exec s = (.ok evidence, t)) :
    EvidenceOf T.toCrates s evidence := by
  obtain ⟨intents, s₁, h₁, hrun⟩ := Prog.run_bind_inv exec hrun
  obtain ⟨attempts, s₂, h₂, hrun⟩ := Prog.run_bind_inv exec hrun
  obtain ⟨runs, s₃, h₃, hrun⟩ := Prog.run_bind_inv exec hrun
  obtain ⟨changes, s₄, h₄, hrun⟩ := Prog.run_bind_inv exec hrun
  obtain ⟨patches, s₅, h₅, hrun⟩ := Prog.run_bind_inv exec hrun
  obtain rfl := Except.ok.inj (congrArg Prod.fst hrun)
  obtain ⟨hintents, hs₁⟩ := listBodies_all h₁
  obtain ⟨hattempts, hs₂⟩ := sortedBodies_all h₂
  obtain ⟨hruns, hs₃⟩ := sortedBodies_all h₃
  obtain ⟨hchanges, hs₄⟩ := sortedBodies_all h₄
  obtain ⟨hpatches, -⟩ := sortedBodies_all h₅
  exact {
    intents := hintents
    attempts := hattempts.of_same hs₁
    runs := hruns.of_same (hs₁.trans hs₂)
    changes := hchanges.of_same ((hs₁.trans hs₂).trans hs₃)
    patches := hpatches.of_same (((hs₁.trans hs₂).trans hs₃).trans hs₄) }

/-- The chain of the store is the chain of its evidence. -/
theorem EvidenceOf.linked {X : Crates} {s : ObjectStore} {evidence : GraphEvidence}
    (h : EvidenceOf X s evidence) (hchain : ProvenanceChain X s) : EvidenceLinked evidence := by
  have hattempt : ∀ {attemptId}, ShowsAttempt X s attemptId →
      ∃ attempt ∈ evidence.attempts, attempt.2.attemptId = attemptId := by
    rintro _ ⟨objectId, attempt, ⟨hbacked, htold⟩, rfl⟩
    obtain ⟨entry, he, rfl⟩ := h.attempts.all objectId hbacked
    obtain ⟨-, htold'⟩ := h.attempts.shows entry he
    exact ⟨entry, he, congrArg AgentAttempt.attemptId (htold'.inj htold)⟩
  refine ⟨fun entry he => ?_, fun entry he => ?_, fun entry he => ?_, fun entry he => ?_⟩
  · exact h.intents.all _ (hchain.attempts _ _ (h.attempts.shows entry he))
  · exact hattempt (hchain.runs _ _ (h.runs.shows entry he))
  · exact hattempt (hchain.changes _ _ (h.changes.shows entry he))
  · exact hattempt (hchain.patches _ _ (h.patches.shows entry he))

end RickydataGit.Cli
