/-
  What a graph scan reports, in which order it finds things and what is cached.

  Two stores of valid objects with the same ids give the same evidence
  (`SameObjects.evidence`): the lists are in the order of the ids, and two copies of one
  object say the same when both can be read, however their bodies are spelled. Directories
  may be listed in any order, for the files are sorted by paths (`collectRustSourceFiles_perm`).

  `graph_scan_closed_and_canonical`: every report has its nodes and edges in the order of their
  ids, each id once, and is closed. Two reports on one repository path and commit, with the
  same source files and the same valid objects, have the same nodes, edges and hash, in
  whatever bytes and whatever is cached. A cache file with another object changes the graph
  (`foreignCache_changes_graph`): reads do not check it.
-/
import RickydataGit.Cli.GraphClosed
import RickydataGit.Cli.Stable
import RickydataGit.Cli.Provenance

namespace RickydataGit.Cli

open RickydataGit.Lib RickydataGit.Core RickydataGit.Git

/-! ## The same objects -/

def graphKinds : List String :=
  ["agent.intent", "agent.attempt", "agent.run", "agent.change", "agent.patch"]

/-- Both stores have valid objects only, and those of the graph have the same ids. -/
structure SameObjects (X : Crates) (s t : ObjectStore) : Prop where
  left : AllValid X s
  right : AllValid X t
  sha : NoCollisions X s t
  ids : ∀ kind ∈ graphKinds, ∀ objectId, RefBackedOf X s kind objectId ↔ RefBackedOf X t kind objectId

section Agree

variable {α : Type} {X : Crates} {T : Tools} {s s₁ t t₁ u u' : ObjectStore}
  {kind name objectId : String} {read : Value → Option α} {record record' : α}

/-- Where a sound object is stored it is the one that is read. -/
theorem Says.of_sound {o : CanonicalObject} (h : Says X s read objectId record)
    (ho : Sound X objectId o s) : read o.body = some record := by
  obtain ⟨hex, bytes, object, hhex, hc, hparse, hread⟩ := h
  obtain ⟨hex', bytes', hhex', hc', hparse'⟩ := ho.found
  obtain rfl := Except.ok.inj (hhex.symm.trans hhex')
  obtain rfl := Option.some.inj (hc.symm.trans hc')
  obtain rfl := Except.ok.inj (hparse.symm.trans hparse')
  exact hread

/-- Two stores of valid objects say the same under one id. -/
theorem Says.agree (hread : CanonStable read) (hs : AllValid X s) (ht : AllValid X t)
    (hsha : NoCollisions X s t) (hid : RefBackedOf X s kind objectId)
    (hid' : RefBackedOf X t kind objectId) (h : Says X s read objectId record)
    (h' : Says X t read objectId record') : record = record' := by
  obtain ⟨o, hsound, hcopy, -, ho⟩ := hs.sound hsha ht hid
  obtain ⟨o', hsound', hcopy', -, ho'⟩ := ht.sound
    (fun p p' hp hp' => hsha p p' hp.symm hp'.symm) hs hid'
  have hbody := (hsha.agree hs ht (.inl hcopy) (.inr hcopy') (ho.trans ho'.symm)).2
  exact hread.agree hbody (h.of_sound hsound) (h'.of_sound hsound')

/-- Two complete lists in the order of their ids are equal. -/
theorem SameObjects.lists (h : SameObjects X s t) (hread : CanonStable read)
    (hkind : kind ∈ graphKinds) {listed listed' : List (String × α)}
    (hall : ListsAll X s kind read listed) (hall' : ListsAll X t kind read listed')
    (hids : listed.Pairwise fun a b => a.1 < b.1)
    (hids' : listed'.Pairwise fun a b => a.1 < b.1) : listed = listed' := by
  refine @eq_of_pairwise_key _ _ _ Prod.fst _ _ hids hids' fun entry => ?_
  constructor
  · intro he
    obtain ⟨hbacked, htold⟩ := hall.shows entry he
    obtain ⟨entry', he', hid⟩ := hall'.all entry.1 ((h.ids kind hkind _).mp hbacked)
    obtain ⟨hbacked', htold'⟩ := hall'.shows entry' he'
    rw [hid] at hbacked' htold'
    have hbody := htold.agree hread h.left h.right h.sha hbacked hbacked' htold'
    obtain rfl : entry = entry' := Prod.ext hid.symm hbody
    exact he'
  · intro he'
    obtain ⟨hbacked', htold'⟩ := hall'.shows entry he'
    obtain ⟨entry', he, hid⟩ := hall.all entry.1 ((h.ids kind hkind _).mpr hbacked')
    obtain ⟨hbacked, htold⟩ := hall.shows entry' he
    rw [hid] at hbacked htold
    have hbody := htold.agree hread h.left h.right h.sha hbacked hbacked' htold'
    obtain rfl : entry' = entry := Prod.ext hid hbody
    exact he

theorem listBodies_increasing (hs : AllValid T.toCrates s) {listed : List (Listed α)}
    (hrun : (listBodies T kind name read).run exec s = (.ok listed, t)) :
    (listed.map Listed.view).Pairwise fun a b => a.1 < b.1 := by
  obtain ⟨entries, s₁, hlist, hbodies⟩ := Prog.run_bind_inv exec hrun
  rw [Prog.run_mapFail_ok_iff] at hlist
  obtain ⟨entries', hlist', hsorted, -⟩ := hs.list kind
  obtain ⟨hok, -⟩ := Prod.mk.inj (hlist.symm.trans hlist')
  obtain rfl := Except.ok.inj hok
  obtain ⟨hids, -⟩ := readBodies_tell hbodies
  rw [← hids, List.pairwise_map] at hsorted
  exact List.pairwise_map.mpr hsorted

/-- A loop over the records of a kind finds the same in both stores. -/
theorem SameObjects.listBodies (h : SameObjects T.toCrates s t) (hs : SameContent s s₁)
    (ht : SameContent t t₁) (hread : CanonStable read) (hkind : kind ∈ graphKinds)
    {listed listed' : List (Listed α)}
    (hrun : (listBodies T kind name read).run exec s₁ = (.ok listed, u))
    (hrun' : (Cli.listBodies T kind name read).run exec t₁ = (.ok listed', u')) :
    listed.map Listed.view = listed'.map Listed.view :=
  h.lists hread hkind ((listBodies_all hrun).1.of_same hs) ((listBodies_all hrun').1.of_same ht)
    (listBodies_increasing (h.left.same hs) hrun) (listBodies_increasing (h.right.same ht) hrun')

/-- Sorted by a key, ties in the order of the ids. -/
theorem SameObjects.sortedBodies (h : SameObjects T.toCrates s t) (hs : SameContent s s₁)
    (ht : SameContent t t₁) (hread : CanonStable read) (hkind : kind ∈ graphKinds)
    {key : α → String} {listed listed' : List (Listed α)}
    (hrun : (Cli.listBodies T kind name read >>= fun found => pure (found.mergeSort
      fun left right => decide (key left.body ≤ key right.body))).run exec s₁ = (.ok listed, u))
    (hrun' : (Cli.listBodies T kind name read >>= fun found => pure (found.mergeSort
      fun left right => decide (key left.body ≤ key right.body))).run exec t₁ =
        (.ok listed', u')) :
    listed.map Listed.view = listed'.map Listed.view := by
  obtain ⟨found, s₂, hfound, hrun⟩ := Prog.run_bind_inv exec hrun
  obtain ⟨found', t₂, hfound', hrun'⟩ := Prog.run_bind_inv exec hrun'
  obtain rfl := Except.ok.inj (congrArg Prod.fst hrun)
  obtain rfl := Except.ok.inj (congrArg Prod.fst hrun')
  have hviews : ∀ l : List (Listed α), (l.mergeSort fun left right =>
      decide (key left.body ≤ key right.body)).map Listed.view = (l.map Listed.view).mergeSort
        fun left right => decide (key left.2 ≤ key right.2) :=
    fun l => List.map_mergeSort fun _ _ _ _ => rfl
  rw [hviews, hviews, h.listBodies hs ht hread hkind hfound hfound']

theorem SameObjects.evidence (h : SameObjects T.toCrates s t) {evidence evidence' : GraphEvidence}
    (hrun : (graphEvidence T).run exec s = (.ok evidence, u))
    (hrun' : (graphEvidence T).run exec t = (.ok evidence', u')) : evidence = evidence' := by
  obtain ⟨intents, s₁, h₁, hrun⟩ := Prog.run_bind_inv exec hrun
  obtain ⟨attempts, s₂, h₂, hrun⟩ := Prog.run_bind_inv exec hrun
  obtain ⟨runs, s₃, h₃, hrun⟩ := Prog.run_bind_inv exec hrun
  obtain ⟨changes, s₄, h₄, hrun⟩ := Prog.run_bind_inv exec hrun
  obtain ⟨patches, s₅, h₅, hrun⟩ := Prog.run_bind_inv exec hrun
  obtain rfl := Except.ok.inj (congrArg Prod.fst hrun)
  obtain ⟨intents', t₁, h₁', hrun'⟩ := Prog.run_bind_inv exec hrun'
  obtain ⟨attempts', t₂, h₂', hrun'⟩ := Prog.run_bind_inv exec hrun'
  obtain ⟨runs', t₃, h₃', hrun'⟩ := Prog.run_bind_inv exec hrun'
  obtain ⟨changes', t₄, h₄', hrun'⟩ := Prog.run_bind_inv exec hrun'
  obtain ⟨patches', t₅, h₅', hrun'⟩ := Prog.run_bind_inv exec hrun'
  obtain rfl := Except.ok.inj (congrArg Prod.fst hrun')
  have hs₁ := (listBodies_all h₁).2
  have ht₁ := (listBodies_all h₁').2
  have hs₂ := hs₁.trans (sortedBodies_all h₂).2
  have ht₂ := ht₁.trans (sortedBodies_all h₂').2
  have hs₃ := hs₂.trans (sortedBodies_all h₃).2
  have ht₃ := ht₂.trans (sortedBodies_all h₃').2
  have hs₄ := hs₃.trans (sortedBodies_all h₄).2
  have ht₄ := ht₃.trans (sortedBodies_all h₄').2
  rw [h.listBodies (.refl s) (.refl t) WorkIntent.ofValue_stable (by decide) h₁ h₁',
    h.sortedBodies hs₁ ht₁ AgentAttempt.ofValue_stable (by decide) h₂ h₂',
    h.sortedBodies hs₂ ht₂ AgentRun.ofValue_stable (by decide) h₃ h₃',
    h.sortedBodies hs₃ ht₃ ChangeEvidence.ofValue_stable (by decide) h₄ h₄',
    h.sortedBodies hs₄ ht₄ PreparedPatch.ofValue_stable (by decide) h₅ h₅']

end Agree

/-! ## The same files -/

section Sources

variable {tree : SourceTree} {dir : List Bytes} {files : List SourceFile}

/-- The files of a directory lie below its names. -/
theorem visitSources_path (h : visitSources dir tree = .ok files) :
    ∀ file ∈ files, ∃ name ∈ tree.names, ∃ below, file.path = dir ++ name :: below := by
  induction tree generalizing dir files with
  | done =>
    obtain rfl := Except.ok.inj h
    exact fun file hfile => nomatch hfile
  | failed error => cases h
  | file name text rest ih =>
    rw [visitSources] at h
    rcases hrest : visitSources dir rest with e | restFiles
    · rw [hrest] at h
      cases h
    · rw [hrest] at h
      have hbelow : ∀ file ∈ restFiles, ∃ n ∈ name :: rest.names, ∃ below,
          file.path = dir ++ n :: below := fun file hfile => by
        obtain ⟨n, hn, hpath⟩ := ih hrest file hfile
        exact ⟨n, List.mem_cons_of_mem _ hn, hpath⟩
      dsimp only [bind, Except.bind] at h
      split at h
      · obtain rfl := Except.ok.inj h
        exact List.forall_mem_cons.mpr ⟨⟨name, List.mem_cons_self, [], rfl⟩, hbelow⟩
      · obtain rfl := Except.ok.inj h
        exact hbelow
  | directory name entries rest ihEntries ih =>
    rw [visitSources] at h
    split at h
    · intro file hfile
      obtain ⟨n, hn, hpath⟩ := ih h file hfile
      exact ⟨n, List.mem_cons_of_mem _ hn, hpath⟩
    · rcases hinside : visitSources (dir ++ [name]) entries with e | inside
      · rw [hinside] at h
        cases h
      rcases hrest : visitSources dir rest with e | restFiles
      · rw [hinside, hrest] at h
        cases h
      rw [hinside, hrest] at h
      obtain rfl := Except.ok.inj h
      refine List.forall_mem_append.mpr ⟨fun file hfile => ?_, fun file hfile => ?_⟩
      · obtain ⟨n, -, below, hpath⟩ := ihEntries hinside file hfile
        exact ⟨name, List.mem_cons_self, n :: below, by rw [hpath, List.append_assoc]; rfl⟩
      · obtain ⟨n, hn, hpath⟩ := ih hrest file hfile
        exact ⟨n, List.mem_cons_of_mem _ hn, hpath⟩
  | other name rest ih =>
    intro file hfile
    obtain ⟨n, hn, hpath⟩ := ih h file hfile
    exact ⟨n, List.mem_cons_of_mem _ hn, hpath⟩

/-- No file is visited twice. -/
theorem visitSources_nodup (hd : tree.Distinct) (h : visitSources dir tree = .ok files) :
    (files.map SourceFile.path).Nodup := by
  induction tree generalizing dir files with
  | done =>
    obtain rfl := Except.ok.inj h
    exact List.nodup_nil
  | failed error => cases h
  | file name text rest ih =>
    rw [visitSources] at h
    rcases hrest : visitSources dir rest with e | restFiles
    · rw [hrest] at h
      cases h
    · rw [hrest] at h
      dsimp only [bind, Except.bind] at h
      split at h
      · obtain rfl := Except.ok.inj h
        refine List.nodup_cons.mpr ⟨fun hmem => ?_, ih hd.2 hrest⟩
        obtain ⟨file, hfile, hpath⟩ := List.mem_map.mp hmem
        obtain ⟨n, hn, below, hbelow⟩ := visitSources_path hrest file hfile
        rw [hpath] at hbelow
        obtain ⟨rfl, -⟩ := List.cons.inj (List.append_cancel_left hbelow)
        exact hd.1 hn
      · obtain rfl := Except.ok.inj h
        exact ih hd.2 hrest
  | directory name entries rest ihEntries ih =>
    rw [visitSources] at h
    split at h
    · exact ih hd.2.2 h
    · rcases hinside : visitSources (dir ++ [name]) entries with e | inside
      · rw [hinside] at h
        cases h
      rcases hrest : visitSources dir rest with e | restFiles
      · rw [hinside, hrest] at h
        cases h
      rw [hinside, hrest] at h
      obtain rfl := Except.ok.inj h
      rw [List.map_append, List.nodup_append]
      refine ⟨ihEntries hd.2.1 hinside, ih hd.2.2 hrest, fun path hpath path' hpath' heq => ?_⟩
      obtain ⟨file, hfile, rfl⟩ := List.mem_map.mp hpath
      obtain ⟨file', hfile', rfl⟩ := List.mem_map.mp hpath'
      obtain ⟨m, -, below, hbelow⟩ := visitSources_path hinside file hfile
      obtain ⟨n, hn, below', hbelow'⟩ := visitSources_path hrest file' hfile'
      rw [heq, hbelow', List.append_assoc] at hbelow
      obtain ⟨rfl, -⟩ := List.cons.inj (List.append_cancel_left hbelow)
      exact hd.1 hn
  | other name rest ih => exact ih hd.2 h

theorem key_injective : Function.Injective fun path : List Bytes => path.map (List.map UInt8.toNat) :=
  List.map_injective_iff.mpr (List.map_injective_iff.mpr fun _ _ h => UInt8.toNat_inj.mp h)

/-- The order in which directories are listed does not matter. -/
theorem collectRustSourceFiles_perm {tree' : SourceTree} {files' : List SourceFile}
    (hd : tree.Distinct) (h : visitSources [] tree = .ok files)
    (h' : visitSources [] tree' = .ok files') (hp : files.Perm files') :
    collectRustSourceFiles tree = collectRustSourceFiles tree' := by
  have hnodup : (files.map SourceFile.key).Nodup := by
    have hkeys : files.map SourceFile.key =
        (files.map SourceFile.path).map fun path => path.map (List.map UInt8.toNat) := by
      rw [List.map_map]
      rfl
    rw [hkeys]
    exact (visitSources_nodup hd h).map key_injective
  rw [collectRustSourceFiles, collectRustSourceFiles, h, h']
  exact congrArg Except.ok (mergeSort_key_congr hnodup hp)

end Sources

/-! ## Reports -/

/-- The nodes and edges are in the order of their ids, each id once, and the ends of every
    edge are nodes. -/
structure ClosedReport (report : GraphScanReport) : Prop where
  nodes : report.nodes.Pairwise fun a b => a.id < b.id
  edges : report.edges.Pairwise fun a b => a.id < b.id
  ends : ∀ e ∈ report.edges,
    (∃ n ∈ report.nodes, n.id = e.fromId) ∧ ∃ n ∈ report.nodes, n.id = e.toId

/-- Two scans of one repository path at one commit, with the same source files. -/
structure SameScan (includeCodeStructure : Bool) (place place' : GraphPlace)
    (commit commit' : Option String) : Prop where
  repo : place.repo = place'.repo
  repoId : place.repoId = place'.repoId
  commit : ∀ head head', place.inspection = .ok head → place'.inspection = .ok head' →
    commit.or head = commit'.or head'
  files : includeCodeStructure = true → ∀ files files', visitSources [] place.sources = .ok files →
    visitSources [] place'.sources = .ok files' → files.Perm files'

/-- The graph is the same. -/
structure SameGraph (report report' : GraphScanReport) : Prop where
  nodes : report.nodes = report'.nodes
  edges : report.edges = report'.edges
  graphHash : report.graphHash = report'.graphHash

/-- References that come in another order are listed in the same one. -/
def ListsInAnyOrder (X : Crates) (s : ObjectStore) : Prop :=
  ∀ kind refs, refs.Perm (objectRefs s) →
    (listEntries X (some kind) refs).map (fun entries => entries.mergeSort
      fun left right => decide (left.objectId ≤ right.objectId)) =
        ((listRefBackedObjects X (some kind)).run exec s).1

section Reports

variable {X : Crates} {T : Tools} {s t : ObjectStore} {place : GraphPlace} {commit : Option String}
  {includeCodeStructure : Bool} {report : GraphScanReport}

/-- How a report comes about. -/
theorem buildGraphScan_ok
    (hrun : (buildGraphScan T place commit includeCodeStructure).run exec s = (.ok report, t)) :
    ∃ head code evidence, place.inspection = .ok head ∧
      (if includeCodeStructure then codeStructureGraph T.toCrates
        (graphId "Repository" [place.repoId]) ((commit.or head).getD "unknown") place.repo
        place.sources else .ok .empty) = .ok code ∧
      (graphEvidence T).run exec s = (.ok evidence, t) ∧
      report = graphReport T.toCrates place.repo place.repoId (commit.or head)
        includeCodeStructure (dedupeGraph
          (graphPieces place.repo place.repoId (commit.or head) code evidence)) := by
  obtain ⟨head, hhead, hrun⟩ := Prog.run_bind_ofExcept_inv exec hrun
  obtain ⟨code, hcode, hrun⟩ := Prog.run_bind_ofExcept_inv exec hrun
  obtain ⟨evidence, s₁, hevidence, hrun⟩ := Prog.run_bind_inv exec hrun
  obtain ⟨hok, rfl⟩ := Prod.mk.inj hrun
  refine ⟨head, code, evidence, ?_, hcode, hevidence, (Except.ok.inj hok).symm⟩
  rcases hinspection : place.inspection with e | head'
  · rw [hinspection] at hhead
    cases hhead
  · rw [hinspection] at hhead
    exact congrArg Except.ok (Except.ok.inj hhead)

theorem buildGraphScan_closed (hchain : ProvenanceChain T.toCrates s)
    (hrun : (buildGraphScan T place commit includeCodeStructure).run exec s = (.ok report, t)) :
    ClosedReport report := by
  obtain ⟨head, code, evidence, -, hcode, hevidence, rfl⟩ := buildGraphScan_ok hrun
  have hlinked := (graphEvidence_of hevidence).linked hchain
  have hjoins : ∀ S : String → Prop, S (graphId "Repository" [place.repoId]) → NodesIn S code →
      Joins S code := by
    intro S hrepo hin
    split at hcode
    · exact codeStructureGraph_joins hrepo hcode hin
    · obtain rfl := Except.ok.inj hcode
      exact fun e he => nomatch he
  have hpieces : Net.Closed GraphEdge.fromId GraphEdge.toId GraphNode.id
      (graphPieces place.repo place.repoId (commit.or head) code evidence) :=
    graphPieces_closed hlinked hjoins
  have hclosed : Net.Closed GraphEdge.fromId GraphEdge.toId GraphNode.id (dedupeGraph
      (graphPieces place.repo place.repoId (commit.or head) code evidence)) := hpieces.tidy
  refine ⟨pairwise_firstByKey, pairwise_firstByKey, fun e he => ?_⟩
  obtain ⟨hfrom, hto⟩ := hclosed e he
  exact ⟨List.mem_map.mp hfrom, List.mem_map.mp hto⟩

theorem buildGraphScan_same {place' : GraphPlace} {commit' : Option String} {s' t' : ObjectStore}
    {report' : GraphScanReport} (hscan : SameScan includeCodeStructure place place' commit commit')
    (hobjects : SameObjects T.toCrates s s')
    (hrun : (buildGraphScan T place commit includeCodeStructure).run exec s = (.ok report, t))
    (hrun' : (buildGraphScan T place' commit' includeCodeStructure).run exec s' =
      (.ok report', t')) : SameGraph report report' := by
  obtain ⟨head, code, evidence, hhead, hcode, hevidence, rfl⟩ := buildGraphScan_ok hrun
  obtain ⟨head', code', evidence', hhead', hcode', hevidence', rfl⟩ := buildGraphScan_ok hrun'
  have hcommit := hscan.commit head head' hhead hhead'
  have hsame : code = code' := by
    rw [← hcommit, ← hscan.repo, ← hscan.repoId] at hcode'
    rcases includeCodeStructure with _ | _
    · exact Except.ok.inj (hcode.symm.trans hcode')
    · rw [if_pos rfl] at hcode hcode'
      have hfiles : collectRustSourceFiles place.sources =
          collectRustSourceFiles place'.sources := by
        rcases hvisit : visitSources [] place.sources with e | files
        · rw [codeStructureGraph, collectRustSourceFiles, hvisit] at hcode
          cases hcode
        rcases hvisit' : visitSources [] place'.sources with e | files'
        · rw [codeStructureGraph, collectRustSourceFiles, hvisit'] at hcode'
          cases hcode'
        exact collectRustSourceFiles_perm place.distinct hvisit hvisit'
          (hscan.files rfl files files' hvisit hvisit')
      rw [codeStructureGraph, ← hfiles] at hcode'
      exact Except.ok.inj (hcode.symm.trans hcode')
  have hnet : graphPieces place.repo place.repoId (commit.or head) code evidence =
      graphPieces place'.repo place'.repoId (commit'.or head') code' evidence' := by
    rw [hscan.repo, hscan.repoId, hcommit, hsame, hobjects.evidence hevidence hevidence']
  rw [hnet]
  exact ⟨rfl, rfl, rfl⟩

theorem AllValid.listsInAnyOrder (hs : AllValid X s) : ListsInAnyOrder X s := by
  intro kind refs hp
  have hparses : ∀ r ∈ refs, ∃ object, readObjectBytes X r.2 = .ok object := fun r hr => by
    obtain ⟨o, -, hparse, -⟩ := hs.refs r (hp.mem_iff.mp hr)
    exact ⟨o, hparse⟩
  obtain ⟨found, hfound, hmem⟩ := listEntries_ok (some kind) hparses
  obtain ⟨found', hfound', hmem'⟩ := listEntries_ok (some kind)
    fun r hr => hparses r (hp.mem_iff.mpr hr)
  obtain ⟨entries, hlist, hids, -⟩ := hs.list kind
  rw [listRefBackedObjects_run, hfound'] at hlist ⊢
  obtain rfl := Except.ok.inj (congrArg Prod.fst hlist)
  -- both lists have every reference once, and the ids are unique
  have hnodup : ∀ {refs' : List (String × Bytes)} {l : List ObjectListEntry},
      (refs'.map Prod.fst).Nodup → listEntries X (some kind) refs' = .ok l → l.Nodup :=
    fun hrefs hl => (hrefs.sublist (listEntries_sublist hl)).of_map _
  have hperm : found'.Perm found := by
    refine (List.perm_ext_iff_of_nodup (hnodup (objectRefs_nodup s) hfound')
      (hnodup ((hp.map _).nodup_iff.mpr (objectRefs_nodup s)) hfound)).mpr fun entry => ?_
    rw [hmem, hmem']
    simp only [hp.mem_iff]
  have hunique : (found'.map ObjectListEntry.objectId).Nodup :=
    ((List.mergeSort_perm found' _).map _).nodup_iff.mp (hids.imp fun {a b} hlt heq => by
      rw [heq] at hlt
      exact absurd hlt (lt_irrefl b))
  rw [hfound]
  exact congrArg Except.ok (mergeSort_key_congr hunique hperm).symm

end Reports

variable (T : Tools) (place : GraphPlace) (commit : Option String) (includeCodeStructure : Bool)

/-- Reports are closed and in order. Valid stores with the same objects give the same graph. -/
theorem graph_scan_closed_and_canonical {s t : ObjectStore} {report : GraphScanReport}
    (hchain : ProvenanceChain T.toCrates s)
    (hrun : (buildGraphScan T place commit includeCodeStructure).run exec s = (.ok report, t)) :
    ClosedReport report ∧ (AllValid T.toCrates s → ListsInAnyOrder T.toCrates s) ∧
      ∀ place' commit' s' report' t', SameScan includeCodeStructure place place' commit commit' →
        SameObjects T.toCrates s s' →
        (buildGraphScan T place' commit' includeCodeStructure).run exec s' = (.ok report', t') →
        SameGraph report report' :=
  ⟨buildGraphScan_closed hchain hrun, AllValid.listsInAnyOrder,
    fun _ _ _ _ _ hscan hobjects hrun' => buildGraphScan_same hscan hobjects hrun hrun'⟩

/-! ## A store with one intent -/

section OneIntent

variable {s s' : ObjectStore} {report : ObjectReadReport} {intent : WorkIntent}

def exampleIntentHex : List Char :=
  "48c0faafd5ceddf7093c65870061c55f7f96515e11f7f7f034da54415cd0abb2".toList

theorem objectHex_exampleIntentId : objectHex exampleIntentId = .ok exampleIntentHex := by
  decide

/-- The intent under its reference, and nothing cached. -/
def referencedIntent : ObjectStore :=
  ObjectStore.empty.writeRef (refNameOf exampleIntentHex)
    (canonicalObjectBytes .reference intentObject)

/-- A copy of another time in the cache. -/
def cachedIntent : ObjectStore :=
  referencedIntent.writeCache (cachePathOf exampleIntentHex)
    (canonicalObjectBytes .reference { intentObject with createdAtMs := 1 })

def otherIntent : WorkIntent := { exampleIntent with objective := "p" }

/-- Another intent in the cache, under the name of the first. -/
def foreignCache : ObjectStore :=
  referencedIntent.writeCache (cachePathOf exampleIntentHex)
    (canonicalObjectBytes .reference (cachedObject .reference "agent.intent" otherIntent.toValue))

theorem intentObject_valid : intentObject.Valid .reference := CanonicalObject.valid_new ..

theorem read_canonicalObjectBytes (o : CanonicalObject) :
    readObjectBytes .reference (canonicalObjectBytes .reference o) = .ok o.canonical :=
  readObjectBytes_canonicalObjectBytes readsBack_reference o

theorem objectHex_intentObject : objectHex intentObject.objectId = .ok exampleIntentHex := by
  rw [intentObject_objectId, objectHex_exampleIntentId]

theorem referencedIntent_valid : AllValid .reference referencedIntent :=
  (allValid_empty _).writeRef (read_canonicalObjectBytes _)
    (CanonicalObject.valid_canonical intentObject_valid) objectHex_intentObject

theorem cachedIntent_valid : AllValid .reference cachedIntent :=
  referencedIntent_valid.writeCache (read_canonicalObjectBytes _)
    (CanonicalObject.valid_canonical ⟨intentObject_valid.objectId, intentObject_valid.bodyHash⟩)
    objectHex_intentObject

/-- The references of these stores are that of the intent. -/
theorem refBackedOf_intent (hrefs : s.refs = referencedIntent.refs) {kind objectId : String} :
    RefBackedOf .reference s kind objectId ↔ kind = "agent.intent" ∧ objectId = exampleIntentId := by
  have hone := @refBackedOf_writeRef_empty .reference intentObject.canonical exampleIntentHex
    (canonicalObjectBytes .reference intentObject) (read_canonicalObjectBytes _) kind objectId
  rw [RefBackedOf, objectRefs, hrefs]
  refine hone.trans (and_congr eq_comm ?_)
  rw [← intentObject_objectId, eq_comm]
  rfl

/-- There are no records that could name anything. -/
theorem chain_of_intent (hrefs : s.refs = referencedIntent.refs) :
    ProvenanceChain .reference s where
  attempts _ _ h := absurd ((refBackedOf_intent hrefs).mp h.1).1 (by decide)
  runs _ _ h := absurd ((refBackedOf_intent hrefs).mp h.1).1 (by decide)
  changes _ _ h := absurd ((refBackedOf_intent hrefs).mp h.1).1 (by decide)
  patches _ _ h := absurd ((refBackedOf_intent hrefs).mp h.1).1 (by decide)

theorem list_of_intent (hrefs : s.refs = referencedIntent.refs) (kind : String) :
    ∃ entries, (listRefBackedObjects Tools.reference.toCrates (some kind)).run exec s =
        (.ok entries, s) ∧
      entries.map ObjectListEntry.objectId =
        if kind = "agent.intent" then [exampleIntentId] else [] := by
  obtain ⟨entries, hlist, hsorted, hmem⟩ := referencedIntent_valid.list kind
  refine ⟨entries, ?_, ?_⟩
  · rw [listRefBackedObjects_run] at hlist ⊢
    have hok := congrArg Prod.fst hlist
    rw [objectRefs, ← hrefs, ← objectRefs] at hok
    exact congrArg (·, s) hok
  · refine hsorted.eq_of_mem_iff ?_ fun id => ?_
    · split
      · exact List.pairwise_singleton _ _
      · exact .nil
    · rw [hmem, @refBackedOf_intent referencedIntent rfl]
      by_cases hk : kind = "agent.intent"
      · rw [if_pos hk, List.mem_singleton]
        exact and_iff_right hk
      · rw [if_neg hk]
        exact iff_of_false (fun h => hk h.1) List.not_mem_nil

theorem sortedBodies_none {α : Type} {kind name : String} {read : Value → Option α}
    (hrefs : s.refs = referencedIntent.refs) (hk : kind ≠ "agent.intent")
    {le : Listed α → Listed α → Bool} :
    (listBodies .reference kind name read >>= fun found => pure (found.mergeSort le)).run exec s =
      (.ok [], s) := by
  obtain ⟨entries, hlist, hids⟩ := list_of_intent hrefs kind
  rw [if_neg hk] at hids
  obtain rfl := List.map_eq_nil_iff.mp hids
  have hbodies : (listBodies .reference kind name read).run exec s = (.ok [], s) := by
    rw [listBodies, Prog.run_bind_ok exec ((Prog.run_mapFail_ok_iff exec _).mpr hlist)]
    rfl
  rw [Prog.run_bind_ok exec hbodies]
  exact congrArg (fun l => (Except.ok l, s)) List.mergeSort_nil

/-- The intent is all the evidence, as it is read. -/
theorem evidence_of_intent (hrefs : s.refs = referencedIntent.refs)
    (hread : (readCachedObject Tools.reference.toCrates exampleIntentId).run exec s = (.ok report, s'))
    (hbody : WorkIntent.ofValue report.object.body = some intent) :
    (graphEvidence .reference).run exec s =
      (.ok ⟨[(exampleIntentId, intent)], [], [], [], []⟩, s') := by
  have hrefs' : s'.refs = referencedIntent.refs :=
    ((readCachedObject_keeps _ _).of_run hread).refs.trans hrefs
  obtain ⟨entries, hlist, hids⟩ := list_of_intent hrefs "agent.intent"
  rw [if_pos rfl] at hids
  obtain ⟨entry, rfl, hid⟩ := List.map_eq_singleton_iff.mp hids
  have hok : bodyOf .reference "WorkIntent" WorkIntent.ofValue report.object = .ok intent := by
    rw [bodyOf, hbody]
  have hintents : (listBodies .reference "agent.intent" "WorkIntent" WorkIntent.ofValue).run exec s =
      (.ok [⟨entry.objectId, entry.refName, entry.gitObjectId, intent⟩], s') := by
    rw [← hid] at hread
    rw [listBodies, Prog.run_bind_ok exec ((Prog.run_mapFail_ok_iff exec _).mpr hlist), readBodies,
      Prog.run_bind_ok exec ((Prog.run_mapFail_ok_iff exec CliError.git).mpr hread), hok,
      Prog.liftM_ok, Prog.ret_bind]
    rfl
  rw [graphEvidence, Prog.run_bind_ok exec hintents, listAttempts,
    Prog.run_bind_ok exec (sortedBodies_none hrefs' (by decide)), listRuns,
    Prog.run_bind_ok exec (sortedBodies_none hrefs' (by decide)), listChanges,
    Prog.run_bind_ok exec (sortedBodies_none hrefs' (by decide)), listPatches,
    Prog.run_bind_ok exec (sortedBodies_none hrefs' (by decide))]
  rw [← hid]
  rfl

/-- A repository without a commit and without files. -/
def lonePlace : GraphPlace where
  repo := "r"
  canonicalRepo := none
  toLowercase := id
  inspection := .ok none
  sources := .done
  distinct := trivial

/-- The graph of a repository with this intent. -/
def intentGraph (intent : WorkIntent) : GraphNet :=
  dedupeGraph (graphPieces "r" "r" none .empty ⟨[(exampleIntentId, intent)], [], [], [], []⟩)

theorem scan_of_intent (hrefs : s.refs = referencedIntent.refs)
    (hread : (readCachedObject Tools.reference.toCrates exampleIntentId).run exec s =
      (.ok report, s')) (hbody : WorkIntent.ofValue report.object.body = some intent) :
    (buildGraphScan .reference lonePlace none false).run exec s =
      (.ok (graphReport .reference "r" "r" none false (intentGraph intent)), s') := by
  rw [buildGraphScan]
  refine (Prog.run_bind_ok exec (Prog.run_ofExcept ..) _).trans ?_
  refine (Prog.run_bind_ok exec (Prog.run_ofExcept ..) _).trans ?_
  exact (Prog.run_bind_ok exec (evidence_of_intent hrefs hread hbody) _).trans rfl

/-- What is cached is read as it is. -/
theorem read_writeCache (o : CanonicalObject) : ∃ report, report.object = o.canonical ∧
    (readCachedObject Tools.reference.toCrates exampleIntentId).run exec
      (referencedIntent.writeCache (cachePathOf exampleIntentHex)
        (canonicalObjectBytes .reference o)) =
      (.ok report, referencedIntent.writeCache (cachePathOf exampleIntentHex)
        (canonicalObjectBytes .reference o)) := by
  have hcache : (referencedIntent.writeCache (cachePathOf exampleIntentHex)
      (canonicalObjectBytes .reference o)).cache[cachePathOf exampleIntentHex]? =
        some (canonicalObjectBytes .reference o) := by
    simp
  have hparse : readObjectBytes Tools.reference.toCrates (canonicalObjectBytes .reference o) =
      .ok o.canonical := read_canonicalObjectBytes o
  refine ⟨⟨exampleIntentId, cachePathOf exampleIntentHex, .cache, o.canonical⟩, rfl, ?_⟩
  rw [readCachedObject_run _ objectHex_exampleIntentId, read_run_of_cache _ hcache, hparse]
  rfl

theorem ofValue_canonical_intent (intent : WorkIntent) :
    WorkIntent.ofValue (canonicalJson (canonicalJson intent.toValue)) = some intent := by
  rw [canonicalJson_idem]
  exact WorkIntent.readBack intent

theorem content_referencedIntent : content referencedIntent exampleIntentHex =
    some (canonicalObjectBytes .reference intentObject) := by
  have hcache : referencedIntent.cache[cachePathOf exampleIntentHex]? = none := by
    rw [referencedIntent, ObjectStore.cache_writeRef]
    exact Std.ExtTreeMap.getElem?_empty
  have href : referencedIntent.refs[refNameOf exampleIntentHex]? =
      some (canonicalObjectBytes .reference intentObject) := by
    rw [referencedIntent, ObjectStore.refs_writeRef, if_pos rfl]
  rw [content, hcache, href, Option.none_or]

theorem scan_referencedIntent : ∃ t, (buildGraphScan .reference lonePlace none false).run exec
    referencedIntent =
      (.ok (graphReport .reference "r" "r" none false (intentGraph exampleIntent)), t) := by
  have hsound : Sound Tools.reference.toCrates exampleIntentId intentObject.canonical
      referencedIntent := by
    have hsame : ∀ o : CanonicalObject, o.canonical.objectId = o.objectId := fun _ => rfl
    refine ⟨objectFieldDiagnostics_eq_nil_iff.mpr ⟨(hsame _).trans intentObject_objectId,
      CanonicalObject.valid_canonical intentObject_valid⟩, exampleIntentHex,
      canonicalObjectBytes .reference intentObject, objectHex_exampleIntentId,
      content_referencedIntent, read_canonicalObjectBytes _⟩
  obtain ⟨report, t, hread, hobject, -, -⟩ := hsound.read
  refine ⟨t, scan_of_intent rfl hread ?_⟩
  rw [hobject]
  exact ofValue_canonical_intent exampleIntent

theorem scan_cachedIntent : (buildGraphScan .reference lonePlace none false).run exec cachedIntent =
    (.ok (graphReport .reference "r" "r" none false (intentGraph exampleIntent)), cachedIntent) := by
  obtain ⟨report, hobject, hread⟩ := read_writeCache { intentObject with createdAtMs := 1 }
  refine scan_of_intent rfl hread ?_
  rw [hobject]
  exact ofValue_canonical_intent exampleIntent

theorem scan_foreignCache : (buildGraphScan .reference lonePlace none false).run exec foreignCache =
    (.ok (graphReport .reference "r" "r" none false (intentGraph otherIntent)), foreignCache) := by
  obtain ⟨report, hobject, hread⟩ :=
    read_writeCache (cachedObject .reference "agent.intent" otherIntent.toValue)
  refine scan_of_intent rfl hread ?_
  rw [hobject]
  exact ofValue_canonical_intent otherIntent

/-- The copies in these stores are the intent, with this or that time. -/
theorem noCollisions_intent : NoCollisions Tools.reference.toCrates referencedIntent cachedIntent := by
  have hcopy : ∀ o, HasCopy .reference referencedIntent o ∨ HasCopy .reference cachedIntent o →
      o.kind = intentObject.kind ∧ o.schemaVersion = intentObject.schemaVersion ∧
        canonicalJson o.body = canonicalJson intentObject.body := by
    have href : ∀ o, HasCopy .reference referencedIntent o → o = intentObject.canonical := by
      intro o ho
      rcases ho.of_writeRef with hparse | hempty
      · rw [read_canonicalObjectBytes] at hparse
        exact (Except.ok.inj hparse).symm
      · exact absurd hempty not_hasCopy_empty
    rintro o (ho | ho)
    · rw [href o ho]
      exact ⟨rfl, rfl, canonicalJson_idem _⟩
    · rcases ho.of_writeCache with hparse | ho
      · rw [read_canonicalObjectBytes] at hparse
        rw [← Except.ok.inj hparse]
        exact ⟨rfl, rfl, canonicalJson_idem _⟩
      · rw [href o ho]
        exact ⟨rfl, rfl, canonicalJson_idem _⟩
  intro o o' ho ho' _
  obtain ⟨hk, hv, hb⟩ := hcopy o ho
  obtain ⟨hk', hv', hb'⟩ := hcopy o' ho'
  exact signingMessage_eq_iff.mpr ⟨hk.trans hk'.symm, hv.trans hv'.symm, hb.trans hb'.symm⟩

theorem sameObjects_intent : SameObjects Tools.reference.toCrates referencedIntent cachedIntent where
  left := referencedIntent_valid
  right := cachedIntent_valid
  sha := noCollisions_intent
  ids kind _ objectId :=
    (@refBackedOf_intent referencedIntent rfl kind objectId).trans
      (@refBackedOf_intent cachedIntent rfl kind objectId).symm

theorem sameScan_lonePlace : SameScan false lonePlace lonePlace none none where
  repo := rfl
  repoId := rfl
  commit head head' h h' := by rw [Except.ok.inj (h.symm.trans h')]
  files h := nomatch h

/-- With and without the cached copy the graph of the intent is the same. -/
theorem cachedIntent_scan : ∃ report report' t t',
    (buildGraphScan .reference lonePlace none false).run exec referencedIntent = (.ok report, t) ∧
      (buildGraphScan .reference lonePlace none false).run exec cachedIntent = (.ok report', t') ∧
      ClosedReport report ∧ SameGraph report report' := by
  obtain ⟨t, hrun⟩ := scan_referencedIntent
  obtain ⟨hclosed, -, hsame⟩ := graph_scan_closed_and_canonical .reference lonePlace none false
    (chain_of_intent rfl) hrun
  exact ⟨_, _, t, _, hrun, scan_cachedIntent, hclosed,
    hsame lonePlace none cachedIntent _ _ sameScan_lonePlace sameObjects_intent scan_cachedIntent⟩

/-! ## A foreign cache file -/

/-- The nodes of the graph, sorted. -/
def intentNodes (objective : String) : List GraphNode :=
  [graphNode "RickydataWorkIntent" "252a5adc-7bc0-526e-8551-a392972306f6" (some exampleIntentId)
      [("objective", .str objective), ("object_id", .str exampleIntentId)],
    graphNode "Repository" "35898a56-47bc-5339-b651-c02a534a9e4c" none
      [("repo", .str "r"), ("repo_id", .str "r"), ("head_commit", .null)]]

theorem repositoryId_eq : graphId "Repository" ["r"] = "35898a56-47bc-5339-b651-c02a534a9e4c" := by
  decide +kernel

theorem intentNodeId_eq :
    graphId "RickydataWorkIntent" ["35898a56-47bc-5339-b651-c02a534a9e4c", exampleIntentId] =
      "252a5adc-7bc0-526e-8551-a392972306f6" := by
  decide +kernel

theorem intentGraph_eq (intent : WorkIntent) : intentGraph intent =
    ⟨intentNodes intent.objective, [graphEdge "35898a56-47bc-5339-b651-c02a534a9e4c" "CONTAINS"
      "252a5adc-7bc0-526e-8551-a392972306f6"]⟩ := by
  have hlt : "252a5adc-7bc0-526e-8551-a392972306f6" < "35898a56-47bc-5339-b651-c02a534a9e4c" := by
    decide
  unfold intentGraph graphPieces dedupeGraph
  simp only [Net.nodes_append, Net.edges_append, Net.nodes_flatMap, Net.edges_flatMap,
    repositoryNet, commitNet, intentNet, Net.empty, List.flatMap_cons, List.flatMap_nil,
    List.append_nil, List.nil_append, List.singleton_append, repositoryId_eq, intentNodeId_eq]
  rw [firstByKey_singleton, firstByKey_pair hlt]
  rfl

theorem exampleIntent_graphHash : stableJsonHash .reference (graphValue (intentGraph exampleIntent)) =
    "sha256:cf66c0ebd95416d0503cc6b876f98833cf1ed507d75405f8353e39badf1f34bd" := by
  rw [intentGraph_eq, stableJsonHash_eq]
  decide +kernel

theorem otherIntent_graphHash : stableJsonHash .reference (graphValue (intentGraph otherIntent)) =
    "sha256:04dd056923023309d9c20257040c7effbc68ea33914bc8b8a684160d09a118a9" := by
  rw [intentGraph_eq, stableJsonHash_eq]
  decide +kernel

theorem intentGraph_hash_ne :
    stableJsonHash .reference (graphValue (intentGraph exampleIntent)) ≠
      stableJsonHash .reference (graphValue (intentGraph otherIntent)) := by
  rw [exampleIntent_graphHash, otherIntent_graphHash]
  decide

/-- The stores differ in a cache file. -/
theorem foreignCache_changes_graph :
    ProvenanceChain .reference referencedIntent ∧ ProvenanceChain .reference foreignCache ∧
      foreignCache.refs = referencedIntent.refs ∧ ∃ report report',
        ((buildGraphScan .reference lonePlace none false).run exec referencedIntent).1 =
            .ok report ∧
          ((buildGraphScan .reference lonePlace none false).run exec foreignCache).1 =
            .ok report' ∧ report.graphHash ≠ report'.graphHash := by
  obtain ⟨t, hrun⟩ := scan_referencedIntent
  exact ⟨chain_of_intent rfl, chain_of_intent rfl, rfl, _, _, congrArg Prod.fst hrun,
    congrArg Prod.fst scan_foreignCache, intentGraph_hash_ne⟩

end OneIntent

end RickydataGit.Cli
