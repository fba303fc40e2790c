/-
  The requests of the client and the routes of the relay.

  The client checks a repository id and puts it between the base URL and the suffix of a call.
  The relay takes it from the path of the request. Three languages meet there: the ids that
  are accepted, the path the URL standard makes of the text, and the patterns of the router.

  `call_arrives_iff`: for a relay mounted at some path, a call arrives with its id exactly when
  the base URL leads to that path and the id is no dot segment, which `ensure_safe_repo_id`
  lets pass.
-/
import RickydataGit.Lib.Url
import RickydataGit.Core.PrintBytes
import RickydataGit.Relay.Store

namespace RickydataGit.Relay

open RickydataGit.Lib RickydataGit.Core

/-! ## The router -/

inductive Method where
  | get
  | post
  deriving DecidableEq

inductive Piece where
  | text (s : String)
  | param
  deriving DecidableEq

inductive Handler where
  | health
  | repoStatus
  | validateBundle
  | pushBundle
  | pullBundle
  | getObject
  deriving DecidableEq

/-- `router`. -/
def routes : List (Method × List Piece × Handler) := [
  (.get, [.text "health"], .health),
  (.get, [.text "v1", .text "repos", .param, .text "status"], .repoStatus),
  (.post, [.text "v1", .text "repos", .param, .text "bundles", .text "validate"], .validateBundle),
  (.post, [.text "v1", .text "repos", .param, .text "bundles", .text "push"], .pushBundle),
  (.post, [.text "v1", .text "repos", .param, .text "bundles", .text "pull"], .pullBundle),
  (.get, [.text "v1", .text "repos", .param, .text "objects", .param], .getObject)]

def hexValue (c : Char) : Option Nat :=
  if c.isDigit then some (c.toNat - '0'.toNat)
  else if 'a' ≤ c ∧ c ≤ 'f' then some (c.toNat - 'a'.toNat + 10)
  else if 'A' ≤ c ∧ c ≤ 'F' then some (c.toNat - 'A'.toNat + 10)
  else none

/-- The bytes of a segment. A `%` that no two digits follow stands for itself. -/
def decodedBytes : List Char → Bytes
  | [] => []
  | '%' :: high :: low :: rest =>
    match hexValue high, hexValue low with
    | some h, some l => UInt8.ofNat (16 * h + l) :: decodedBytes rest
    | _, _ => utf8 "%" ++ decodedBytes (high :: low :: rest)
  | c :: rest => utf8 (String.singleton c) ++ decodedBytes rest

def percentDecode (segment : Url.Segment) : Option String := fromUtf8 (decodedBytes segment)

/-- The parameters of a path that has a pattern. -/
def matchPieces : List Piece → List Url.Segment → Option (List String)
  | [], [] => some []
  | .text s :: pieces, segment :: path =>
    if segment = s.toList then matchPieces pieces path else none
  | .param :: pieces, segment :: path =>
    if segment = [] then none
    else do
      let value ← percentDecode segment
      let values ← matchPieces pieces path
      return value :: values
  | _, _ => none

def route (method : Method) (path : List Url.Segment) : Option (Handler × List String) :=
  routes.findSome? fun (m, pieces, handler) =>
    if m = method then (matchPieces pieces path).map (handler, ·) else none

/-! ## The client -/

def ensureSafeRepoId (repoId : String) : Except String Unit :=
  if repoId = "" ∨ ¬ repoId.toList.all fun c => c.isAlphanum || c == '.' || c == '_' || c == '-'
  then .error s!"relay repo id `{repoId}` is invalid; use only ASCII letters, numbers, dot, underscore, and dash"
  else .ok ()

/-- `trim_end_matches('/')`. -/
def trimEndSlashes (s : String) : String := .ofList (s.toList.rdropWhile (· == '/'))

def relayUrl (baseUrl repoId suffix : String) : Except String String := do
  ensureSafeRepoId repoId
  return s!"{trimEndSlashes baseUrl}/v1/repos/{repoId}/{suffix}"

/-- What the client asks of a relay. -/
inductive ClientCall where
  | status
  | push
  | pull
  deriving DecidableEq

def ClientCall.suffix : ClientCall → String
  | .status => "status"
  | .push => "bundles/push"
  | .pull => "bundles/pull"

def ClientCall.method : ClientCall → Method
  | .status => .get
  | .push => .post
  | .pull => .post

def ClientCall.handler : ClientCall → Handler
  | .status => .repoStatus
  | .push => .pushBundle
  | .pull => .pullBundle

/-- At a relay mounted at a path, a call is answered by its handler for its repository. -/
def Arrives (accepts : List Char → Bool) (mount : List Url.Segment) (baseUrl repoId : String)
    (call : ClientCall) : Prop :=
  ∃ url path, relayUrl baseUrl repoId call.suffix = .ok url ∧
    Url.requestPath accepts url.toList = some (mount ++ path) ∧
    route call.method path = some (call.handler, [repoId])

/-! ## Where a call arrives -/

def ClientCall.segments : ClientCall → List Url.Segment
  | .status => ["status".toList]
  | .push => ["bundles".toList, "push".toList]
  | .pull => ["bundles".toList, "pull".toList]

def callPath (repo : Url.Segment) (call : ClientCall) : List Url.Segment :=
  "v1".toList :: "repos".toList :: repo :: call.segments

def ClientCall.pieces : ClientCall → List Piece
  | .status => [.text "v1", .text "repos", .param, .text "status"]
  | .push => [.text "v1", .text "repos", .param, .text "bundles", .text "push"]
  | .pull => [.text "v1", .text "repos", .param, .text "bundles", .text "pull"]

section Pieces

variable {pieces : List Piece} {path : List Url.Segment} {values : List String}

theorem matchPieces_nil_iff : matchPieces [] path = some values ↔ path = [] ∧ values = [] := by
  cases path with
  | nil => exact ⟨fun h => ⟨rfl, (Option.some.inj h).symm⟩, fun h => by rw [h.2]; rfl⟩
  | cons segment path => exact iff_of_false nofun fun h => nomatch h.1

theorem matchPieces_text_iff {s : String} :
    matchPieces (.text s :: pieces) path = some values ↔
      ∃ rest, path = s.toList :: rest ∧ matchPieces pieces rest = some values := by
  cases path with
  | nil => exact iff_of_false nofun fun ⟨_, h, _⟩ => nomatch h
  | cons segment path =>
    rw [matchPieces]
    split
    · next h =>
        subst h
        exact ⟨fun h => ⟨path, rfl, h⟩, fun ⟨_, heq, h⟩ => (List.cons.inj heq).2 ▸ h⟩
    · next hne =>
        exact iff_of_false nofun fun ⟨_, heq, _⟩ => hne (List.cons.inj heq).1

theorem matchPieces_param_iff :
    matchPieces (.param :: pieces) path = some values ↔
      ∃ segment rest value values', path = segment :: rest ∧ segment ≠ [] ∧
        percentDecode segment = some value ∧ matchPieces pieces rest = some values' ∧
        values = value :: values' := by
  cases path with
  | nil => exact iff_of_false nofun fun ⟨_, _, _, _, h, _⟩ => nomatch h
  | cons segment path =>
    rw [matchPieces]
    split
    · next hnil =>
        refine iff_of_false nofun ?_
        rintro ⟨_, _, _, _, ⟨⟩, hne, -⟩
        exact absurd hnil hne
    · next hne =>
        constructor
        · intro h
          obtain ⟨value, hvalue, h⟩ := Option.bind_eq_some_iff.mp h
          obtain ⟨values', hvalues, h⟩ := Option.bind_eq_some_iff.mp h
          exact ⟨segment, path, value, values', rfl, hne, hvalue, hvalues,
            (Option.some.inj h).symm⟩
        · rintro ⟨_, _, value, values', ⟨⟩, -, hvalue, hvalues, rfl⟩
          rw [hvalue, hvalues]
          rfl

end Pieces

theorem matchPieces_call_iff {call : ClientCall} {path : List Url.Segment} {repoId : String} :
    matchPieces call.pieces path = some [repoId] ↔
      ∃ repo, repo ≠ [] ∧ percentDecode repo = some repoId ∧ path = callPath repo call := by
  cases call <;>
  · simp only [ClientCall.pieces, callPath, ClientCall.segments, matchPieces_text_iff,
      matchPieces_param_iff, matchPieces_nil_iff]
    constructor
    · rintro ⟨_, rfl, _, rfl, repo, _, _, _, rfl, hne, hrepo, hrest, heq⟩
      obtain ⟨rfl, rfl⟩ := List.cons.inj heq
      refine ⟨repo, hne, hrepo, ?_⟩
      simp_all
    · rintro ⟨repo, hne, hrepo, rfl⟩
      exact ⟨_, rfl, _, rfl, repo, _, _, _, rfl, hne, hrepo, by simp, rfl⟩

theorem route_call_iff {call : ClientCall} {path : List Url.Segment} {repoId : String} :
    route call.method path = some (call.handler, [repoId]) ↔
      ∃ repo, repo ≠ [] ∧ percentDecode repo = some repoId ∧ path = callPath repo call := by
  rw [← matchPieces_call_iff]
  constructor
  · intro h
    obtain ⟨⟨method, pieces, handler⟩, hrow, h⟩ := List.exists_of_findSome?_eq_some h
    dsimp only at h
    split at h
    · obtain ⟨values, hvalues, heq⟩ := Option.map_eq_some_iff.mp h
      obtain ⟨rfl, rfl⟩ := Prod.mk.inj heq
      -- every handler has one row
      have hpieces : pieces = call.pieces := by
        revert hrow
        cases call <;> simp [routes, ClientCall.handler, ClientCall.pieces]
      exact hpieces ▸ hvalues
    · cases h
  · intro h
    obtain ⟨repo, hne, hrepo, rfl⟩ := matchPieces_call_iff.mp h
    cases call <;>
    simp [route, routes, callPath, ClientCall.segments, ClientCall.method, ClientCall.handler,
      matchPieces, hne, hrepo]

/-! ## What the client sends -/

theorem ensureSafeRepoId_ok_iff {repoId : String} :
    ensureSafeRepoId repoId = .ok () ↔ Url.PlainSegment repoId.toList := by
  have hempty : repoId.toList ≠ [] ↔ repoId ≠ "" := String.toList_eq_nil_iff.not
  unfold ensureSafeRepoId Url.PlainSegment
  rw [hempty]
  split
  · next h =>
      refine iff_of_false nofun fun ⟨hne, hall⟩ => ?_
      rcases h with h | h
      · exact hne h
      · exact h (List.all_eq_true.mpr hall)
  · next h =>
      rw [not_or, not_not] at h
      exact iff_of_true rfl ⟨h.1, List.all_eq_true.mp h.2⟩

theorem plain_callPath {repo : Url.Segment} (hrepo : Url.PlainSegment repo) (call : ClientCall) :
    ∀ s ∈ callPath repo call, Url.PlainSegment s := by
  have htext : ∀ s ∈ ["v1", "repos"], Url.PlainSegment s.toList := by
    simp [Url.PlainSegment, Url.isPlain]
  have hsuffix : ∀ s ∈ call.segments, Url.PlainSegment s := by
    cases call <;> simp [ClientCall.segments, Url.PlainSegment, Url.isPlain]
  intro s hs
  rcases List.mem_cons.mp hs with rfl | hs
  · exact htext "v1" (by decide)
  rcases List.mem_cons.mp hs with rfl | hs
  · exact htext "repos" (by decide)
  rcases List.mem_cons.mp hs with rfl | hs
  · exact hrepo
  · exact hsuffix s hs

theorem toList_relayUrl (baseUrl : String) {repoId : String} (call : ClientCall)
    (hid : ensureSafeRepoId repoId = .ok ()) : ∃ url,
    relayUrl baseUrl repoId call.suffix = .ok url ∧
      url.toList = (trimEndSlashes baseUrl).toList ++
        '/' :: Url.joined (callPath repoId.toList call) := by
  refine ⟨_, by rw [relayUrl, hid]; rfl, ?_⟩
  have hsame : ∀ s : String, toString s = s := fun _ => rfl
  simp only [hsame, String.toList_append]
  cases call <;>
  simp [callPath, ClientCall.segments, ClientCall.suffix, Url.joined]

theorem decodedBytes_plain {cs : List Char} (h : '%' ∉ cs) :
    decodedBytes cs = encodeChars cs := by
  induction cs with
  | nil => rfl
  | cons c rest ih =>
    have hc : c ≠ '%' := fun heq => h (heq ▸ List.mem_cons_self)
    rw [decodedBytes, ih fun hmem => h (List.mem_cons_of_mem _ hmem)]
    · rw [utf8_eq, String.toList_singleton, ← encodeChars_append]
      rfl
    · rintro _ _ _ rfl
      exact absurd rfl hc

theorem percentDecode_plain {repoId : String} (h : Url.PlainSegment repoId.toList) :
    percentDecode repoId.toList = some repoId := by
  have hpercent : '%' ∉ repoId.toList := fun hmem =>
    (Url.ordinary_of_isPlain (h.2 _ hmem)).percent rfl
  rw [percentDecode, decodedBytes_plain hpercent, ← utf8_eq, fromUtf8_utf8]

theorem length_callPath (repo : Url.Segment) (call : ClientCall) :
    (callPath repo call).length = 3 + call.segments.length := by
  rw [callPath, List.length_cons, List.length_cons, List.length_cons]
  omega

/-- The path that is walked from a directory: the id comes into it unless it is dots. -/
theorem finish_callPath (repo : Url.Segment) (call : ClientCall)
    (directory : List Url.Segment) :
    Url.finish ((callPath repo call).dropLast.foldl Url.enter directory)
        ((callPath repo call).getLast?.getD []) =
      Url.enter (directory ++ ["v1".toList, "repos".toList]) repo ++ call.segments := by
  have henter : ∀ s ∈ ["v1", "repos", "bundles"], ∀ front : List Url.Segment,
      Url.enter front s.toList = front ++ [s.toList] := by
    intro s hs front
    have hall : ∀ s ∈ ["v1", "repos", "bundles"], (∀ c ∈ s.toList, Url.isPlain c = true) ∧
        s.toList ≠ ['.'] ∧ s.toList ≠ ['.', '.'] := by
      simp [Url.isPlain]
    obtain ⟨h, hdot, hdouble⟩ := hall s hs
    exact Url.enter_plain h hdot hdouble front
  have hfinish : ∀ s ∈ ["status", "push", "pull"], ∀ front : List Url.Segment,
      Url.finish front s.toList = front ++ [s.toList] := by
    intro s hs front
    have hall : ∀ s ∈ ["status", "push", "pull"], (∀ c ∈ s.toList, Url.isPlain c = true) ∧
        s.toList ≠ ['.'] ∧ s.toList ≠ ['.', '.'] := by
      simp [Url.isPlain]
    obtain ⟨h, hdot, hdouble⟩ := hall s hs
    exact Url.finish_plain h hdot hdouble front
  have hrepos : Url.enter (Url.enter directory "v1".toList) "repos".toList =
      directory ++ ["v1".toList, "repos".toList] := by
    rw [henter "v1" (by decide), henter "repos" (by decide), List.append_assoc]
    rfl
  cases call with
  | status =>
    show Url.finish (Url.enter (Url.enter (Url.enter directory _) _) repo) "status".toList = _
    rw [hrepos, hfinish "status" (by decide)]
    rfl
  | push =>
    show Url.finish (Url.enter (Url.enter (Url.enter (Url.enter directory _) _) repo)
      "bundles".toList) "push".toList = _
    rw [hrepos, henter "bundles" (by decide), hfinish "push" (by decide), List.append_assoc]
    rfl
  | pull =>
    show Url.finish (Url.enter (Url.enter (Url.enter (Url.enter directory _) _) repo)
      "bundles".toList) "pull".toList = _
    rw [hrepos, henter "bundles" (by decide), hfinish "pull" (by decide), List.append_assoc]
    rfl

/-- The path a call is sent to, from the directory that the base URL leads to. -/
theorem requestPath_callPath (accepts : List Char → Bool) {baseUrl repoId : String}
    (call : ClientCall) (hbase : ∀ c ∈ baseUrl.toList, c ≠ '?' ∧ c ≠ '#')
    (hplain : Url.PlainSegment repoId.toList) :
    (∃ directory,
        Url.requestPath accepts ((trimEndSlashes baseUrl).toList ++ ['/']) =
          some (directory ++ [[]]) ∧
        Url.requestPath accepts ((trimEndSlashes baseUrl).toList ++
            '/' :: Url.joined (callPath repoId.toList call)) =
          some (Url.enter (directory ++ ["v1".toList, "repos".toList]) repoId.toList ++
            call.segments)) ∨
      Url.requestPath accepts ((trimEndSlashes baseUrl).toList ++ ['/']) = none ∧ ∀ path,
        Url.requestPath accepts ((trimEndSlashes baseUrl).toList ++
            '/' :: Url.joined (callPath repoId.toList call)) = some path →
          path.length < (callPath repoId.toList call).length := by
  have hend : ∀ c ∈ (trimEndSlashes baseUrl).toList, Url.isEnd c = false := by
    intro c hc
    rw [trimEndSlashes, String.toList_ofList] at hc
    have hboth := hbase c ((List.rdropWhile_prefix _ _).subset hc)
    simp [Url.isEnd, hboth.1, hboth.2]
  have hlength := length_callPath repoId.toList call
  have hrequest := Url.requestPath_append accepts hend (plain_callPath hplain call) (by omega)
  simp only [finish_callPath] at hrequest
  exact hrequest

/-- Where the base URL leads to the relay, the calls for an id that is no dot segment arrive. -/
theorem arrives_of_mount {accepts : List Char → Bool} {mount : List Url.Segment}
    {baseUrl repoId : String} (call : ClientCall)
    (hbase : ∀ c ∈ baseUrl.toList, c ≠ '?' ∧ c ≠ '#') (hid : ensureSafeRepoId repoId = .ok ())
    (hmount : Url.requestPath accepts ((trimEndSlashes baseUrl).toList ++ ['/']) =
      some (mount ++ [[]]))
    (hdot : repoId ≠ ".") (hdouble : repoId ≠ "..") :
    Arrives accepts mount baseUrl repoId call := by
  have hplain := ensureSafeRepoId_ok_iff.mp hid
  obtain ⟨url, hurl, htext⟩ := toList_relayUrl baseUrl call hid
  rcases requestPath_callPath accepts call hbase hplain with
    ⟨directory, hslash, hpath⟩ | ⟨hnone, -⟩
  · obtain rfl : directory = mount :=
      List.append_cancel_right (Option.some.inj (hslash.symm.trans hmount))
    rw [Url.enter_plain hplain.2 (fun h => hdot (String.toList_inj.mp h))
      (fun h => hdouble (String.toList_inj.mp h)), List.append_assoc, List.append_assoc] at hpath
    refine ⟨url, _, hurl, htext ▸ hpath, route_call_iff.mpr ?_⟩
    exact ⟨repoId.toList, hplain.1, percentDecode_plain hplain, rfl⟩
  · rw [hnone] at hmount
    cases hmount

/-- A call arrives for the id it was made with exactly when the base URL leads to the relay and
    the id is not a dot segment. -/
theorem call_arrives_iff (accepts : List Char → Bool) (mount : List Url.Segment)
    (baseUrl repoId : String) (call : ClientCall)
    (hbase : ∀ c ∈ baseUrl.toList, c ≠ '?' ∧ c ≠ '#')
    (hid : ensureSafeRepoId repoId = .ok ()) :
    Arrives accepts mount baseUrl repoId call ↔
      Url.requestPath accepts ((trimEndSlashes baseUrl).toList ++ ['/']) = some (mount ++ [[]]) ∧
        repoId ≠ "." ∧ repoId ≠ ".." := by
  constructor
  · rintro ⟨url, path, hurl, hpath, hroute⟩
    have hplain := ensureSafeRepoId_ok_iff.mp hid
    obtain ⟨url', hurl', htext⟩ := toList_relayUrl baseUrl call hid
    obtain rfl := Except.ok.inj (hurl'.symm.trans hurl)
    obtain ⟨repo, -, hrepo, rfl⟩ := route_call_iff.mp hroute
    rw [htext] at hpath
    rcases requestPath_callPath accepts call hbase hplain with
      ⟨directory, hslash, hsent⟩ | ⟨-, hshort⟩
    · have hcall : mount ++ callPath repo call =
          mount ++ ["v1".toList, "repos".toList] ++ [repo] ++ call.segments := by
        rw [List.append_assoc, List.append_assoc]
        rfl
      have henter : Url.enter (directory ++ ["v1".toList, "repos".toList]) repoId.toList =
          mount ++ ["v1".toList, "repos".toList] ++ [repo] := by
        have hsame := Option.some.inj (hsent.symm.trans hpath)
        rw [hcall] at hsame
        exact List.append_cancel_right hsame
      -- a dot segment leaves a text of the route where the id should be
      have hkept : ∀ front (text : String), Url.PlainSegment text.toList → text ≠ repoId →
          Url.enter (directory ++ ["v1".toList, "repos".toList]) repoId.toList ≠
            front ++ [text.toList] := by
        intro front text htext hne heq
        obtain ⟨-, hlast⟩ := List.append_inj' (heq.symm.trans henter) rfl
        rw [← List.singleton_inj.mp hlast, percentDecode_plain htext] at hrepo
        exact hne (Option.some.inj hrepo)
      have hdot : repoId ≠ "." := by
        rintro rfl
        refine hkept (directory ++ ["v1".toList]) "repos" ?_ (by decide) ?_
        · simp [Url.PlainSegment, Url.isPlain]
        · rw [List.append_assoc]
          rfl
      have hdouble : repoId ≠ ".." := by
        rintro rfl
        refine hkept directory "v1" ?_ (by decide) ?_
        · simp [Url.PlainSegment, Url.isPlain]
        · show (directory ++ ["v1".toList, "repos".toList]).dropLast = _
          rw [List.dropLast_append_of_ne_nil (List.cons_ne_nil _ _)]
          rfl
      rw [Url.enter_plain hplain.2 (fun h => hdot (String.toList_inj.mp h))
        (fun h => hdouble (String.toList_inj.mp h))] at henter
      have hmount : directory = mount :=
        List.append_cancel_right (List.append_inj' henter rfl).1
      exact ⟨hmount ▸ hslash, hdot, hdouble⟩
    · have hless := hshort _ hpath
      rw [List.length_append, length_callPath, length_callPath] at hless
      omega
  · rintro ⟨hmount, hdot, hdouble⟩
    exact arrives_of_mount call hbase hid hmount hdot hdouble

/-- At a relay at the root of its host, the calls for an ordinary id arrive. -/
theorem plain_call_arrives :
    Arrives (fun _ => true) [] "https://relay.example/" "repo" .push := by
  have hid : ensureSafeRepoId "repo" = .ok () :=
    ensureSafeRepoId_ok_iff.mpr (by simp [Url.PlainSegment, Url.isPlain])
  have hmount : Url.requestPath (fun _ => true)
      ((trimEndSlashes "https://relay.example/").toList ++ ['/']) = some ([] ++ [[]]) := by
    decide +kernel
  exact (call_arrives_iff (fun _ => true) [] "https://relay.example/" "repo" .push (by simp)
    hid).mpr ⟨hmount, by decide, by decide⟩

/-- Two dots are accepted, and the push goes to another path. -/
theorem dots_call_lost :
    ensureSafeRepoId ".." = .ok () ∧
      Url.requestPath (fun _ => true)
        ((trimEndSlashes "https://relay.example/").toList ++ ['/']) = some ([] ++ [[]]) ∧
      ¬ Arrives (fun _ => true) [] "https://relay.example/" ".." .push := by
  refine ⟨ensureSafeRepoId_ok_iff.mpr (by simp [Url.PlainSegment, Url.isPlain]), by decide +kernel,
    ?_⟩
  rintro ⟨url, path, hurl, hpath, hroute⟩
  have htext : relayUrl "https://relay.example/" ".." "bundles/push" =
      .ok "https://relay.example/v1/repos/../bundles/push" := by
    decide +kernel
  obtain rfl := Except.ok.inj (htext.symm.trans hurl)
  have hsent : Url.requestPath (fun _ => true)
      "https://relay.example/v1/repos/../bundles/push".toList =
        some ["v1".toList, "bundles".toList, "push".toList] := by
    decide +kernel
  obtain rfl := Option.some.inj (hsent.symm.trans hpath)
  exact absurd hroute (by decide +kernel)

end RickydataGit.Relay
