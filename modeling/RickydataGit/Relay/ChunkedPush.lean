/-
  Pushes in chunks, by any number of clients at once.

  Each chunk is a request with a key of its own, and a client that gets no answer stops and
  is started again, perhaps with another chunk size. `chunked_safe`: if requests under one
  key carry the same objects, then in every interleaving a client that returns has all its
  objects stored.

  The default key of a push hashes the repository and the ids; the key of a chunk adds its
  number and how many there are, but not how large they are. `default_keys_safe_iff`: pushes
  with default keys are safe in every run exactly if no two of them cut the same objects
  into as many chunks of different sizes. `sizes_apart_safe` is a rule for the sizes alone:
  one is at least twice the other.
-/
import RickydataGit.Relay.Client
import RickydataGit.Relay.FilePool

namespace RickydataGit.Relay

open RickydataGit.Lib RickydataGit.Core FileRelayStore

/-! ## The requests of a push -/

namespace ClientPush

section Requests

variable {X : Crates} {p p' : ClientPush}

theorem size_pos (p : ClientPush) : 0 < p.size := lt_max_of_lt_right Nat.one_pos

/-- The objects of a chunk. -/
def chunk (p : ClientPush) (i : Nat) : List CanonicalObject :=
  (p.objects.drop (i * p.size)).take p.size

theorem getElem?_requests (i : Nat) : (p.requests X)[i]? =
    if i * p.size < p.objects.length then some ⟨p.repoId, p.chunkKey X i, p.chunk i⟩
    else none := by
  rw [requests, List.getElem?_mapIdx, getElem?_chunks p.size_pos]
  split
  · rfl
  · rfl

theorem mem_requests {request : BundlePushRequest} : request ∈ p.requests X ↔
    ∃ i, i * p.size < p.objects.length ∧ request = ⟨p.repoId, p.chunkKey X i, p.chunk i⟩ := by
  rw [List.mem_iff_getElem?]
  refine exists_congr fun i => ?_
  rw [getElem?_requests]
  split
  · next h => simp [h, eq_comm]
  · next h => simp [h]

/-- Every object is sent in one of the requests. -/
theorem exists_request {object : CanonicalObject} (ho : object ∈ p.objects) :
    ∃ request ∈ p.requests X, request.repoId = p.repoId ∧ object ∈ request.objects := by
  have hflat := flatten_chunks p.size_pos p.objects
  rw [← hflat] at ho
  obtain ⟨piece, hpiece, ho⟩ := List.mem_flatten.mp ho
  obtain ⟨i, hi⟩ := List.mem_iff_getElem?.mp hpiece
  rw [getElem?_chunks p.size_pos] at hi
  split at hi
  · next hlt =>
      obtain rfl := Option.some.inj hi
      exact ⟨_, mem_requests.mpr ⟨i, hlt, rfl⟩, rfl, ho⟩
  · cases hi

theorem mem_of_chunk {object : CanonicalObject} {i : Nat} (ho : object ∈ p.chunk i) :
    object ∈ p.objects := List.mem_of_mem_drop (List.mem_of_mem_take ho)

theorem ids_chunk (i : Nat) : (p.chunk i).map CanonicalObject.objectId =
    (p.objectIds.drop (i * p.size)).take p.size := by
  rw [chunk, objectIds, List.map_take, List.map_drop]

end Requests

end ClientPush

/-! ## What a client that returns has stored -/

section Pool

variable {X : Crates} {policy : Policy} {C : ClientPush → Prop} {remote : Remote fileOps}
  {axum : Axum}

/-- The requests of these pushes. -/
def SentBy (X : Crates) (C : ClientPush → Prop) (request : BundlePushRequest) : Prop :=
  ∃ p, C p ∧ request ∈ p.requests X

/-- Requests of which one is answered from the record of the other carry the same ids. -/
def OneBundleEach (X : Crates) (P : BundlePushRequest → Prop) : Prop :=
  ∀ request request', P request → P request' →
    idempotencyPath X request.repoId request.idempotencyKey =
      idempotencyPath X request'.repoId request'.idempotencyKey →
    ∀ object ∈ request.objects, ∃ object' ∈ request'.objects, object'.objectId = object.objectId

section Answers

variable {P : BundlePushRequest → Prop} {request : BundlePushRequest}
  {report : BundlePushReport} {s : Files} {t : List (Prog.Event fileOps)}

/-- An answer under the key of the request means that its objects are stored. -/
theorem allStored_of_answered (hP : OneEnvelopeEach X P) (hkeys : OneBundleEach X P)
    (hr : P request) (h : Answered X P request report s) : AllStored X request s := by
  obtain ⟨request', hr', hrec, hall⟩ := h
  intro object ho
  have hrepo := (idempotencyPath_inj hrec.path).1
  obtain ⟨object', ho', hid⟩ := hkeys request request' hr hr' hrec.path object ho
  have hstored := hall object' ho'
  rw [storedBytes, hid, ← objectPath_congr hrepo] at hstored
  rw [storedBytes, hstored]
  exact congrArg some (hP _ _ hr' hr hrepo.symm _ ho' _ ho hid)

/-- What holds when a request sent has come back. -/
theorem safe_sendPush (hX : ReadsBack X) (hP : OneEnvelopeEach X P) (hkeys : OneBundleEach X P)
    (hr : P request) (hreach : Reaches X remote (fileRelayStore X policy) axum request.repoId)
    (hs : Filed X P s) :
    (sendPush X remote request).Sound FileStep (Keeps X P) (Keeps X P)
      (fun _ r s => Filed X P s ∧ ∀ report, r = .ok report → AllStored X request s) t s := by
  rcases Nat.lt_or_ge axum.bodyLimit (pushRequestFormat.bytes X request).length with
    hlong | hfits
  · rw [sendPush_long hreach hlong]
    exact ⟨hs, nofun⟩
  rw [sendPush_eq hX hreach hfits]
  refine (safe_pushBundle hX hP hr hs).mapFail.mono ?_
  rintro t _ s ⟨r, rfl, hs, hanswer⟩
  refine ⟨hs, fun report he => ?_⟩
  rcases r with e | report'
  · cases he
  · exact allStored_of_answered hP hkeys hr (hanswer report' rfl)

/-- The loop ends with all its requests stored. -/
theorem safe_pushChunks (hX : ReadsBack X) (hP : OneEnvelopeEach X P) (hkeys : OneBundleEach X P)
    {rs : List BundlePushRequest} (hrs : ∀ request ∈ rs, P request ∧
      Reaches X remote (fileRelayStore X policy) axum request.repoId)
    (accepted duplicate : UInt64) (ids : List String) (hs : Filed X P s) :
    (pushChunks (sendPush X remote) accepted duplicate ids rs).Sound FileStep (Keeps X P)
      (Keeps X P)
      (fun _ r s => Filed X P s ∧
        ∀ counts, r = .ok counts → ∀ request ∈ rs, AllStored X request s)
      t s := by
  induction rs generalizing accepted duplicate ids t s with
  | nil => exact ⟨hs, fun _ _ => by simp⟩
  | cons request rest ih =>
    obtain ⟨⟨hr, hreach⟩, hrest⟩ := List.forall_mem_cons.mp hrs
    refine Prog.Sound.bind (safe_sendPush hX hP hkeys hr hreach hs) ?_
      (fun t e s ⟨hs, _⟩ => ⟨hs, nofun⟩)
    rintro t report s ⟨hs, hstored⟩
    have hkept : ∀ s s', Keeps X P s s' → AllStored X request s → AllStored X request s' :=
      fun s s' h hall => hall.keeps h
    refine ((ih hrest _ _ _ hs).frame hkept hkept (hstored report rfl)).mono ?_
    rintro t r s ⟨⟨hs, hall⟩, hfirst⟩
    exact ⟨hs, fun counts hc => List.forall_mem_cons.mpr ⟨hfirst, hall counts hc⟩⟩

end Answers

/-- The objects of a push are stored as they are. -/
def PushStored (X : Crates) (p : ClientPush) (s : Files) : Prop :=
  ∀ object ∈ p.objects,
    storedBytes X p.repoId s object.objectId = some (canonicalObjectBytes X object)

/-- Clients that push at the same time. -/
abbrev Clients (C : ClientPush → Prop) :=
  Pool Files fileOps String BundlePushReport (Subtype C)

/-- A client at work on its push. -/
def working (X : Crates) (remote : Remote fileOps) (p : Subtype C) :
    Prog fileOps String BundlePushReport := pushObjects X (sendPush X remote) p.1

/-- Whoever returned has everything stored. -/
def Delivered (X : Crates) (c : Clients C) : Prop :=
  ∀ call ∈ c.calls, ∀ report, call.Returned report → PushStored X call.request.1 c.store

theorem keeping_working (hX : ReadsBack X) (hP : OneEnvelopeEach X (SentBy X C))
    (hkeys : OneBundleEach X (SentBy X C))
    (hreach : ∀ p, C p → Reaches X remote (fileRelayStore X policy) axum p.repoId) :
    Pool.Keeping FileStep (working (C := C) X remote) (Filed X (SentBy X C))
      (Keeps X (SentBy X C)) (fun p r s => Filed X (SentBy X C) s ∧
        ∀ report, r = .ok report → PushStored X p.1 s) where
  refl := Keeps.refl
  trans _ _ _ := Keeps.trans
  inv _ _ hs h := h.2 hs
  stable p r s s' h hq :=
    ⟨h.2 hq.1, fun report hr object ho => h.1 _ _ _ (hq.2 report hr object ho)⟩
  started p s hs := by
    have hrs : ∀ request ∈ p.1.requests X, SentBy X C request ∧
        Reaches X remote (fileRelayStore X policy) axum request.repoId := by
      intro request hr
      refine ⟨⟨p.1, p.2, hr⟩, ?_⟩
      obtain ⟨i, -, rfl⟩ := ClientPush.mem_requests.mp hr
      exact hreach p.1 p.2
    refine Prog.Sound.bind (safe_pushChunks hX hP hkeys hrs 0 0 [] hs) ?_
      (fun t e s ⟨hs, _⟩ => ⟨hs, nofun⟩)
    rintro t counts s ⟨hs, hall⟩
    refine ⟨hs, fun report _ object ho => ?_⟩
    obtain ⟨request, hr, hrepo, ho⟩ := ClientPush.exists_request (X := X) ho
    exact hrepo ▸ hall counts rfl request hr object ho

/-- If requests under one key carry the same objects, a client that returns has all of its
    objects stored, in every interleaving. -/
theorem chunked_safe (hX : ReadsBack X) (hP : OneEnvelopeEach X (SentBy X C))
    (hkeys : OneBundleEach X (SentBy X C))
    (hreach : ∀ p, C p → Reaches X remote (fileRelayStore X policy) axum p.repoId) (c : Clients C)
    (h : Pool.Reach FileStep (working X remote) (fun _ _ => True) (Pool.idle ∅) c) :
    Delivered X c := by
  obtain ⟨-, -, hdone⟩ := Pool.reach_keeping (keeping_working hX hP hkeys hreach) filed_empty h
  exact fun call hcall report hr => (hdone call hcall report hr).2 report rfl

end Pool

/-! ## The keys of the chunks -/

theorem ofDigitChars_fourDigits (n : Nat) :
    Nat.ofDigitChars 10 (fourDigits n).toList 0 = n := by
  rw [fourDigits, String.toList_ofList, List.leftpad, Nat.ofDigitChars_append,
    Nat.ofDigitChars_replicate_zero, Nat.mul_zero, Nat.toString_eq_ofList_toDigits,
    String.toList_ofList, Nat.ofDigitChars_ten_toDigits]

theorem fourDigits_inj {n n' : Nat} (h : fourDigits n = fourDigits n') : n = n' := by
  rw [← ofDigitChars_fourDigits n, h, ofDigitChars_fourDigits]

theorem dash_not_mem_fourDigits (n : Nat) : '-' ∉ (fourDigits n).toList := by
  rw [fourDigits, String.toList_ofList, List.leftpad, List.mem_append,
    Nat.toString_eq_ofList_toDigits, String.toList_ofList]
  rintro (h | h)
  · exact absurd (List.eq_of_mem_replicate h) (by decide)
  · exact absurd (isDigit_of_mem_toDigits h) (by decide)

/-- Texts of one shape, with a dash after the second part. -/
theorem keyText_inj {a a' b b' c c' front rest : List Char} (hlength : a.length = a'.length)
    (hb : '-' ∉ b) (hb' : '-' ∉ b') (h : a ++ (front ++ (b ++ '-' :: (rest ++ c))) =
      a' ++ (front ++ (b' ++ '-' :: (rest ++ c')))) : a = a' ∧ b = b' ∧ c = c' := by
  obtain ⟨ha, htail⟩ := List.append_inj h hlength
  rw [List.append_right_inj] at htail
  have hdigits : ∀ {cs : List Char} (tail : List Char), '-' ∉ cs →
      (cs ++ '-' :: tail).takeWhile (· ≠ '-') = cs := by
    intro cs tail hcs
    rw [List.takeWhile_append_of_pos]
    · simp
    · intro x hx
      exact decide_eq_true fun he => hcs (he ▸ hx)
  have hbb : b = b' := by rw [← hdigits (rest ++ c) hb, htail, hdigits _ hb']
  subst hbb
  rw [List.append_right_inj, List.cons.injEq, List.append_right_inj] at htail
  exact ⟨ha, rfl, htail.2⟩

theorem arr_str_inj {xs ys : List String}
    (h : (Value.arr (xs.map .str)).tree = (Value.arr (ys.map .str)).tree) : xs = ys := by
  simp only [Value.arr, List.map_map, Json.arr.injEq] at h
  refine List.map_injective_iff.mpr (fun s t hst => ?_) h
  exact Value.str_inj (Value.ext_tree hst)

namespace ClientPush

section Keys

variable {X : Crates} {p p' : ClientPush} {i i' : Nat}

theorem length_key (h : p.idempotencyKey = none) : (p.key X).toList.length = 71 := by
  rw [key, h]
  show (hashText X _).toList.length = 71
  rw [hashText, String.toList_append, List.length_append, length_hexEncode_sha256]
  rfl

theorem toList_chunkKey (h : p.chunkCount ≠ 1) : (p.chunkKey X i).toList =
    (p.key X).toList ++ (":chunk:".toList ++ ((fourDigits (i + 1)).toList ++
      '-' :: ("of-".toList ++ (fourDigits p.chunkCount).toList))) := by
  rw [chunkKey, if_neg h]
  simp [toString]

/-- The key of a chunk gives the default key, the number of chunks, and, where there are
    several, which one it is. -/
theorem chunkKey_inj (h : p.idempotencyKey = none) (h' : p'.idempotencyKey = none)
    (he : p.chunkKey X i = p'.chunkKey X i') :
    p.key X = p'.key X ∧ p.chunkCount = p'.chunkCount ∧ (p.chunkCount = 1 ∨ i = i') := by
  have hlength := (length_key (X := X) h).trans (length_key (X := X) h').symm
  by_cases hone : p.chunkCount = 1
  · by_cases hone' : p'.chunkCount = 1
    · rw [chunkKey, if_pos hone, chunkKey, if_pos hone'] at he
      exact ⟨he, hone.trans hone'.symm, .inl hone⟩
    · have hl := congrArg (fun key : String => key.toList.length) he
      rw [toList_chunkKey hone', chunkKey, if_pos hone, List.length_append, hlength,
        List.length_append] at hl
      have hseven : ":chunk:".toList.length = 7 := rfl
      omega
  · by_cases hone' : p'.chunkCount = 1
    · have hl := congrArg (fun key : String => key.toList.length) he
      rw [toList_chunkKey hone, chunkKey, if_pos hone', List.length_append, hlength,
        List.length_append] at hl
      have hseven : ":chunk:".toList.length = 7 := rfl
      omega
    · have hl := congrArg String.toList he
      rw [toList_chunkKey hone, toList_chunkKey hone'] at hl
      obtain ⟨hkey, hindex, hcount⟩ := keyText_inj hlength (dash_not_mem_fourDigits _)
        (dash_not_mem_fourDigits _) hl
      exact ⟨String.toList_inj.mp hkey, fourDigits_inj (String.toList_inj.mp hcount),
        .inr (Nat.succ.inj (fourDigits_inj (String.toList_inj.mp hindex)))⟩

/-- The default key gives the repository and the ids, unless SHA-256 collides. -/
theorem key_inj (h : p.idempotencyKey = none) (h' : p'.idempotencyKey = none)
    (hc : NoCollision X (canonicalBytes X p.keyValue) (canonicalBytes X p'.keyValue))
    (he : p.key X = p'.key X) : p.repoId = p'.repoId ∧ p.objectIds = p'.objectIds := by
  have hcanonical : ∀ p : ClientPush, canonicalJson p.keyValue = p.keyValue := by
    intro p
    refine (canonicalJson_obj_of_sorted _ ?_).trans ?_
    · exact (by decide : ["object_ids", "repo_id"].Pairwise (· ≤ ·))
    · apply Value.ext_tree
      simp [keyValue, Value.obj_tree, canonicalJson_arr, Function.comp_def]
  rw [key, h, key, h'] at he
  have hbytes := hashText_inj hc he
  rw [canonicalBytes_eq_iff, hcanonical, hcanonical] at hbytes
  have ht := congrArg Value.tree hbytes
  simp only [keyValue, Value.obj_tree, List.map_cons, List.map_nil, Json.obj.injEq,
    List.cons.injEq, Prod.mk.injEq, true_and, and_true] at ht
  obtain ⟨hids, hrepo⟩ := ht
  exact ⟨Value.str_inj (Value.ext_tree hrepo), arr_str_inj hids⟩

end Keys

end ClientPush

/-! ## Pushes with default keys -/

/-- Pushes with default keys of accepted objects in chunks that are not too long, that agree
    on the texts of their objects, and whose keys SHA-256 tells apart. -/
structure DefaultKeys (X : Crates) (policy : Policy) (axum : Axum) (C : ClientPush → Prop) :
    Prop where
  default : ∀ p, C p → p.idempotencyKey = none
  accepted : ∀ p, C p → ∀ object ∈ p.objects, Accepted X policy p.repoId object
  nodup : ∀ p, C p → p.objectIds.Nodup
  fits : ∀ request, SentBy X C request →
    (pushRequestFormat.bytes X request).length ≤ axum.bodyLimit
  envelopes : OneEnvelopeEach X (SentBy X C)
  keys : ∀ p p', C p → C p' →
    NoCollision X (canonicalBytes X p.keyValue) (canonicalBytes X p'.keyValue)
  chunkKeys : ∀ request request', SentBy X C request → SentBy X C request' →
    NoCollision X (utf8 request.idempotencyKey) (utf8 request'.idempotencyKey)

/-- Two pushes cut the same objects into as many chunks, more than one, of different sizes. -/
structure Clash (p p' : ClientPush) : Prop where
  repoId : p.repoId = p'.repoId
  ids : p.objectIds = p'.objectIds
  count : p.chunkCount = p'.chunkCount
  several : 2 ≤ p.chunkCount
  sizes : p.size ≠ p'.size

theorem Clash.symm {p p' : ClientPush} (h : Clash p p') : Clash p' p :=
  ⟨h.repoId.symm, h.ids.symm, h.count.symm, h.count ▸ h.several, h.sizes.symm⟩

section DefaultKeys

variable {X : Crates} {policy : Policy} {C : ClientPush → Prop} {remote : Remote fileOps}
  {axum : Axum} {p p' : ClientPush} {i i' : Nat}

namespace ClientPush

theorem length_objectIds (p : ClientPush) : p.objectIds.length = p.objects.length :=
  List.length_map _

/-- The only chunk has all the objects. -/
theorem chunk_of_one (h : p.chunkCount = 1) (hi : i * p.size < p.objects.length) :
    p.chunk i = p.objects := by
  have hfits : p.objects.length ≤ p.size := by
    have hle : p.objects.length ⌈/⌉ p.size ≤ 1 := (le_max_left _ _).trans h.le
    exact ((ceilDiv_le_iff_le_mul p.size_pos).mp hle).trans (Nat.mul_one _).le
  have hzero : i = 0 := by
    by_contra hne
    have hone : p.size ≤ i * p.size := Nat.le_mul_of_pos_left _ (Nat.pos_of_ne_zero hne)
    omega
  rw [chunk, hzero, Nat.zero_mul, List.drop_zero, List.take_of_length_le hfits]

/-- What several chunks say about the length. -/
theorem size_lt_length (h : 2 ≤ p.chunkCount) : p.size < p.objects.length := by
  by_contra hn
  have hle : p.objects.length ⌈/⌉ p.size ≤ 1 :=
    (ceilDiv_le_iff_le_mul p.size_pos).mpr (by rw [Nat.mul_one]; exact not_lt.mp hn)
  have hone : p.chunkCount ≤ 1 := max_le hle le_rfl
  omega

end ClientPush

/-- The paths of the records of two requests are the same for two chunks of the same
    default key. -/
theorem DefaultKeys.same_chunk (h : DefaultKeys X policy axum C) (hp : C p) (hp' : C p')
    (hi : i * p.size < p.objects.length) (hi' : i' * p'.size < p'.objects.length)
    (he : idempotencyPath X p.repoId (p.chunkKey X i) =
      idempotencyPath X p'.repoId (p'.chunkKey X i')) :
    p.repoId = p'.repoId ∧ p.objectIds = p'.objectIds ∧ p.chunkCount = p'.chunkCount ∧
      (p.chunkCount = 1 ∨ i = i') := by
  have hcollision := h.chunkKeys _ _ ⟨p, hp, ClientPush.mem_requests.mpr ⟨i, hi, rfl⟩⟩
    ⟨p', hp', ClientPush.mem_requests.mpr ⟨i', hi', rfl⟩⟩
  have hkey := keyHash_inj hcollision (idempotencyPath_inj he).2
  obtain ⟨hbase, hcount, hindex⟩ :=
    ClientPush.chunkKey_inj (h.default p hp) (h.default p' hp') hkey
  obtain ⟨hrepo, hids⟩ :=
    ClientPush.key_inj (h.default p hp) (h.default p' hp') (h.keys p p' hp hp') hbase
  exact ⟨hrepo, hids, hcount, hindex⟩

/-- Without a clash, requests under one key carry the same ids. -/
theorem DefaultKeys.oneBundle (h : DefaultKeys X policy axum C)
    (hclash : ∀ p p', C p → C p' → ¬ Clash p p') : OneBundleEach X (SentBy X C) := by
  rintro request request' ⟨p, hp, hr⟩ ⟨p', hp', hr'⟩ he object ho
  obtain ⟨i, hi, rfl⟩ := ClientPush.mem_requests.mp hr
  obtain ⟨i', hi', rfl⟩ := ClientPush.mem_requests.mp hr'
  obtain ⟨hrepo, hids, hcount, hindex⟩ := h.same_chunk hp hp' hi hi' he
  have hchunks : (p.chunk i).map CanonicalObject.objectId =
      (p'.chunk i').map CanonicalObject.objectId := by
    rcases hindex with hone | rfl
    · rw [ClientPush.chunk_of_one hone hi, ClientPush.chunk_of_one (hcount ▸ hone) hi']
      exact hids
    · by_cases hone : p.chunkCount = 1
      · rw [ClientPush.chunk_of_one hone hi, ClientPush.chunk_of_one (hcount ▸ hone) hi']
        exact hids
      · have hpos : 1 ≤ p.chunkCount := le_max_right _ _
        have hsize : p.size = p'.size := by
          by_contra hne
          exact hclash p p' hp hp' ⟨hrepo, hids, hcount, by omega, hne⟩
        rw [ClientPush.ids_chunk, ClientPush.ids_chunk, hids, hsize]
  have hmem : object.objectId ∈ (p'.chunk i').map CanonicalObject.objectId :=
    hchunks ▸ List.mem_map_of_mem ho
  exact List.mem_map.mp hmem

/-- A push under a free key succeeds and leaves its own alone. -/
theorem run_push_free {P : BundlePushRequest → Prop} {request : BundlePushRequest} {s : Files}
    (hX : ReadsBack X) (hP : OneEnvelopeEach X P) (hr : P request)
    (haccepted : ∀ object ∈ request.objects, Accepted X policy request.repoId object)
    (hs : Filed X P s)
    (hrec : s[idempotencyPath X request.repoId request.idempotencyKey]? = none) :
    ∃ report s', (FileRelayStore.pushBundle X policy request).run Files.exec s = (.ok report, s') ∧
      Filed X P s' ∧ Grows (PutBy X request) s s' ∧
      s'[idempotencyPath X request.repoId request.idempotencyKey]? =
        some (recordBytes X report) := by
  obtain ⟨validation, hv⟩ := bundleValidationReport_of_accepted haccepted
  have hfree : ∀ object ∈ request.objects, Unopposed X request.repoId s object := by
    intro object ho
    obtain ⟨hex, hd⟩ := objectDigits_of_valid (haccepted object ho).valid
    exact ⟨_, objectPath_eq hd, fun bytes hb => hs.eq_object hP hr ho (objectPath_eq hd) hb⟩
  obtain ⟨report, s₁, -, -, hrun⟩ := run_push_stored hv hrec hfree
  have hsound : Safe X P (FileRelayStore.pushBundle X policy request) (PushDone X P request) [] s :=
    safe_pushBundle hX hP hr hs
  obtain ⟨t, hdone⟩ := Prog.run_sound fileStep_exec Keeps.refl hsound
  have hputs := (push_effect (Prog.runs_run fileStep_exec
    (FileRelayStore.pushBundle X policy request) s)).puts
  rw [hrun] at hdone hputs
  refine ⟨report, _, hrun, hdone.1, hputs.mono fun _ _ h => h.2, ?_⟩
  rw [getElem?_insert_eq, if_pos rfl]

/-- The loop over requests under free keys. -/
theorem run_pushChunks_free {P : BundlePushRequest → Prop} {rs : List BundlePushRequest}
    {s : Files} (hX : ReadsBack X) (hP : OneEnvelopeEach X P)
    (hrs : ∀ request ∈ rs, P request ∧
      Reaches X remote (fileRelayStore X policy) axum request.repoId ∧
      (pushRequestFormat.bytes X request).length ≤ axum.bodyLimit ∧
      ∀ object ∈ request.objects, Accepted X policy request.repoId object)
    (hs : Filed X P s)
    (hkeys : rs.Pairwise fun r r' => idempotencyPath X r.repoId r.idempotencyKey ≠
      idempotencyPath X r'.repoId r'.idempotencyKey)
    (hrec : ∀ r ∈ rs, s[idempotencyPath X r.repoId r.idempotencyKey]? = none)
    (accepted duplicate : UInt64) (ids : List String) :
    ∃ counts s', (pushChunks (sendPush X remote) accepted duplicate ids rs).run Files.exec s =
      (.ok counts, s') ∧ Grows (fun path bytes => ∃ r ∈ rs, PutBy X r path bytes) s s' := by
  induction rs generalizing s accepted duplicate ids with
  | nil => exact ⟨_, _, rfl, Grows.refl _ _⟩
  | cons r rest ih =>
    obtain ⟨⟨hr, hreach, hfits, haccepted⟩, hrest⟩ := List.forall_mem_cons.mp hrs
    obtain ⟨hfirst, hlater⟩ := List.pairwise_cons.mp hkeys
    obtain ⟨hfree, hfrees⟩ := List.forall_mem_cons.mp hrec
    obtain ⟨report, s₁, hrun, hs₁, hgrows, -⟩ := run_push_free hX hP hr haccepted hs hfree
    have hsend : (sendPush X remote r).run Files.exec s = (.ok report, s₁) := by
      rw [sendPush_eq hX hreach hfits]
      exact (Prog.run_mapFail_ok_iff _ _).mpr hrun
    have hstill : ∀ r' ∈ rest, s₁[idempotencyPath X r'.repoId r'.idempotencyKey]? = none := by
      intro r' hr'
      rw [hgrows.other ?_, hfrees r' hr']
      rintro bytes (⟨object, -, hpath, -⟩ | ⟨report, hpath, -⟩)
      · obtain ⟨hex, -, he⟩ := objectPath_ok hpath
        exact objectFile_ne_idempotencyPath _ _ _ _ he.symm
      · exact hfirst r' hr' hpath.symm
    obtain ⟨counts, s', hloop, hgrows'⟩ := ih hrest hs₁ hlater hstill _ _ _
    refine ⟨counts, s', (Prog.run_bind_ok _ hsend _).trans hloop, ?_⟩
    refine (hgrows.mono fun path bytes h => ⟨r, List.mem_cons_self, h⟩).trans
      (hgrows'.mono fun path bytes ⟨r', hr', h⟩ => ⟨r', List.mem_cons_of_mem _ hr', h⟩)

namespace ClientPush

/-- The first request and the others. -/
theorem requests_cons (h : 0 < p.objects.length) : ∃ rest,
    p.requests X = ⟨p.repoId, p.chunkKey X 0, p.chunk 0⟩ :: rest ∧ ∀ r ∈ rest, ∃ i, 0 < i ∧
      i * p.size < p.objects.length ∧ r = ⟨p.repoId, p.chunkKey X i, p.chunk i⟩ := by
  have hget := getElem?_requests (X := X) (p := p)
  rcases hrequests : p.requests X with _ | ⟨first, rest⟩
  · have hzero := hget 0
    rw [hrequests, List.getElem?_nil, if_pos (by omega)] at hzero
    cases hzero
  · have hfirst := hget 0
    rw [hrequests, if_pos (by omega)] at hfirst
    obtain rfl := Option.some.inj hfirst
    refine ⟨rest, rfl, fun r hr => ?_⟩
    obtain ⟨i, hi⟩ := List.mem_iff_getElem?.mp hr
    have hnext := hget (i + 1)
    rw [hrequests, List.getElem?_cons_succ, hi] at hnext
    split at hnext
    · next hlt => exact ⟨i + 1, Nat.succ_pos i, hlt, Option.some.inj hnext⟩
    · cases hnext

end ClientPush

/-- The chunks of one push have records of their own. -/
theorem DefaultKeys.records_apart (h : DefaultKeys X policy axum C) (hp : C p)
    (hcount : 2 ≤ p.chunkCount) : (p.requests X).Pairwise fun r r' =>
      idempotencyPath X r.repoId r.idempotencyKey ≠
        idempotencyPath X r'.repoId r'.idempotencyKey := by
  rw [List.pairwise_iff_getElem]
  intro n n' hn hn' hlt he
  have hget := fun n => ClientPush.getElem?_requests (X := X) (p := p) n
  have hr := hget n
  have hr' := hget n'
  rw [List.getElem?_eq_getElem hn] at hr
  rw [List.getElem?_eq_getElem hn'] at hr'
  split at hr
  · next hi =>
      split at hr'
      · next hi' =>
          rw [Option.some.inj hr, Option.some.inj hr'] at he
          obtain ⟨-, -, -, hindex⟩ := h.same_chunk hp hp hi hi' he
          omega
      · cases hr'
  · cases hr

/-- The chunks of pushes that clash have the same keys. -/
theorem Clash.chunkKey (h : Clash p p') (hd : p.idempotencyKey = none)
    (hd' : p'.idempotencyKey = none) (i : Nat) : p'.chunkKey X i = p.chunkKey X i := by
  have hvalue : p'.keyValue = p.keyValue := by
    unfold ClientPush.keyValue
    simp only [h.ids, h.repoId]
  have hkey : p'.key X = p.key X := by
    rw [ClientPush.key, hd', ClientPush.key, hd, hvalue]
  rw [ClientPush.chunkKey, ClientPush.chunkKey, hkey, h.count]

/-- The object after the first chunk of the one push, which the first chunk of the other
    has. -/
theorem Clash.lost (h : Clash p p') (hnodup : p.objectIds.Nodup) (hlt : p.size < p'.size) :
    ∃ object ∈ p'.objects,
      (∀ o ∈ p.chunk 0, o.objectId ≠ object.objectId) ∧
      ∀ i, 0 < i → ∀ o ∈ p'.chunk i, o.objectId ≠ object.objectId := by
  have hlength : p'.objects.length = p.objects.length := by
    rw [← p'.length_objectIds, ← h.ids, p.length_objectIds]
  have hsize := p.size_lt_length h.several
  have hindex : p.size < p'.objects.length := hlength ▸ hsize
  have hid : p.objectIds[p.size]? = some (p'.objects[p.size]).objectId := by
    rw [h.ids, ClientPush.objectIds, List.getElem?_map, List.getElem?_eq_getElem hindex]
    rfl
  have hdrop : (p'.objects[p.size]).objectId ∈ p.objectIds.drop p.size := by
    refine List.mem_iff_getElem?.mpr ⟨0, ?_⟩
    rw [List.getElem?_drop, Nat.add_zero, hid]
  have htake : (p'.objects[p.size]).objectId ∈ p.objectIds.take p'.size := by
    refine List.mem_iff_getElem?.mpr ⟨p.size, ?_⟩
    rw [List.getElem?_take_of_lt hlt, hid]
  refine ⟨p'.objects[p.size], List.getElem_mem hindex, ?_, ?_⟩
  · intro o ho he
    have hmem : o.objectId ∈ p.objectIds.take p.size := by
      have := List.mem_map_of_mem (f := CanonicalObject.objectId) ho
      rwa [ClientPush.ids_chunk, Nat.zero_mul, List.drop_zero] at this
    exact List.disjoint_take_drop hnodup le_rfl hmem (he ▸ hdrop)
  · intro i hi o ho he
    have hmem : o.objectId ∈ p.objectIds.drop (i * p'.size) := by
      have := List.mem_map_of_mem (f := CanonicalObject.objectId) ho
      rw [ClientPush.ids_chunk, ← h.ids] at this
      exact List.mem_of_mem_take this
    exact List.disjoint_take_drop hnodup (Nat.le_mul_of_pos_left _ hi) htake (he ▸ hmem)

/-- The requests of a push may be made, arrive and are accepted. -/
theorem DefaultKeys.sent (h : DefaultKeys X policy axum C)
    (hreach : ∀ p, C p → Reaches X remote (fileRelayStore X policy) axum p.repoId) (hp : C p)
    {r : BundlePushRequest} (hr : r ∈ p.requests X) : SentBy X C r ∧
      Reaches X remote (fileRelayStore X policy) axum r.repoId ∧
      (pushRequestFormat.bytes X r).length ≤ axum.bodyLimit ∧
      ∀ object ∈ r.objects, Accepted X policy r.repoId object := by
  have hsent : SentBy X C r := ⟨p, hp, hr⟩
  have hfits := h.fits r hsent
  refine ⟨hsent, ?_⟩
  obtain ⟨i, -, rfl⟩ := ClientPush.mem_requests.mp hr
  exact ⟨hreach p hp, hfits,
    fun object ho => h.accepted p hp object (ClientPush.mem_of_chunk ho)⟩

/-- What is sent under a free key is stored. -/
theorem run_sendPush_free {r : BundlePushRequest} {s : Files} (hX : ReadsBack X)
    (h : DefaultKeys X policy axum C) (hr : SentBy X C r ∧
      Reaches X remote (fileRelayStore X policy) axum r.repoId ∧
      (pushRequestFormat.bytes X r).length ≤ axum.bodyLimit ∧
      ∀ object ∈ r.objects, Accepted X policy r.repoId object)
    (hs : Filed X (SentBy X C) s) (hrec : s[idempotencyPath X r.repoId r.idempotencyKey]? = none) :
    ∃ report s', (sendPush X remote r).run Files.exec s = (.ok report, s') ∧
      Filed X (SentBy X C) s' ∧ Grows (PutBy X r) s s' ∧
      s'[idempotencyPath X r.repoId r.idempotencyKey]? = some (recordBytes X report) := by
  obtain ⟨hsent, hreach, hfits, haccepted⟩ := hr
  obtain ⟨report, s', hrun, hrest⟩ := run_push_free hX h.envelopes hsent haccepted hs hrec
  refine ⟨report, s', ?_, hrest⟩
  rw [sendPush_eq hX hreach hfits]
  exact (Prog.run_mapFail_ok_iff _ _).mpr hrun

/-- After the first chunk of one push, a push that clashes with it returns without one of its
    objects. -/
theorem DefaultKeys.run_clashing (hX : ReadsBack X) (h : DefaultKeys X policy axum C)
    (hreach : ∀ p, C p → Reaches X remote (fileRelayStore X policy) axum p.repoId) (hp : C p)
    (hp' : C p') (hclash : Clash p p') (hlt : p.size < p'.size) :
    ∃ first rest report s₁, p.requests X = first :: rest ∧
      (sendPush X remote first).run Files.exec ∅ = (.ok report, s₁) ∧
      ∃ report' s₂, (working (C := C) X remote ⟨p', hp'⟩).run Files.exec s₁ = (.ok report', s₂) ∧
        ¬ PushStored X p' s₂ := by
  have hlength : p'.objects.length = p.objects.length := by
    rw [← p'.length_objectIds, ← hclash.ids, p.length_objectIds]
  have hsize := p.size_lt_length hclash.several
  obtain ⟨rest, hrequests, -⟩ := ClientPush.requests_cons (X := X) (p := p) (by omega)
  obtain ⟨rest', hrequests', hrest'⟩ := ClientPush.requests_cons (X := X) (p := p') (by omega)
  obtain ⟨hapart, hothers⟩ := List.pairwise_cons.mp
    (hrequests' ▸ h.records_apart hp' (hclash.count ▸ hclash.several))
  have hrecord : idempotencyPath X p'.repoId (p'.chunkKey X 0) =
      idempotencyPath X p.repoId (p.chunkKey X 0) := by
    rw [hclash.chunkKey (h.default p hp) (h.default p' hp'), hclash.repoId]
  -- the first chunk of the one push
  obtain ⟨report, s₁, hfirst, hfiled, hgrows, hreport⟩ := run_sendPush_free (s := ∅) hX h
    (h.sent hreach hp (hrequests ▸ List.mem_cons_self)) filed_empty Std.ExtTreeMap.getElem?_empty
  -- the first chunk of the other is answered from its record
  have hreplayed : (sendPush X remote ⟨p'.repoId, p'.chunkKey X 0, p'.chunk 0⟩).run Files.exec s₁ =
      (.ok report, s₁) := by
    obtain ⟨-, hreach', hfits, haccepted⟩ := h.sent hreach hp'
      (hrequests' ▸ List.mem_cons_self : (⟨p'.repoId, p'.chunkKey X 0, p'.chunk 0⟩ :
        BundlePushRequest) ∈ p'.requests X)
    obtain ⟨validation, hv⟩ := bundleValidationReport_of_accepted haccepted
    rw [sendPush_eq hX hreach' hfits]
    refine (Prog.run_mapFail_ok_iff _ _).mpr ?_
    have hrun := run_push_replayed hv (hrecord.symm ▸ hreport)
    rwa [reportFromSlice_recordBytes hX] at hrun
  -- the others are stored
  have hfree : ∀ r ∈ rest', s₁[idempotencyPath X r.repoId r.idempotencyKey]? = none := by
    intro r hr
    rw [hgrows.other ?_, Std.ExtTreeMap.getElem?_empty]
    rintro bytes (⟨object, -, hpath, -⟩ | ⟨report, hpath, -⟩)
    · obtain ⟨hex, -, he⟩ := objectPath_ok hpath
      exact objectFile_ne_idempotencyPath _ _ _ _ he.symm
    · exact hapart r hr (hrecord.trans hpath.symm)
  obtain ⟨counts, s₂, hloop, hgrows'⟩ := run_pushChunks_free hX h.envelopes
    (fun r hr => h.sent hreach hp' (hrequests' ▸ List.mem_cons_of_mem _ hr)) hfiled hothers hfree
    (0 + report.acceptedObjectCount) (0 + report.duplicateObjectCount) ([] ++ report.objectIds)
  have hreturned : ∃ report', (working (C := C) X remote ⟨p', hp'⟩).run Files.exec s₁ =
      (.ok report', s₂) := by
    have hchunks : (pushChunks (sendPush X remote) 0 0 [] (p'.requests X)).run Files.exec s₁ =
        (.ok counts, s₂) := by
      rw [hrequests']
      exact (Prog.run_bind_ok _ hreplayed _).trans hloop
    unfold working pushObjects
    rw [Prog.run_bind_ok _ hchunks]
    exact ⟨_, rfl⟩
  obtain ⟨report', hreturned⟩ := hreturned
  refine ⟨_, rest, report, s₁, hrequests, hfirst, report', s₂, hreturned, fun hstored => ?_⟩
  -- neither has the object that lies between the two sizes
  obtain ⟨object, ho, hmissing, hmissing'⟩ := hclash.lost (h.nodup p hp) hlt
  obtain ⟨hex, hd⟩ := objectDigits_of_valid (h.accepted p' hp' object ho).valid
  have hpath : objectPath X p'.repoId object.objectId = .ok _ := objectPath_eq hd
  have hnone : s₂[objectFile X p'.repoId hex]? = none := by
    rw [hgrows'.other ?_, hgrows.other ?_, Std.ExtTreeMap.getElem?_empty]
    · rintro bytes (⟨o, ho', hpath', -⟩ | ⟨report, hpath', -⟩)
      · exact hmissing o ho' (objectPath_inj hpath' (hclash.repoId ▸ hpath))
      · exact objectFile_ne_idempotencyPath _ _ _ _ hpath'
    · rintro bytes ⟨r, hr, hput⟩
      obtain ⟨i, hpos, -, rfl⟩ := hrest' r hr
      rcases hput with ⟨o, ho', hpath', -⟩ | ⟨report, hpath', -⟩
      · exact hmissing' i hpos o ho' (objectPath_inj hpath' hpath)
      · exact objectFile_ne_idempotencyPath _ _ _ _ hpath'
  have hbytes := hstored object ho
  rw [storedBytes_eq hpath, hnone] at hbytes
  cases hbytes

/-- When two pushes clash, the one with the larger chunks can return without an object that
    the other, stopped after its first chunk, had not sent. -/
theorem DefaultKeys.loses (hX : ReadsBack X) (h : DefaultKeys X policy axum C)
    (hreach : ∀ p, C p → Reaches X remote (fileRelayStore X policy) axum p.repoId) (hp : C p)
    (hp' : C p') (hclash : Clash p p') (hlt : p.size < p'.size) :
    ∃ c : Clients C, Pool.Reach FileStep (working X remote) (fun _ _ => True) (Pool.idle ∅) c ∧
      ¬ Delivered X c := by
  obtain ⟨first, rest, report, s₁, hrequests, hfirst, report', s₂, hsecond, hlost⟩ :=
    h.run_clashing hX hreach hp hp' hclash hlt
  let i : Subtype C := ⟨p, hp⟩
  let i' : Subtype C := ⟨p', hp'⟩
  have hworking : ∃ f, working X remote i = sendPush X remote first >>= f := by
    unfold working pushObjects
    rw [hrequests]
    exact ⟨_, Prog.bind_assoc _ _ _⟩
  obtain ⟨f, hf⟩ := hworking
  obtain ⟨t, hpart⟩ := Pool.reach_part fileStep_exec (working X remote) (sendPush X remote first) f
    [] i [] ∅
  rw [← hf, hfirst] at hpart
  obtain ⟨t', hwhole⟩ := Pool.reach_part fileStep_exec (working X remote) (working X remote i')
    pure [⟨i, t, .ret report >>= f⟩] i' [] s₁
  rw [Prog.bind_pure, Prog.bind_pure, hsecond] at hwhole
  refine ⟨_, .head (.start i trivial) (hpart.trans (.head (.start i' trivial) hwhole)), ?_⟩
  intro hdelivered
  exact hlost (hdelivered _ (List.mem_append_right _ (List.mem_singleton_self _)) report' rfl)

/-- A server that takes bodies as long as the first chunk of a push. -/
def snugAxum (X : Crates) (p : ClientPush) : Axum where
  bodyLimit := (pushRequestFormat.bytes X ⟨p.repoId, p.chunkKey X 0, p.chunk 0⟩).length
  rejection _ := ⟨413, []⟩
  unrouted _ := ⟨404, []⟩

/-- One push of one object. -/
theorem defaultKeys_one {object : CanonicalObject} (hd : p.idempotencyKey = none)
    (hobjects : p.objects = [object]) (haccepted : Accepted X policy p.repoId object) :
    DefaultKeys X policy (snugAxum X p) (· = p) := by
  have honly : ∀ r, SentBy X (· = p) r → r = ⟨p.repoId, p.chunkKey X 0, p.chunk 0⟩ := by
    rintro r ⟨q, hq, hr⟩
    rw [show q = p from hq] at hr
    obtain ⟨i, hi, rfl⟩ := ClientPush.mem_requests.mp hr
    rw [hobjects, List.length_singleton] at hi
    have hpos := p.size_pos
    obtain rfl : i = 0 := by
      by_contra hne
      have hle : p.size ≤ i * p.size := Nat.le_mul_of_pos_left _ (Nat.pos_of_ne_zero hne)
      omega
    rfl
  have hchunk : ∀ r, SentBy X (· = p) r → ∀ o ∈ r.objects, o = object := by
    intro r hr o ho
    rw [honly r hr] at ho
    have hmem := ClientPush.mem_of_chunk ho
    rwa [hobjects, List.mem_singleton] at hmem
  refine ⟨?_, ?_, ?_, ?_, ?_, ?_, ?_⟩
  · rintro _ rfl
    exact hd
  · rintro _ rfl o ho
    rw [hobjects, List.mem_singleton] at ho
    exact ho ▸ haccepted
  · rintro _ rfl
    rw [ClientPush.objectIds, hobjects]
    exact List.nodup_singleton _
  · intro r hr
    rw [honly r hr]
    exact le_rfl
  · rintro r r' hr hr' - o ho o' ho' -
    rw [hchunk r hr o ho, hchunk r' hr' o' ho']
  · rintro _ _ rfl rfl -
    rfl
  · rintro r r' hr hr' -
    rw [honly r hr, honly r' hr']

end DefaultKeys

/-- A client of a relay that runs at the root of its host. -/
theorem reaches_root {X : Crates} {store : RelayStore fileOps} {axum : Axum} {repoId : String}
    (hid : ensureSafeRepoId repoId = .ok ()) (hdot : repoId ≠ ".") (hdots : repoId ≠ "..")
    (hrejects : ∀ request rejected,
      errorForStatus rejected (axum.rejection request) = .error rejected) :
    Reaches X ⟨fun _ => true, [], served X store axum none, "https://relay.example/", none, none⟩
      store axum repoId where
  arrives call := by
    have hmount : Url.requestPath (fun _ => true)
        ((trimEndSlashes "https://relay.example/").toList ++ ['/']) = some ([] ++ [[]]) := by
      decide +kernel
    exact arrives_of_mount call (by simp) hid hmount hdot hdots
  served := ⟨none, rfl, .inl rfl⟩
  rejects := hrejects

/-- A push of one object with its default key. -/
def nullClient : ClientPush := ⟨"repo", none, 20, nullPush.objects⟩

/-- A relay over files, without a token, that takes bodies as long as that push. -/
def nullRemote : Remote fileOps where
  accepts _ := true
  mount := []
  server := served .reference (fileRelayStore .reference ⟨false, []⟩)
    (snugAxum .reference nullClient) none
  baseUrl := "https://relay.example/"
  explicitToken := none
  envToken := none

section Sizes

variable {X : Crates} {policy : Policy} {C : ClientPush → Prop} {remote : Remote fileOps}
  {axum : Axum} {p p' : ClientPush}

/-- Sizes that differ by a factor of two or more never clash. -/
theorem not_clash_of_sizes (hlt : p.size < p'.size → 2 * p.size ≤ p'.size)
    (hlt' : p'.size < p.size → 2 * p'.size ≤ p.size) : ¬ Clash p p' := by
  intro hclash
  have hcount : ∀ q : ClientPush, 2 ≤ q.chunkCount →
      q.chunkCount = q.objectIds.length ⌈/⌉ q.size := by
    intro q hq
    rw [q.length_objectIds]
    rw [ClientPush.chunkCount] at hq ⊢
    omega
  have hp := hcount p hclash.several
  have hp' := hcount p' (hclash.count ▸ hclash.several)
  rw [← hclash.ids] at hp'
  have hsame : p.objectIds.length ⌈/⌉ p.size = p.objectIds.length ⌈/⌉ p'.size :=
    hp.symm.trans (hclash.count.trans hp')
  have htwo := hclash.several
  rw [hp] at htwo
  rcases lt_or_gt_of_ne hclash.sizes with hless | hless
  · exact absurd ((same_count_iff p.size_pos hless.le).mp ⟨_, hsame, htwo⟩)
      (not_lt.mpr (hlt hless))
  · exact absurd ((same_count_iff p'.size_pos hless.le).mp ⟨_, hsame.symm, hsame ▸ htwo⟩)
      (not_lt.mpr (hlt' hless))

/-- Of any two chunk sizes in use one is at least twice the other: then pushes with default
    keys are safe in every run, whatever they send. -/
theorem sizes_apart_safe (hX : ReadsBack X) (h : DefaultKeys X policy axum C)
    (hreach : ∀ p, C p → Reaches X remote (fileRelayStore X policy) axum p.repoId)
    (hsizes : ∀ p p', C p → C p' → p.size < p'.size → 2 * p.size ≤ p'.size) (c : Clients C)
    (hc : Pool.Reach FileStep (working X remote) (fun _ _ => True) (Pool.idle ∅) c) :
    Delivered X c :=
  chunked_safe hX h.envelopes (h.oneBundle fun p p' hp hp' =>
    not_clash_of_sizes (hsizes p p' hp hp') (hsizes p' p hp' hp)) hreach c hc

end Sizes

end RickydataGit.Relay
