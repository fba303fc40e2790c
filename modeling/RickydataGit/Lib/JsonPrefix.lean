/-
  JSON texts that are cut short.

  The reader does not look at what stands behind the value it reads, but for a number,
  which goes on as long as number characters do: `readValue_append`. So two texts of
  objects, one a prefix of the other, are the same text (`read_cut_obj`): what a write
  that was broken off has left of an object is no JSON.
-/
import RickydataGit.Lib.JsonText

namespace RickydataGit.Lib

theorem skipWs_append_of_ne_nil {cs : List Char} (h : skipWs cs ≠ []) (x : List Char) :
    skipWs (cs ++ x) = skipWs cs ++ x := by
  induction cs with
  | nil => exact absurd rfl h
  | cons c cs ih =>
    rcases hc : isWs c with _ | _
    · rw [List.cons_append, skipWs_cons hc, skipWs_cons hc, List.cons_append]
    · have hskip : ∀ t, skipWs (c :: t) = skipWs t := fun t => by simp [skipWs, hc]
      rw [List.cons_append, hskip, hskip]
      rw [hskip] at h
      exact ih h

/-- One character of a string has been read, and the reader goes on. -/
theorem read_next_append {c : Char} {t s r x : List Char}
    (ih : ∀ {s r}, readString t = some (s, r) → readString (t ++ x) = some (s, r ++ x))
    (h : (readString t).map (fun p => (c :: p.1, p.2)) = some (s, r)) :
    (readString (t ++ x)).map (fun p => (c :: p.1, p.2)) = some (s, r ++ x) := by
  obtain ⟨⟨s', r'⟩, ht, he⟩ := Option.map_eq_some_iff.mp h
  obtain ⟨rfl, rfl⟩ := Prod.mk.inj he
  rw [ih ht]
  rfl

theorem readString_append {cs s r : List Char} (h : readString cs = some (s, r))
    (x : List Char) : readString (cs ++ x) = some (s, r ++ x) := by
  fun_induction readString cs generalizing s r with
  | case1 => cases h
  | case2 r' =>
    obtain ⟨rfl, rfl⟩ := Prod.mk.inj (Option.some.inj h)
    rfl
  | case3 a b c d t ih =>
    simp only [Option.bind_eq_bind, Option.bind_eq_some_iff] at h
    obtain ⟨va, ha, vb, hb, vc, hc, vd, hd, h⟩ := h
    split at h
    · next hv =>
        obtain ⟨⟨s', r'⟩, ht, he⟩ := Option.bind_eq_some_iff.mp h
        obtain ⟨rfl, rfl⟩ := Prod.mk.inj (Option.some.inj he)
        simp only [List.cons_append, readString, ha, hb, hc, hd, Option.bind_eq_bind,
          Option.bind_some, if_pos hv, ih ht]
    · cases h
  | case4 c t hno ih =>
    simp only [Option.bind_eq_bind, Option.bind_eq_some_iff] at h
    obtain ⟨e, he, p, hp, h⟩ := h
    obtain ⟨rfl, rfl⟩ := Prod.mk.inj (Option.some.inj h)
    -- an escape with a letter is not the one with digits
    have hu : c ≠ 'u' := by
      rintro rfl
      have hnone : unescape 'u' = none := by decide
      rw [hnone] at he
      cases he
    rw [List.cons_append, List.cons_append, readString_letter hu he, ih hp]
    rfl
  | case5 => cases h
  | case6 => cases h
  | case7 c t hq hu hb hlone hc ih =>
    have hslash : c ≠ '\\' := by
      rintro rfl
      cases t with
      | nil => exact hlone rfl rfl
      | cons d t => exact hb d t rfl rfl
    rw [List.cons_append, readString_plain hq hslash hc]
    exact read_next_append ih h

namespace Json

variable {N : Type} {C : NumText N}

theorem readKey_append {cs r : List Char} {k : String} (h : readKey cs = some (k, r))
    (hr : r ≠ []) (x : List Char) : readKey (cs ++ x) = some (k, r ++ x) := by
  unfold readKey at h
  split at h
  · next t =>
      split at h
      · next s t' hs =>
          split at h
          · next u hu =>
              obtain ⟨rfl, rfl⟩ := Prod.mk.inj (Option.some.inj h)
              have hcolon : skipWs (t' ++ x) = ':' :: (u ++ x) := by
                rw [skipWs_append_of_ne_nil (by rw [hu]; nofun), hu, List.cons_append]
              simp only [List.cons_append, readKey, readString_append hs, hcolon,
                skipWs_append_of_ne_nil hr]
          · cases h
      · cases h
  · cases h

theorem readValue_nil (hC : C.read [] = none) (n : Nat) : readValue C n [] = none := by
  cases n with
  | zero => rw [readValue]
  | succ n => simp [readValue, hC]

theorem readElems_nil (hC : C.read [] = none) (n : Nat) : readElems C n [] = none := by
  cases n with
  | zero => rw [readElems]
  | succ n => rw [readElems, readValue_nil hC]

theorem readMembers_nil (n : Nat) : readMembers C n [] = none := by
  cases n with
  | zero => rw [readMembers]
  | succ n => simp [readMembers, readKey]

/-- The value ends where it was read to, whatever follows. -/
def Ended : Json N → List Char → Prop
  | .num _, r => r ≠ []
  | _, _ => True

theorem ended_of_ne_nil (v : Json N) {r : List Char} (h : r ≠ []) : Ended v r := by
  cases v with
  | num n => exact h
  | _ => trivial

/-- More text behind what is read, and more fuel, change nothing. -/
structure Extends (C : NumText N) (x : List Char) (n : Nat) : Prop where
  value : ∀ {cs v r m}, n ≤ m → readValue C n cs = some (v, r) → Ended v r →
    readValue C m (cs ++ x) = some (v, r ++ x)
  elems : ∀ {cs vs r m}, n ≤ m → readElems C n cs = some (vs, r) →
    readElems C m (cs ++ x) = some (vs, r ++ x)
  members : ∀ {cs ms r m}, n ≤ m → readMembers C n cs = some (ms, r) →
    readMembers C m (cs ++ x) = some (ms, r ++ x)

/-- What stands behind the number characters starts with another one. -/
theorem stopsNumber_dropWhile {cs : List Char} (h : cs.dropWhile isNumChar ≠ [])
    (x : List Char) : StopsNumber (cs.dropWhile isNumChar ++ x) := by
  have hhead := List.head?_dropWhile_not isNumChar cs
  cases hd : cs.dropWhile isNumChar with
  | nil => exact absurd hd h
  | cons c t =>
    rw [hd] at hhead
    exact stopsNumber_cons hhead _

theorem readNumber_append {cs r x : List Char} {v : Json N} (m : Nat) (hC : C.read [] = none)
    (h : (C.read (cs.takeWhile isNumChar)).map
      (fun y => ((.num y, cs.dropWhile isNumChar) : Json N × List Char)) = some (v, r))
    (hr : Ended v r) : readValue C (m + 1) (cs ++ x) = some (v, r ++ x) := by
  obtain ⟨y, hy, he⟩ := Option.map_eq_some_iff.mp h
  obtain ⟨rfl, rfl⟩ := Prod.mk.inj he
  obtain ⟨htake, hdrop⟩ := takeWhile_text (t := cs.takeWhile isNumChar)
    (fun c hc => List.mem_takeWhile_imp hc) (stopsNumber_dropWhile hr x)
  rw [← List.append_assoc, List.takeWhile_append_dropWhile] at htake hdrop
  have hread : (C.read ((cs ++ x).takeWhile isNumChar)).map
      (fun y => ((.num y, (cs ++ x).dropWhile isNumChar) : Json N × List Char)) =
      some (.num y, cs.dropWhile isNumChar ++ x) := by
    rw [htake, hdrop, hy]
    rfl
  cases cs with
  | nil =>
    rw [List.takeWhile_nil, hC] at hy
    cases hy
  | cons c t =>
    have hc : isNumChar c = true := by
      by_contra hn
      rw [List.takeWhile_cons_of_neg hn, hC] at hy
      cases hy
    obtain ⟨_, _, _, h1, h2, h3, h4, h5, h6⟩ := not_ws_of_numChar hc
    rw [List.cons_append] at hread ⊢
    rw [readValue]
    · exact hread
    all_goals simp_all

theorem readValue_arr {t : List Char} (h : ∀ u, skipWs t ≠ ']' :: u) (n : Nat) :
    readValue C (n + 1) ('[' :: t) =
      (readElems C n (skipWs t)).map fun p => (.arr p.1, p.2) := by
  rw [readValue]
  split
  · next u hu => exact absurd hu (h u)
  · rfl

theorem readValue_obj {t : List Char} (h : ∀ u, skipWs t ≠ '}' :: u) (n : Nat) :
    readValue C (n + 1) ('{' :: t) =
      (readMembers C n (skipWs t)).map fun p => (.obj p.1, p.2) := by
  rw [readValue]
  split
  · next u hu => exact absurd hu (h u)
  · rfl

/-- A text with something before the bracket has it with more text behind, too. -/
theorem ne_cons_append {cs : List Char} {c : Char} (h : ∀ u, cs ≠ c :: u) (hne : cs ≠ [])
    (x u : List Char) : cs ++ x ≠ c :: u := by
  cases cs with
  | nil => exact absurd rfl hne
  | cons d t =>
    intro he
    exact h t (by rw [(List.cons.inj he).1])

theorem extends_succ (hC : C.read [] = none) {x : List Char} {n : Nat} (ih : Extends C x n) :
    Extends C x (n + 1) where
  value {cs v r m} hm h hr := by
    obtain ⟨m, rfl⟩ : ∃ k, m = k + 1 := ⟨m - 1, by omega⟩
    have hm : n ≤ m := by omega
    unfold readValue at h
    split at h
    · obtain ⟨rfl, rfl⟩ := Prod.mk.inj (Option.some.inj h)
      simp [readValue]
    · obtain ⟨rfl, rfl⟩ := Prod.mk.inj (Option.some.inj h)
      simp [readValue]
    · obtain ⟨rfl, rfl⟩ := Prod.mk.inj (Option.some.inj h)
      simp [readValue]
    · obtain ⟨⟨s, t⟩, hs, he⟩ := Option.map_eq_some_iff.mp h
      obtain ⟨rfl, rfl⟩ := Prod.mk.inj he
      simp [readValue, readString_append hs]
    · next t =>
        split at h
        · next u hu =>
            obtain ⟨rfl, rfl⟩ := Prod.mk.inj (Option.some.inj h)
            have hne : skipWs t ≠ [] := by
              rw [hu]
              exact List.cons_ne_nil _ _
            simp [readValue, skipWs_append_of_ne_nil hne, hu]
        · next hclose =>
            obtain ⟨⟨vs, u⟩, hvs, he⟩ := Option.map_eq_some_iff.mp h
            obtain ⟨rfl, rfl⟩ := Prod.mk.inj he
            have hne : skipWs t ≠ [] := by
              intro hnil
              rw [hnil, readElems_nil hC] at hvs
              cases hvs
            have happ := skipWs_append_of_ne_nil hne x
            rw [List.cons_append, readValue_arr (by rw [happ]; exact ne_cons_append hclose hne x),
              happ, ih.elems hm hvs]
            rfl
    · next t =>
        split at h
        · next u hu =>
            obtain ⟨rfl, rfl⟩ := Prod.mk.inj (Option.some.inj h)
            have hne : skipWs t ≠ [] := by
              rw [hu]
              exact List.cons_ne_nil _ _
            simp [readValue, skipWs_append_of_ne_nil hne, hu]
        · next hclose =>
            obtain ⟨⟨ms, u⟩, hms, he⟩ := Option.map_eq_some_iff.mp h
            obtain ⟨rfl, rfl⟩ := Prod.mk.inj he
            have hne : skipWs t ≠ [] := by
              intro hnil
              rw [hnil, readMembers_nil] at hms
              cases hms
            have happ := skipWs_append_of_ne_nil hne x
            rw [List.cons_append, readValue_obj (by rw [happ]; exact ne_cons_append hclose hne x),
              happ, ih.members hm hms]
            rfl
    · exact readNumber_append m hC h hr
  elems {cs vs r m} hm h := by
    obtain ⟨m, rfl⟩ : ∃ k, m = k + 1 := ⟨m - 1, by omega⟩
    have hm : n ≤ m := by omega
    rw [readElems] at h
    rcases hv : readValue C n cs with _ | ⟨v, t⟩
    · rw [hv] at h
      cases h
    rw [hv] at h
    dsimp only at h
    have ht : skipWs t ≠ [] := by
      intro hnil
      rw [hnil] at h
      cases h
    have hne : t ≠ [] := by
      rintro rfl
      exact ht rfl
    rw [readElems, ih.value hm hv (ended_of_ne_nil v hne)]
    dsimp only
    rw [skipWs_append_of_ne_nil ht]
    split at h
    · next u hu =>
        obtain ⟨rfl, rfl⟩ := Prod.mk.inj (Option.some.inj h)
        rw [hu]
        rfl
    · next u hu =>
        obtain ⟨⟨ws, u'⟩, hws, he⟩ := Option.map_eq_some_iff.mp h
        obtain ⟨rfl, rfl⟩ := Prod.mk.inj he
        have hu' : skipWs u ≠ [] := by
          intro hnil
          rw [hnil, readElems_nil hC] at hws
          cases hws
        rw [hu, List.cons_append]
        show (readElems C m (skipWs (u ++ x))).map _ = _
        rw [skipWs_append_of_ne_nil hu', ih.elems hm hws]
        rfl
    · cases h
  members {cs ms r m} hm h := by
    obtain ⟨m, rfl⟩ : ∃ k, m = k + 1 := ⟨m - 1, by omega⟩
    have hm : n ≤ m := by omega
    rw [readMembers] at h
    rcases hk : readKey cs with _ | ⟨k, q⟩
    · rw [hk] at h
      cases h
    rw [hk] at h
    dsimp only at h
    rcases hv : readValue C n q with _ | ⟨v, t⟩
    · rw [hv] at h
      cases h
    rw [hv] at h
    dsimp only at h
    have hq : q ≠ [] := by
      rintro rfl
      rw [readValue_nil hC] at hv
      cases hv
    have ht : skipWs t ≠ [] := by
      intro hnil
      rw [hnil] at h
      cases h
    have hne : t ≠ [] := by
      rintro rfl
      exact ht rfl
    rw [readMembers, readKey_append hk hq]
    dsimp only
    rw [ih.value hm hv (ended_of_ne_nil v hne)]
    dsimp only
    rw [skipWs_append_of_ne_nil ht]
    split at h
    · next u hu =>
        obtain ⟨rfl, rfl⟩ := Prod.mk.inj (Option.some.inj h)
        rw [hu]
        rfl
    · next u hu =>
        obtain ⟨⟨ws, u'⟩, hws, he⟩ := Option.map_eq_some_iff.mp h
        obtain ⟨rfl, rfl⟩ := Prod.mk.inj he
        have hu' : skipWs u ≠ [] := by
          intro hnil
          rw [hnil, readMembers_nil] at hws
          cases hws
        rw [hu, List.cons_append]
        show (readMembers C m (skipWs (u ++ x))).map _ = _
        rw [skipWs_append_of_ne_nil hu', ih.members hm hws]
        rfl
    · cases h

theorem readValue_append (hC : C.read [] = none) (x : List Char) (n : Nat) : Extends C x n := by
  induction n with
  | zero =>
    exact {
      value := fun _ h => by rw [readValue] at h; cases h
      elems := fun _ h => by rw [readElems] at h; cases h
      members := fun _ h => by rw [readMembers] at h; cases h }
  | succ n ih => exact extends_succ hC ih

/-! ## Broken off texts -/

/-- The text of a number, and no other, starts with a number character. -/
theorem ended_of_readValue {n : Nat} {c : Char} {t r : List Char} {w : Json N}
    (h : readValue C n (c :: t) = some (w, r)) (hc : isNumChar c = false) (hC : C.read [] = none) :
    Ended w r := by
  cases w with
  | num y =>
    cases n with
    | zero => rw [readValue] at h; cases h
    | succ n =>
      unfold readValue at h
      split at h
      · cases h
      · cases h
      · cases h
      · obtain ⟨p, -, he⟩ := Option.map_eq_some_iff.mp h
        cases he
      · split at h
        · cases h
        · obtain ⟨p, -, he⟩ := Option.map_eq_some_iff.mp h
          cases he
      · split at h
        · cases h
        · obtain ⟨p, -, he⟩ := Option.map_eq_some_iff.mp h
          cases he
      · rw [List.takeWhile_cons_of_neg (by simp [hc]), hC] at h
        cases h
  | _ => trivial

theorem print_head {L : Layout} {d : Nat} {v : Json N} (hv : Ended v []) :
    ∃ c t, print C L d v = c :: t ∧ isWs c = false ∧ isNumChar c = false := by
  cases v with
  | num y => exact absurd rfl hv
  | null => exact ⟨_, _, by rw [print], by decide, by decide⟩
  | bool b =>
    cases b with
    | true => exact ⟨_, _, by rw [print], by decide, by decide⟩
    | false => exact ⟨_, _, by rw [print], by decide, by decide⟩
  | str s => exact ⟨_, _, by rw [print, quote], by decide, by decide⟩
  | arr vs =>
    cases vs with
    | nil => exact ⟨_, _, by rw [print], by decide, by decide⟩
    | cons w ws => exact ⟨_, _, by rw [print], by decide, by decide⟩
  | obj ms =>
    cases ms with
    | nil => exact ⟨_, _, by rw [print], by decide, by decide⟩
    | cons w ws => exact ⟨_, _, by rw [print], by decide, by decide⟩

/-- A text that is broken off is no JSON, unless it is that of a number. -/
theorem read_cut {L : Layout} (hC : C.read [] = none) {v : Json N} (hv : Ended v [])
    {p q : List Char} (h : p ++ q = print C L 0 v) (hq : q ≠ []) : read C p = none := by
  obtain ⟨c, t, hprint, hws, hnum⟩ := print_head (C := C) (L := L) (d := 0) hv
  cases p with
  | nil =>
    have hnil : skipWs [] = [] := rfl
    rw [read, hnil, readValue_nil hC]
  | cons c' p =>
    obtain ⟨rfl, rfl⟩ : c' = c ∧ p ++ q = t := by
      rw [hprint, List.cons_append] at h
      exact List.cons.inj h
    rcases hread : readValue C (c' :: p).length (c' :: p) with _ | ⟨w, r⟩
    · rw [read, skipWs_cons hws, hread]
    have hmore := (readValue_append hC q _).value (Nat.le_add_right _ q.length) hread
      (ended_of_readValue hread hnum hC)
    have hwhole := readValue_print (C := C) (L := L) v 0 ((c' :: p).length + q.length) []
      (by rw [← h, List.length_append]) (fun _ hc => by cases hc)
    rw [List.append_nil, ← h, hmore] at hwhole
    obtain ⟨-, hr⟩ := Prod.mk.inj (Option.some.inj hwhole)
    exact absurd (List.append_eq_nil_iff.mp hr).2 hq

end Json

end RickydataGit.Lib
