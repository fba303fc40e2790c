/-
  Rules for programs that run alone.

  `Visits` are the stores a run passes through. `Ensures exec I R p Q s` says of the
  run of `p` from `s`: if every store on the way satisfies `I`, the run ends in a store
  that is `R` to the first, whatever its result, and in `Q` of its result when it
  succeeds. The assumption `I` is for what no single operation can establish, such as
  that no hashes collide. The relation `R` is for what every operation keeps.

  There is one rule for each way to build a program (`ensures_ret`, `ensures_fail`,
  `ensures_ofExcept`, `Ensures.op`, `Ensures.bind`, `Ensures.mapFail`, `Ensures.attempt`).
-/
import Mathlib.Order.Defs.Unbundled
import RickydataGit.Lib.Prog

namespace RickydataGit.Lib.Prog

variable {O : Ops} {ε α β σ : Type} {exec : (o : O.Op) → σ → O.Ans o × σ}

/-- The stores a run passes through, the first and the last one included. -/
def Visits (exec : (o : O.Op) → σ → O.Ans o × σ) : Prog O ε α → σ → σ → Prop
  | .ret _, s, u => u = s
  | .fail _, s, u => u = s
  | .op o k, s, u => u = s ∨ (k (exec o s).1).Visits exec (exec o s).2 u

theorem visits_first (p : Prog O ε α) (s : σ) : p.Visits exec s s := by
  cases p with
  | ret a => rfl
  | fail e => rfl
  | op o k => exact .inl rfl

theorem visits_last (p : Prog O ε α) (s : σ) : p.Visits exec s (p.run exec s).2 := by
  induction p generalizing s with
  | ret a => rfl
  | fail e => rfl
  | op o k ih => exact .inr (ih _ _)

theorem visits_bind {p : Prog O ε α} {f : α → Prog O ε β} {s u : σ} (h : p.Visits exec s u) :
    (p >>= f).Visits exec s u := by
  induction p generalizing s with
  | ret a =>
    obtain rfl : u = s := h
    exact visits_first (f a) u
  | fail e => exact h
  | op o k ih =>
    rcases h with rfl | h
    · exact .inl rfl
    · exact .inr (ih _ h)

theorem visits_bind_ok {p : Prog O ε α} {f : α → Prog O ε β} {s t u : σ} {a : α}
    (hrun : p.run exec s = (.ok a, t)) (h : (f a).Visits exec t u) :
    (p >>= f).Visits exec s u := by
  induction p generalizing s with
  | ret b =>
    obtain ⟨hb, rfl⟩ := Prod.mk.inj hrun
    obtain rfl := Except.ok.inj hb
    exact h
  | fail e => cases congrArg Prod.fst hrun
  | op o k ih => exact .inr (ih _ hrun)

/-- The stores of a bind are those of its first part, and of what follows that. -/
theorem visits_bind_cases {p : Prog O ε α} {f : α → Prog O ε β} {s u : σ}
    (h : (p >>= f).Visits exec s u) :
    p.Visits exec s u ∨ ∃ a t, p.run exec s = (.ok a, t) ∧ (f a).Visits exec t u := by
  induction p generalizing s with
  | ret a => exact .inr ⟨a, s, rfl, h⟩
  | fail e => exact .inl h
  | op o k ih =>
    rcases h with rfl | h
    · exact .inl (.inl rfl)
    · rcases ih _ h with hp | hf
      · exact .inl (.inr hp)
      · exact .inr hf

/-- What every operation of the program keeps holds all the way. -/
theorem visits_frame {P : O.Op → Prop} {I : σ → Prop}
    (h : ∀ o, P o → ∀ s, I s → I (exec o s).2) {p : Prog O ε α} (hp : p.Every P) {s u : σ}
    (hs : I s) (hu : p.Visits exec s u) : I u := by
  induction p generalizing s with
  | ret a =>
    obtain rfl : u = s := hu
    exact hs
  | fail e =>
    obtain rfl : u = s := hu
    exact hs
  | op o k ih =>
    rcases hu with rfl | hu
    · exact hs
    · exact ih _ (hp.2 _) (h o hp.1 s hs) hu

theorem visits_mapFail {ε' : Type} (f : ε → ε') {p : Prog O ε α} {s u : σ} :
    (p.mapFail f).Visits exec s u ↔ p.Visits exec s u := by
  induction p generalizing s with
  | ret a => exact .rfl
  | fail e => exact .rfl
  | op o k ih => exact or_congr .rfl (ih _)

/-- Where every store on the way satisfies `I`, the run ends in a store that is `R` to
    the first, and in `Q` of its result when it succeeds. -/
def Ensures (exec : (o : O.Op) → σ → O.Ans o × σ) (I : σ → Prop) (R : σ → σ → Prop)
    (p : Prog O ε α) (Q : α → σ → Prop) (s : σ) : Prop :=
  (∀ u, p.Visits exec s u → I u) →
    R s (p.run exec s).2 ∧ ∀ a, (p.run exec s).1 = .ok a → Q a (p.run exec s).2

variable {I : σ → Prop} {R : σ → σ → Prop} {Q : α → σ → Prop} {s : σ}

theorem ensures_ret [Std.Refl R] {a : α} (hQ : Q a s) :
    Ensures exec I R (.ret a : Prog O ε α) Q s := by
  refine fun _ => ⟨Std.Refl.refl s, fun b hb => ?_⟩
  obtain rfl := Except.ok.inj hb
  exact hQ

theorem ensures_fail [Std.Refl R] {e : ε} : Ensures exec I R (.fail e : Prog O ε α) Q s :=
  fun _ => ⟨Std.Refl.refl s, fun _ hb => by cases hb⟩

theorem ensures_ofExcept [Std.Refl R] {x : Except ε α} (hQ : ∀ a, x = .ok a → Q a s) :
    Ensures exec I R (liftM x : Prog O ε α) Q s := by
  cases x with
  | ok a => exact ensures_ret (hQ a rfl)
  | error e => exact ensures_fail

theorem Ensures.bind [IsTrans σ R] {W : β → σ → Prop} {p : Prog O ε α} {f : α → Prog O ε β}
    (hp : Ensures exec I R p Q s) (hf : ∀ a t, R s t → Q a t → Ensures exec I R (f a) W t) :
    Ensures exec I R (p >>= f) W s := by
  intro hI
  obtain ⟨hR, hQ⟩ := hp fun u hu => hI u (visits_bind hu)
  rw [run_bind]
  rcases hrun : p.run exec s with ⟨e | a, t⟩
  · rw [hrun] at hR
    exact ⟨hR, fun _ hb => by cases hb⟩
  · rw [hrun] at hR hQ
    obtain ⟨hR', hW⟩ := hf a t hR (hQ a rfl) fun u hu => hI u (visits_bind_ok hrun hu)
    exact ⟨IsTrans.trans _ _ _ hR hR', hW⟩

theorem Ensures.mapFail {ε' : Type} {p : Prog O ε α} (f : ε → ε')
    (h : Ensures exec I R p Q s) : Ensures exec I R (p.mapFail f) Q s := by
  intro hI
  obtain ⟨hR, hQ⟩ := h fun u hu => hI u ((visits_mapFail f).mpr hu)
  rw [run_mapFail]
  refine ⟨hR, fun a ha => hQ a ?_⟩
  rcases hr : (p.run exec s).1 with e | b
  · rw [hr] at ha
    cases ha
  · rw [hr] at ha
    exact congrArg _ (Except.ok.inj ha)

theorem Ensures.op [IsTrans σ R] {o : O.Op} {k : O.Ans o → Prog O ε α} (hR : R s (exec o s).2)
    (hk : Ensures exec I R (k (exec o s).1) Q (exec o s).2) : Ensures exec I R (.op o k) Q s := by
  intro hI
  obtain ⟨hR', hQ⟩ := hk fun u hu => hI u (.inr hu)
  exact ⟨IsTrans.trans _ _ _ hR hR', hQ⟩

theorem visits_attempt {ε' : Type} {p : Prog O ε α} {s u : σ} :
    (p.attempt : Prog O ε' (Except ε α)).Visits exec s u ↔ p.Visits exec s u := by
  induction p generalizing s with
  | ret a => exact .rfl
  | fail e => exact .rfl
  | op o k ih => exact or_congr .rfl (ih _)

theorem Ensures.attempt {ε' : Type} {p : Prog O ε α} (h : Ensures exec I R p Q s) :
    Ensures exec I R (p.attempt : Prog O ε' (Except ε α)) (fun r t => ∀ a, r = .ok a → Q a t) s := by
  intro hI
  obtain ⟨hR, hQ⟩ := h fun u hu => hI u (visits_attempt.mpr hu)
  rw [run_attempt]
  refine ⟨hR, fun r hr a ha => hQ a ?_⟩
  rw [← ha, ← Except.ok.inj hr]

end RickydataGit.Lib.Prog
