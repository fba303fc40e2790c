/-
  Calls that all keep to one relation.

  When every call relies on what every other one guarantees, and on nothing else,
  parallel composition needs no compatibility: `Keeping` asks for one preorder of
  stores that each program keeps to and depends on, and for a postcondition that it
  leaves true. `reach_keeping` is the result for whole runs: any number of calls, any
  interleaving, any of them killed.

  The rules above it derive the judgement for a program from its parts.
-/
import RickydataGit.Lib.Pool

namespace RickydataGit.Lib

namespace Prog

variable {O : Ops} {ε α β σ : Type} {step : σ → (o : O.Op) → O.Ans o → σ → Prop}
  {R G : σ → σ → Prop} {Q : List (Event O) → Except ε α → σ → Prop} {t : List (Event O)} {s : σ}

theorem sound_ofExcept {x : Except ε α} (h : Q t x s) :
    (liftM x : Prog O ε α).Sound step R G Q t s := by
  rcases x with e | a
  · exact h
  · exact h

theorem Sound.attempt {ε' : Type} {p : Prog O ε α} (h : p.Sound step R G Q t s) :
    (p.attempt : Prog O ε' (Except ε α)).Sound step R G
      (fun t r s => ∃ x, r = .ok x ∧ Q t x s) t s := by
  induction p generalizing t s with
  | ret a => exact ⟨_, rfl, h⟩
  | fail e => exact ⟨_, rfl, h⟩
  | op o k ih =>
    intro s₁ h₁ a s₂ h₂
    obtain ⟨hg, hk⟩ := h s₁ h₁ a s₂ h₂
    exact ⟨hg, ih a hk⟩

theorem Sound.mapFail {ε' : Type} {f : ε → ε'} {p : Prog O ε α} (h : p.Sound step R G Q t s) :
    (p.mapFail f).Sound step R G (fun t r s => ∃ x, r = x.mapError f ∧ Q t x s) t s := by
  induction p generalizing t s with
  | ret a => exact ⟨.ok a, rfl, h⟩
  | fail e => exact ⟨.error e, rfl, h⟩
  | op o k ih =>
    intro s₁ h₁ a s₂ h₂
    obtain ⟨hg, hk⟩ := h s₁ h₁ a s₂ h₂
    exact ⟨hg, ih a hk⟩

/-- What neither the program nor the others undo still holds at the end. -/
theorem Sound.frame {P : σ → Prop} (hR : ∀ s s', R s s' → P s → P s')
    (hG : ∀ s s', G s s' → P s → P s') {p : Prog O ε α} (h : p.Sound step R G Q t s)
    (hs : P s) : p.Sound step R G (fun t r s => Q t r s ∧ P s) t s := by
  induction p generalizing t s with
  | ret a => exact ⟨h, hs⟩
  | fail e => exact ⟨h, hs⟩
  | op o k ih =>
    intro s₁ h₁ a s₂ h₂
    obtain ⟨hg, hk⟩ := h s₁ h₁ a s₂ h₂
    exact ⟨hg, ih a hk (hG _ _ hg (hR _ _ h₁ hs))⟩

end Prog

namespace Pool

variable {σ : Type} {O : Ops} {ε α ι : Type}

/-- Programs that keep to `Rel` and depend on no more than that others do. `I` is the
    invariant of the store, `Q` what holds of a result from then on. -/
structure Keeping (step : σ → (o : O.Op) → O.Ans o → σ → Prop) (start : ι → Prog O ε α)
    (I : σ → Prop) (Rel : σ → σ → Prop) (Q : ι → Except ε α → σ → Prop) : Prop where
  refl : ∀ s, Rel s s
  trans : ∀ a b c, Rel a b → Rel b c → Rel a c
  inv : ∀ s s', I s → Rel s s' → I s'
  stable : ∀ i r s s', Rel s s' → Q i r s → Q i r s'
  started : ∀ i s, I s → (start i).Sound step Rel Rel (fun _ => Q i) [] s

variable {step : σ → (o : O.Op) → O.Ans o → σ → Prop} {start : ι → Prog O ε α} {I : σ → Prop}
  {Rel : σ → σ → Prop} {Q : ι → Except ε α → σ → Prop}

theorem Keeping.rules (h : Keeping step start I Rel Q) :
    Rules step start (fun _ _ => True) I (fun _ => Rel) (fun _ => Rel) Rel (fun i _ => Q i)
      fun _ _ => True where
  refl _ := h.refl
  trans _ := h.trans
  inv _ := h.inv
  keep _ _ _ hs := hs
  stable i _ := h.stable i
  rely_stable i _ := h.stable i
  rely _ _ _ _ _ hs := hs
  guarded _ _ _ _ _ _ := ⟨trivial, trivial⟩
  started _ i _ hi := h.started i _ hi

/-- In every pool that is reached the invariant holds, the store has changed by the
    relation only, and what is promised of a result holds of those there are. -/
theorem reach_keeping (h : Keeping step start I Rel Q) {s : σ} (hs : I s)
    {c : Pool σ O ε α ι} (hr : Reach step start (fun _ _ => True) (idle s) c) :
    I c.store ∧ Rel s c.store ∧
      ∀ call ∈ c.calls, ∀ a, call.Returned a → Q call.request (.ok a) c.store := by
  have hinv := reach_inv h.rules (inv_idle hs) hr
  exact ⟨hinv.store, reach_keep h.rules h.refl h.trans (inv_idle hs) hr, fun call hcall a ha =>
    reach_returned h.rules (inv_idle hs) hr hcall ha⟩

/-- From one pool to a later one the store has changed by the relation only. -/
theorem reach_keeping_later (h : Keeping step start I Rel Q) {s : σ} (hs : I s)
    {c c' : Pool σ O ε α ι} (hr : Reach step start (fun _ _ => True) (idle s) c)
    (hlater : Reach step start (fun _ _ => True) c c') : Rel c.store c'.store :=
  reach_keep h.rules h.refl h.trans (reach_inv h.rules (inv_idle hs) hr) hlater

/-- The first part of a call may run alone and without faults, beside the calls there are. -/
theorem reach_part {exec : (o : O.Op) → σ → O.Ans o × σ}
    (hexec : ∀ s o, step s o (exec o s).1 (exec o s).2) (start : ι → Prog O ε α) {β : Type}
    (p : Prog O ε β) (f : β → Prog O ε α) (calls : List (Call O ε α ι)) (i : ι)
    (t : List (Prog.Event O)) (s : σ) : ∃ t', Reach step start (fun _ _ => True)
      ⟨s, calls ++ [⟨i, t, p >>= f⟩]⟩
      ⟨(p.run exec s).2, calls ++ [⟨i, t', liftM (p.run exec s).1 >>= f⟩]⟩ := by
  induction p generalizing t s with
  | ret a => exact ⟨t, .refl⟩
  | fail e => exact ⟨t, .refl⟩
  | op o k ih =>
    obtain ⟨t', ht'⟩ := ih (exec o s).1 (t ++ [⟨o, (exec o s).1⟩]) (exec o s).2
    have hlast : (calls ++ [⟨i, t, Prog.op o fun a => k a >>= f⟩])[calls.length]? =
        some ⟨i, t, Prog.op o fun a => k a >>= f⟩ := List.getElem?_concat_length
    have hnext : Next step start (fun _ _ => True)
        ⟨s, calls ++ [⟨i, t, Prog.op o fun a => k a >>= f⟩]⟩ _ :=
      .advance calls.length (exec o s).1 (exec o s).2 hlast (hexec s o)
    rw [List.set_append_right _ _ le_rfl, Nat.sub_self] at hnext
    exact ⟨t', .head hnext ht'⟩

/-- A call that runs alone, without faults, is one of the runs. -/
theorem reach_alone {exec : (o : O.Op) → σ → O.Ans o × σ}
    (hexec : ∀ s o, step s o (exec o s).1 (exec o s).2) (start : ι → Prog O ε α) (i : ι)
    (s : σ) : ∃ t, Reach step start (fun _ _ => True) (idle s)
      ⟨((start i).run exec s).2, [⟨i, t, liftM ((start i).run exec s).1⟩]⟩ := by
  obtain ⟨t, ht⟩ := reach_part hexec start (start i) pure [] i [] s
  rw [Prog.bind_pure, Prog.bind_pure] at ht
  exact ⟨t, .head (.start i trivial) ht⟩

end Pool

end RickydataGit.Lib
