/-
  Programs whose process is killed.

  The end may come between two operations or amid one, which has then done a part of its
  work: `torn` says which parts there are. `Killed` relates the store before to the store
  that is left. What was done before the end is a run of `step`, so what is known of runs
  serves here too: `killed_bind`. A run to the end is killed behind its last operation
  (`killed_of_runs`).
-/
import RickydataGit.Lib.Prog

namespace RickydataGit.Lib

namespace Prog

variable {O : Ops} {ε α β σ : Type} {step : σ → (o : O.Op) → O.Ans o → σ → Prop}
  {torn : σ → O.Op → σ → Prop} {s s' : σ}

/-- What is left when the process ends on the way. -/
def Killed (step : σ → (o : O.Op) → O.Ans o → σ → Prop) (torn : σ → O.Op → σ → Prop) :
    Prog O ε α → σ → σ → Prop
  | .ret _, s, s' => s' = s
  | .fail _, s, s' => s' = s
  | .op o k, s, s' =>
      s' = s ∨ torn s o s' ∨ ∃ a s₁, step s o a s₁ ∧ (k a).Killed step torn s₁ s'

theorem killed_of_runs {p : Prog O ε α} {r : Except ε α} (h : p.Runs step s r s') :
    p.Killed step torn s s' := by
  induction p generalizing s with
  | ret a => exact h.2
  | fail e => exact h.2
  | op o k ih =>
    obtain ⟨a, s₁, hs, hk⟩ := h
    exact .inr (.inr ⟨a, s₁, hs, ih a hk⟩)

theorem killed_refl (p : Prog O ε α) (s : σ) : p.Killed step torn s s := by
  cases p with
  | ret a => rfl
  | fail e => rfl
  | op o k => exact .inl rfl

theorem killed_left {p : Prog O ε α} (h : p.Killed step torn s s') (f : α → Prog O ε β) :
    (p >>= f).Killed step torn s s' := by
  induction p generalizing s with
  | ret a =>
    rw [show s' = s from h]
    exact killed_refl (f a) s
  | fail e => exact h
  | op o k ih =>
    rcases h with rfl | htorn | ⟨a, s₁, hs, hk⟩
    · exact .inl rfl
    · exact .inr (.inl htorn)
    · exact .inr (.inr ⟨a, s₁, hs, ih a hk⟩)

theorem killed_right {p : Prog O ε α} {f : α → Prog O ε β} {s₁ : σ} {a : α}
    (hp : p.Runs step s (.ok a) s₁) (hf : (f a).Killed step torn s₁ s') :
    (p >>= f).Killed step torn s s' := by
  induction p generalizing s with
  | ret b =>
    obtain ⟨hb, rfl⟩ := hp
    rw [Except.ok.inj hb] at hf
    exact hf
  | fail e => cases hp.1
  | op o k ih =>
    obtain ⟨b, s₂, hs, hk⟩ := hp
    exact .inr (.inr ⟨b, s₂, hs, ih b hk⟩)

/-- The end came in the first part, or that was completed. -/
theorem killed_bind {p : Prog O ε α} {f : α → Prog O ε β}
    (h : (p >>= f).Killed step torn s s') :
    p.Killed step torn s s' ∨ ∃ a s₁, p.Runs step s (.ok a) s₁ ∧ (f a).Killed step torn s₁ s' := by
  induction p generalizing s with
  | ret a => exact .inr ⟨a, s, ⟨rfl, rfl⟩, h⟩
  | fail e => exact .inl h
  | op o k ih =>
    rcases h with rfl | htorn | ⟨a, s₁, hs, hk⟩
    · exact .inl (.inl rfl)
    · exact .inl (.inr (.inl htorn))
    · rcases ih a hk with hp | ⟨a', s₂, hp, hf⟩
      · exact .inl (.inr (.inr ⟨a, s₁, hs, hp⟩))
      · exact .inr ⟨a', s₂, ⟨a, s₁, hs, hp⟩, hf⟩

/-- What every operation keeps, done or torn, is kept. -/
theorem killed_frame {P : O.Op → Prop} {I : σ → Prop}
    (hstep : ∀ o, P o → ∀ s a s', I s → step s o a s' → I s')
    (htorn : ∀ o, P o → ∀ s s', I s → torn s o s' → I s') {p : Prog O ε α} (hp : p.Every P)
    (hs : I s) (h : p.Killed step torn s s') : I s' := by
  induction p generalizing s with
  | ret a => exact h ▸ hs
  | fail e => exact h ▸ hs
  | op o k ih =>
    rcases h with rfl | ht | ⟨a, s₁, hstep', hk⟩
    · exact hs
    · exact htorn o hp.1 _ _ hs ht
    · exact ih a (hp.2 a) (hstep o hp.1 _ _ _ hs hstep') hk

end Prog

end RickydataGit.Lib
