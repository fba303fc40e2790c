/-
  Programs over atomic operations.

  A `Prog O ε α` performs operations of `O` one after another, chooses what to do
  next from the answers, and ends with a result `α` or a failure `ε`. What an
  operation does is left open, so one program has several meanings:

  * `run exec` : a function, every operation executed at once by `exec`;
  * `Runs step` : a relation, every operation answered in a way `step` allows,
    faults included;
  * `Sound step R G Q` : a rely/guarantee judgement for a store that changes
    between the operations. Whatever `step` allows and whatever changes of `R`
    happen in between, the program only makes changes of `G` and ends in `Q`.

  `Every P p` bounds the operations a program can perform, whatever it is
  answered. `agrees_of_every` (stores that agree on those operations cannot be told
  apart), `run_frame` (what the operations keep, the program keeps) and
  `run_sound` (a judgement holds of the function too) are the rules used on top.
-/
import Mathlib

namespace RickydataGit.Lib

/-- Atomic operations, and what each one is answered with. -/
structure Ops where
  Op : Type
  Ans : Op → Type

inductive Prog (O : Ops) (ε α : Type) where
  | ret (a : α)
  | fail (e : ε)
  | op (o : O.Op) (k : O.Ans o → Prog O ε α)

namespace Prog

variable {O : Ops} {ε α β σ : Type}

def bind : Prog O ε α → (α → Prog O ε β) → Prog O ε β
  | .ret a, f => f a
  | .fail e, _ => .fail e
  | .op o k, f => .op o fun a => (k a).bind f

instance : Monad (Prog O ε) where
  pure := .ret
  bind := Prog.bind

/-- One operation, its answer the result. -/
def perform (o : O.Op) : Prog O ε (O.Ans o) := .op o .ret

/-- A pure computation that may fail. -/
def ofExcept : Except ε α → Prog O ε α
  | .ok a => .ret a
  | .error e => .fail e

instance : MonadLift (Except ε) (Prog O ε) := ⟨ofExcept⟩

/-- The program with its failure as a value. -/
def attempt {ε' : Type} : Prog O ε α → Prog O ε' (Except ε α)
  | .ret a => .ret (.ok a)
  | .fail e => .ret (.error e)
  | .op o k => .op o fun a => (k a).attempt

/-- The program with its failure wrapped. -/
def mapFail {ε' : Type} (f : ε → ε') : Prog O ε α → Prog O ε' α
  | .ret a => .ret a
  | .fail e => .fail (f e)
  | .op o k => .op o fun a => (k a).mapFail f

@[simp] theorem pure_eq (a : α) : (pure a : Prog O ε α) = .ret a := rfl

@[simp] theorem ret_bind (a : α) (f : α → Prog O ε β) : (Prog.ret a >>= f) = f a := rfl

@[simp] theorem fail_bind (e : ε) (f : α → Prog O ε β) :
    ((Prog.fail e : Prog O ε α) >>= f) = .fail e := rfl

@[simp] theorem op_bind (o : O.Op) (k : O.Ans o → Prog O ε α) (f : α → Prog O ε β) :
    (Prog.op o k >>= f) = .op o fun a => k a >>= f := rfl

@[simp] theorem perform_bind (o : O.Op) (f : O.Ans o → Prog O ε β) :
    ((perform o : Prog O ε _) >>= f) = .op o f := rfl

@[simp] theorem liftM_ok (a : α) : (liftM (Except.ok a : Except ε α) : Prog O ε α) = .ret a := rfl

@[simp] theorem liftM_error (e : ε) :
    (liftM (Except.error e : Except ε α) : Prog O ε α) = .fail e := rfl

theorem bind_assoc {γ : Type} (p : Prog O ε α) (f : α → Prog O ε β) (g : β → Prog O ε γ) :
    (p >>= f) >>= g = p >>= fun a => f a >>= g := by
  induction p with
  | ret a => rfl
  | fail e => rfl
  | op o k ih => exact congrArg (Prog.op o) (funext ih)
theorem bind_pure (p : Prog O ε α) : (p >>= fun a => pure a) = p := by
  induction p with
  | ret a => rfl
  | fail e => rfl
  | op o k ih => exact congrArg (Prog.op o) (funext ih)

/-! ## The sequential meaning -/

/-- Run to the end on a store nothing else touches. -/
def run (exec : (o : O.Op) → σ → O.Ans o × σ) : Prog O ε α → σ → Except ε α × σ
  | .ret a, s => (.ok a, s)
  | .fail e, s => (.error e, s)
  | .op o k, s => (k (exec o s).1).run exec (exec o s).2

section Run

variable (exec : (o : O.Op) → σ → O.Ans o × σ)

@[simp] theorem run_ret (a : α) (s : σ) :
    (Prog.ret a : Prog O ε α).run exec s = (.ok a, s) := rfl

@[simp] theorem run_fail (e : ε) (s : σ) :
    (Prog.fail e : Prog O ε α).run exec s = (.error e, s) := rfl

@[simp] theorem run_op (o : O.Op) (k : O.Ans o → Prog O ε α) (s : σ) :
    (Prog.op o k).run exec s = (k (exec o s).1).run exec (exec o s).2 := rfl

theorem run_bind (p : Prog O ε α) (f : α → Prog O ε β) (s : σ) :
    (p >>= f).run exec s =
      match p.run exec s with
      | (.ok a, s') => (f a).run exec s'
      | (.error e, s') => (.error e, s') := by
  induction p generalizing s with
  | ret a => rfl
  | fail e => rfl
  | op o k ih => rw [op_bind, run_op, run_op]; exact ih _ _

theorem run_bind_ok {p : Prog O ε α} {s s' : σ} {a : α} (h : p.run exec s = (.ok a, s'))
    (f : α → Prog O ε β) : (p >>= f).run exec s = (f a).run exec s' := by
  rw [run_bind, h]

theorem run_bind_error {p : Prog O ε α} {s s' : σ} {e : ε}
    (h : p.run exec s = (.error e, s')) (f : α → Prog O ε β) :
    (p >>= f).run exec s = (.error e, s') := by
  rw [run_bind, h]

theorem exists_run_eq {p : Prog O ε α} {s : σ} {r : Except ε α} (h : (p.run exec s).1 = r) :
    ∃ s', p.run exec s = (r, s') :=
  ⟨_, Prod.ext h rfl⟩

/-- A bind that ends well has two parts that do. -/
theorem run_bind_inv {p : Prog O ε α} {f : α → Prog O ε β} {s s' : σ} {b : β}
    (h : (p >>= f).run exec s = (.ok b, s')) :
    ∃ a s₁, p.run exec s = (.ok a, s₁) ∧ (f a).run exec s₁ = (.ok b, s') := by
  rw [run_bind] at h
  generalize p.run exec s = r at h
  obtain ⟨e | a, s₁⟩ := r
  · cases congrArg Prod.fst h
  · exact ⟨a, s₁, rfl, h⟩

/-- What is computed of equal results is equal. -/
theorem run_map_result {p : Prog O ε α} {s t : σ} (h : (p.run exec t).1 = (p.run exec s).1)
    (f : α → β) :
    ((p >>= fun a => .ret (f a)).run exec t).1 = ((p >>= fun a => .ret (f a)).run exec s).1 := by
  rw [run_bind, run_bind]
  generalize p.run exec s = r at h ⊢
  generalize p.run exec t = r' at h ⊢
  obtain ⟨result, s'⟩ := r
  obtain ⟨result', t'⟩ := r'
  obtain rfl : result' = result := h
  rcases result' with e | a
  · rfl
  · rfl

theorem run_ofExcept (x : Except ε α) (s : σ) :
    (liftM x : Prog O ε α).run exec s = (x, s) := by
  rcases x with e | a
  · rfl
  · rfl

/-- A check in front of a program that ends well has passed. -/
theorem run_bind_ofExcept_inv {x : Except ε α} {f : α → Prog O ε β} {s s' : σ} {b : β}
    (h : ((liftM x : Prog O ε α) >>= f).run exec s = (.ok b, s')) :
    ∃ a, x = .ok a ∧ (f a).run exec s = (.ok b, s') := by
  obtain ⟨a, s₁, hx, hf⟩ := run_bind_inv exec h
  rw [run_ofExcept] at hx
  obtain ⟨rfl, rfl⟩ := Prod.mk.inj hx
  exact ⟨a, rfl, hf⟩

theorem run_attempt {ε' : Type} (p : Prog O ε α) (s : σ) :
    (p.attempt : Prog O ε' (Except ε α)).run exec s = (.ok (p.run exec s).1, (p.run exec s).2) := by
  induction p generalizing s with
  | ret a => rfl
  | fail e => rfl
  | op o k ih => exact ih _ _

theorem run_mapFail {ε' : Type} (f : ε → ε') (p : Prog O ε α) (s : σ) :
    (p.mapFail f).run exec s = ((p.run exec s).1.mapError f, (p.run exec s).2) := by
  induction p generalizing s with
  | ret a => rfl
  | fail e => rfl
  | op o k ih => exact ih _ _

theorem run_mapFail_ok_iff {ε' : Type} (f : ε → ε') {p : Prog O ε α} {s s' : σ} {a : α} :
    (p.mapFail f).run exec s = (.ok a, s') ↔ p.run exec s = (.ok a, s') := by
  rw [run_mapFail]
  rcases p.run exec s with ⟨e | b, s₁⟩
  · simp [Except.mapError]
  · simp [Except.mapError]

end Run

/-! ## Runs with faults -/

/-- A run to the end, each operation answered in one of the ways `step` allows. -/
def Runs (step : σ → (o : O.Op) → O.Ans o → σ → Prop) :
    Prog O ε α → σ → Except ε α → σ → Prop
  | .ret a, s, r, s' => r = .ok a ∧ s' = s
  | .fail e, s, r, s' => r = .error e ∧ s' = s
  | .op o k, s, r, s' => ∃ a s₁, step s o a s₁ ∧ (k a).Runs step s₁ r s'

section Runs

variable {step : σ → (o : O.Op) → O.Ans o → σ → Prop}

theorem runs_bind {p : Prog O ε α} {f : α → Prog O ε β} {s s' : σ} {b : β}
    (h : (p >>= f).Runs step s (.ok b) s') :
    ∃ a s₁, p.Runs step s (.ok a) s₁ ∧ (f a).Runs step s₁ (.ok b) s' := by
  induction p generalizing s with
  | ret a => exact ⟨a, s, ⟨rfl, rfl⟩, h⟩
  | fail e => cases h.1
  | op o k ih =>
    obtain ⟨a, s₁, hs, hk⟩ := h
    obtain ⟨a', s₂, hp, hf⟩ := ih a hk
    exact ⟨a', s₂, ⟨a, s₁, hs, hp⟩, hf⟩

/-- How a bind ends: in its first part's failure, or in what follows. -/
theorem runs_bind_cases {p : Prog O ε α} {f : α → Prog O ε β} {s s' : σ} {r : Except ε β}
    (h : (p >>= f).Runs step s r s') :
    (∃ e, p.Runs step s (.error e) s' ∧ r = .error e) ∨
      ∃ a s₁, p.Runs step s (.ok a) s₁ ∧ (f a).Runs step s₁ r s' := by
  induction p generalizing s with
  | ret a => exact .inr ⟨a, s, ⟨rfl, rfl⟩, h⟩
  | fail e => exact .inl ⟨e, ⟨rfl, h.2⟩, h.1⟩
  | op o k ih =>
    obtain ⟨a, s₁, hs, hk⟩ := h
    rcases ih a hk with ⟨e, he, hr⟩ | ⟨a', s₂, hp, hf⟩
    · exact .inl ⟨e, ⟨a, s₁, hs, he⟩, hr⟩
    · exact .inr ⟨a', s₂, ⟨a, s₁, hs, hp⟩, hf⟩

theorem runs_ofExcept {x r : Except ε α} {s s' : σ}
    (h : (liftM x : Prog O ε α).Runs step s r s') : x = r ∧ s' = s := by
  rcases x with e | a
  · exact ⟨h.1.symm, h.2⟩
  · exact ⟨h.1.symm, h.2⟩

/-- The function `run exec` is one of the runs. -/
theorem runs_run {exec : (o : O.Op) → σ → O.Ans o × σ}
    (hexec : ∀ s o, step s o (exec o s).1 (exec o s).2) (p : Prog O ε α) (s : σ) :
    p.Runs step s (p.run exec s).1 (p.run exec s).2 := by
  induction p generalizing s with
  | ret a => exact ⟨rfl, rfl⟩
  | fail e => exact ⟨rfl, rfl⟩
  | op o k ih => exact ⟨_, _, hexec s o, ih _ _⟩

end Runs

/-! ## Footprints -/

/-- Every operation the program may come to perform satisfies `P`. -/
def Every (P : O.Op → Prop) : Prog O ε α → Prop
  | .ret _ => True
  | .fail _ => True
  | .op o k => P o ∧ ∀ a, (k a).Every P

theorem every_bind {P : O.Op → Prop} {p : Prog O ε α} {f : α → Prog O ε β} (hp : p.Every P)
    (hf : ∀ a, (f a).Every P) : (p >>= f).Every P := by
  induction p with
  | ret a => exact hf a
  | fail e => trivial
  | op o k ih => exact ⟨hp.1, fun a => ih a (hp.2 a)⟩

theorem every_mono {P P' : O.Op → Prop} (h : ∀ o, P o → P' o) {p : Prog O ε α}
    (hp : p.Every P) : p.Every P' := by
  induction p with
  | ret a => trivial
  | fail e => trivial
  | op o k ih => exact ⟨h o hp.1, fun a => ih a (hp.2 a)⟩

theorem every_ofExcept {P : O.Op → Prop} (x : Except ε α) :
    (liftM x : Prog O ε α).Every P := by
  cases x <;> trivial

theorem every_attempt {ε' : Type} {P : O.Op → Prop} {p : Prog O ε α} (hp : p.Every P) :
    (p.attempt : Prog O ε' (Except ε α)).Every P := by
  induction p with
  | ret a => trivial
  | fail e => trivial
  | op o k ih => exact ⟨hp.1, fun a => ih a (hp.2 a)⟩

/-- Started on two related stores, the program gives one result and leaves related
    stores. -/
def Agrees (exec : (o : O.Op) → σ → O.Ans o × σ) (Sim : σ → σ → Prop) (p : Prog O ε α) : Prop :=
  ∀ s t, Sim s t → (p.run exec s).1 = (p.run exec t).1 ∧ Sim (p.run exec s).2 (p.run exec t).2

theorem Agrees.bind {exec : (o : O.Op) → σ → O.Ans o × σ} {Sim : σ → σ → Prop} {p : Prog O ε α}
    {f : α → Prog O ε β} (hp : p.Agrees exec Sim) (hf : ∀ a, (f a).Agrees exec Sim) :
    (p >>= f).Agrees exec Sim := by
  intro s t hst
  obtain ⟨hr, hs⟩ := hp s t hst
  rw [run_bind, run_bind]
  generalize p.run exec s = x at hr hs ⊢
  generalize p.run exec t = y at hr hs ⊢
  obtain ⟨r, s'⟩ := x
  obtain ⟨r', t'⟩ := y
  obtain rfl : r = r' := hr
  rcases r with e | a
  · exact ⟨rfl, hs⟩
  · exact hf a s' t' hs

/-- Stores on which the program's operations answer alike and stay related cannot be
    told apart by it. -/
theorem agrees_of_every {exec : (o : O.Op) → σ → O.Ans o × σ} {P : O.Op → Prop}
    {Sim : σ → σ → Prop}
    (h : ∀ o, P o → ∀ s t, Sim s t →
      (exec o s).1 = (exec o t).1 ∧ Sim (exec o s).2 (exec o t).2)
    {p : Prog O ε α} (hp : p.Every P) : p.Agrees exec Sim := by
  induction p with
  | ret a => exact fun s t hst => ⟨rfl, hst⟩
  | fail e => exact fun s t hst => ⟨rfl, hst⟩
  | op o k ih =>
    intro s t hst
    obtain ⟨ha, hs⟩ := h o hp.1 s t hst
    rw [run_op, run_op, ← ha]
    exact ih _ (hp.2 _) _ _ hs

/-- What every operation of the program keeps, the program keeps. -/
theorem run_frame {exec : (o : O.Op) → σ → O.Ans o × σ} {P : O.Op → Prop} {I : σ → Prop}
    (h : ∀ o, P o → ∀ s, I s → I (exec o s).2) {p : Prog O ε α} (hp : p.Every P) {s : σ}
    (hs : I s) : I (p.run exec s).2 := by
  induction p generalizing s with
  | ret a => exact hs
  | fail e => exact hs
  | op o k ih => exact ih _ (hp.2 _) (h o hp.1 s hs)

/-- The same for a run with faults. -/
theorem runs_frame {step : σ → (o : O.Op) → O.Ans o → σ → Prop} {P : O.Op → Prop} {I : σ → Prop}
    (h : ∀ o, P o → ∀ s a s', step s o a s' → I s → I s') {p : Prog O ε α} (hp : p.Every P)
    {s s' : σ} {r : Except ε α} (hr : p.Runs step s r s') (hs : I s) : I s' := by
  induction p generalizing s with
  | ret a => exact hr.2 ▸ hs
  | fail e => exact hr.2 ▸ hs
  | op o k ih =>
    obtain ⟨a, s₁, ho, hk⟩ := hr
    exact ih a (hp.2 a) hk (h o hp.1 s a s₁ ho hs)

/-! ## Rely and guarantee -/

/-- An operation performed, with its answer. -/
abbrev Event (O : Ops) := (o : O.Op) × O.Ans o

/-- The program, reached with the events `t` behind it: amid changes of `R` it
    makes changes of `G` only, and when it ends `Q` holds of its events, its
    result and the store. -/
def Sound (step : σ → (o : O.Op) → O.Ans o → σ → Prop) (R G : σ → σ → Prop)
    (Q : List (Event O) → Except ε α → σ → Prop) : Prog O ε α → List (Event O) → σ → Prop
  | .ret a, t, s => Q t (.ok a) s
  | .fail e, t, s => Q t (.error e) s
  | .op o k, t, s => ∀ s₁, R s s₁ → ∀ a s₂, step s₁ o a s₂ →
      G s₁ s₂ ∧ (k a).Sound step R G Q (t ++ [⟨o, a⟩]) s₂

section Sound

variable {step : σ → (o : O.Op) → O.Ans o → σ → Prop} {R G : σ → σ → Prop}
  {Q : List (Event O) → Except ε α → σ → Prop}

/-- A judgement survives the changes it relies on. -/
theorem Sound.stable (hR : ∀ a b c, R a b → R b c → R a c)
    (hQ : ∀ t r s s', R s s' → Q t r s → Q t r s') {p : Prog O ε α} {t : List (Event O)}
    {s s' : σ} (hs : R s s') (h : p.Sound step R G Q t s) : p.Sound step R G Q t s' := by
  cases p with
  | ret a => exact hQ t _ s s' hs h
  | fail e => exact hQ t _ s s' hs h
  | op o k => exact fun s₁ h₁ => h s₁ (hR _ _ _ hs h₁)

theorem Sound.mono {Q' : List (Event O) → Except ε α → σ → Prop}
    (hQ : ∀ t r s, Q t r s → Q' t r s) {p : Prog O ε α} {t : List (Event O)} {s : σ}
    (h : p.Sound step R G Q t s) : p.Sound step R G Q' t s := by
  induction p generalizing t s with
  | ret a => exact hQ _ _ _ h
  | fail e => exact hQ _ _ _ h
  | op o k ih =>
    intro s₁ h₁ a s₂ h₂
    obtain ⟨hg, hk⟩ := h s₁ h₁ a s₂ h₂
    exact ⟨hg, ih a hk⟩

theorem Sound.bind {p : Prog O ε α} {f : α → Prog O ε β}
    {Q' : List (Event O) → Except ε β → σ → Prop} {t : List (Event O)} {s : σ}
    (hp : p.Sound step R G Q t s)
    (hf : ∀ t a s, Q t (.ok a) s → (f a).Sound step R G Q' t s)
    (he : ∀ t e s, Q t (.error e) s → Q' t (.error e) s) :
    (p >>= f).Sound step R G Q' t s := by
  induction p generalizing t s with
  | ret a => exact hf _ _ _ hp
  | fail e => exact he _ _ _ hp
  | op o k ih =>
    intro s₁ h₁ a s₂ h₂
    obtain ⟨hg, hk⟩ := hp s₁ h₁ a s₂ h₂
    exact ⟨hg, ih a hk⟩

/-- The function `run exec` is one of the behaviours a judgement is about. -/
theorem run_sound {exec : (o : O.Op) → σ → O.Ans o × σ}
    (hexec : ∀ s o, step s o (exec o s).1 (exec o s).2) (hrefl : ∀ s, R s s)
    {p : Prog O ε α} {t : List (Event O)} {s : σ} (h : p.Sound step R G Q t s) :
    ∃ t', Q t' (p.run exec s).1 (p.run exec s).2 := by
  induction p generalizing t s with
  | ret a => exact ⟨t, h⟩
  | fail e => exact ⟨t, h⟩
  | op o k ih => exact ih _ (h s (hrefl s) _ _ (hexec s o)).2

end Sound

end Prog

/-! ## Two families of operations -/

/-- The operations of both families, each on a store of its own. -/
@[reducible] def Ops.plus (O P : Ops) : Ops where
  Op := O.Op ⊕ P.Op
  Ans
    | .inl o => O.Ans o
    | .inr p => P.Ans p

namespace Prog

variable {O P : Ops} {ε α σ τ : Type}

/-- A program of the first family among both. -/
def liftLeft (P : Ops) : Prog O ε α → Prog (O.plus P) ε α
  | .ret a => .ret a
  | .fail e => .fail e
  | .op o k => .op (.inl o) fun a => (k a).liftLeft P

/-- A program of the second family among both. -/
def liftRight (O : Ops) {P : Ops} : Prog P ε α → Prog (O.plus P) ε α
  | .ret a => .ret a
  | .fail e => .fail e
  | .op p k => .op (.inr p) fun a => (k a).liftRight O

/-- An operation of one family leaves the store of the other alone. -/
def stepPlus (step : σ → (o : O.Op) → O.Ans o → σ → Prop)
    (step' : τ → (p : P.Op) → P.Ans p → τ → Prop) (s : σ × τ) :
    (o : (O.plus P).Op) → (O.plus P).Ans o → σ × τ → Prop
  | .inl o, a, s' => step s.1 o a s'.1 ∧ s'.2 = s.2
  | .inr p, a, s' => step' s.2 p a s'.2 ∧ s'.1 = s.1

def execPlus (exec : (o : O.Op) → σ → O.Ans o × σ) (exec' : (p : P.Op) → τ → P.Ans p × τ) :
    (o : (O.plus P).Op) → σ × τ → (O.plus P).Ans o × σ × τ
  | .inl o, s => ((exec o s.1).1, (exec o s.1).2, s.2)
  | .inr p, s => ((exec' p s.2).1, s.1, (exec' p s.2).2)

theorem stepPlus_execPlus {step : σ → (o : O.Op) → O.Ans o → σ → Prop}
    {step' : τ → (p : P.Op) → P.Ans p → τ → Prop} {exec : (o : O.Op) → σ → O.Ans o × σ}
    {exec' : (p : P.Op) → τ → P.Ans p × τ} (h : ∀ s o, step s o (exec o s).1 (exec o s).2)
    (h' : ∀ t p, step' t p (exec' p t).1 (exec' p t).2) (s : σ × τ) (o : (O.plus P).Op) :
    stepPlus step step' s o (execPlus exec exec' o s).1 (execPlus exec exec' o s).2 := by
  rcases o with o | p
  · exact ⟨h s.1 o, rfl⟩
  · exact ⟨h' s.2 p, rfl⟩

/-- Executable operations make a run. -/
theorem exists_runs_plus {step : σ → (o : O.Op) → O.Ans o → σ → Prop}
    {step' : τ → (p : P.Op) → P.Ans p → τ → Prop} {exec : (o : O.Op) → σ → O.Ans o × σ}
    {exec' : (p : P.Op) → τ → P.Ans p × τ} (h : ∀ s o, step s o (exec o s).1 (exec o s).2)
    (h' : ∀ t p, step' t p (exec' p t).1 (exec' p t).2) (p : Prog (O.plus P) ε α) (s : σ) (t : τ) :
    ∃ r s' t', p.Runs (stepPlus step step') (s, t) r (s', t') :=
  ⟨_, _, _, runs_run (stepPlus_execPlus h h') p (s, t)⟩

/-- A run of a program of the first family is a run on its store. -/
theorem runs_liftLeft {step : σ → (o : O.Op) → O.Ans o → σ → Prop}
    {step' : τ → (p : P.Op) → P.Ans p → τ → Prop} {p : Prog O ε α} {s s' : σ × τ}
    {r : Except ε α} (h : (p.liftLeft P).Runs (stepPlus step step') s r s') :
    p.Runs step s.1 r s'.1 ∧ s'.2 = s.2 := by
  induction p generalizing s with
  | ret a => exact ⟨⟨h.1, congrArg Prod.fst h.2⟩, congrArg Prod.snd h.2⟩
  | fail e => exact ⟨⟨h.1, congrArg Prod.fst h.2⟩, congrArg Prod.snd h.2⟩
  | op o k ih =>
    obtain ⟨a, s₁, ⟨hs, ht⟩, hk⟩ := h
    obtain ⟨hr, hrest⟩ := ih a hk
    exact ⟨⟨a, s₁.1, hs, hr⟩, hrest.trans ht⟩

theorem run_liftLeft (exec : (o : O.Op) → σ → O.Ans o × σ) (exec' : (p : P.Op) → τ → P.Ans p × τ)
    (p : Prog O ε α) (s : σ × τ) :
    (p.liftLeft P).run (execPlus exec exec') s =
      ((p.run exec s.1).1, (p.run exec s.1).2, s.2) := by
  induction p generalizing s with
  | ret a => rfl
  | fail e => rfl
  | op o k ih => exact ih _ _

theorem run_liftRight (exec : (o : O.Op) → σ → O.Ans o × σ) (exec' : (p : P.Op) → τ → P.Ans p × τ)
    (p : Prog P ε α) (s : σ × τ) :
    (p.liftRight O).run (execPlus exec exec') s =
      ((p.run exec' s.2).1, s.1, (p.run exec' s.2).2) := by
  induction p generalizing s with
  | ret a => rfl
  | fail e => rfl
  | op o k ih => exact ih _ _

end Prog

end RickydataGit.Lib
