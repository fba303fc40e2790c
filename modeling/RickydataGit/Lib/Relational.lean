/-
  Two runs, of programs on stores that differ.

  `Relates exec Sim R p q`: started on stores related by `Sim`, the two programs fail
  alike or return results related by `R`, and leave related stores. There is one rule
  for each way to build a program.

  `Stays exec s p` is about one run: the program leaves the store as it is.
-/
import RickydataGit.Lib.Prog

namespace RickydataGit.Lib

/-- The same failure, or related results. -/
inductive Alike {ε α β : Type} (R : α → β → Prop) : Except ε α → Except ε β → Prop where
  | error (e : ε) : Alike R (.error e) (.error e)
  | ok {a : α} {b : β} : R a b → Alike R (.ok a) (.ok b)

theorem Alike.mapError {ε ε' α β : Type} {R : α → β → Prop} {x : Except ε α} {y : Except ε β}
    (h : Alike R x y) (f : ε → ε') : Alike R (x.mapError f) (y.mapError f) := by
  cases h with
  | error e => exact .error (f e)
  | ok h => exact .ok h

theorem alike_refl {ε α : Type} {R : α → α → Prop} (hR : ∀ a, R a a) (x : Except ε α) :
    Alike R x x := by
  rcases x with e | a
  · exact .error e
  · exact .ok (hR a)

theorem Alike.eq {ε α : Type} {x y : Except ε α} (h : Alike Eq x y) : x = y := by
  cases h with
  | error e => rfl
  | ok h => rw [h]

theorem Alike.flip {ε α β : Type} {R : α → β → Prop} {R' : β → α → Prop} {x : Except ε α}
    {y : Except ε β} (h : Alike R x y) (hR : ∀ a b, R a b → R' b a) : Alike R' y x := by
  cases h with
  | error e => exact .error e
  | ok h => exact .ok (hR _ _ h)

/-- Related options are both there or both not. -/
theorem optionRel_cases {α β : Type} {R : α → β → Prop} {x : Option α} {y : Option β}
    (h : Option.Rel R x y) : (x = none ∧ y = none) ∨ ∃ a b, x = some a ∧ y = some b ∧ R a b := by
  cases h with
  | none => exact .inl ⟨rfl, rfl⟩
  | some h => exact .inr ⟨_, _, rfl, rfl, h⟩

namespace Prog

variable {O : Ops} {ε α β α' β' σ : Type} {exec : (o : O.Op) → σ → O.Ans o × σ}
  {Sim : σ → σ → Prop} {R : α → β → Prop} {s : σ}

/-! ## Two runs -/

def Relates (exec : (o : O.Op) → σ → O.Ans o × σ) (Sim : σ → σ → Prop) (R : α → β → Prop)
    (p : Prog O ε α) (q : Prog O ε β) : Prop :=
  ∀ s t, Sim s t → Alike R (p.run exec s).1 (q.run exec t).1 ∧
    Sim (p.run exec s).2 (q.run exec t).2

theorem relates_ret {a : α} {b : β} (h : R a b) :
    Relates exec Sim R (.ret a : Prog O ε α) (.ret b) :=
  fun _ _ hs => ⟨.ok h, hs⟩

theorem relates_fail (e : ε) : Relates exec Sim R (.fail e : Prog O ε α) (.fail e) :=
  fun _ _ hs => ⟨.error e, hs⟩

theorem relates_ofExcept {x : Except ε α} {y : Except ε β} (h : Alike R x y) :
    Relates exec Sim R (liftM x : Prog O ε α) (liftM y) := by
  cases h with
  | error e => exact relates_fail e
  | ok h => exact relates_ret h

theorem Relates.bind {R' : α' → β' → Prop} {p : Prog O ε α} {q : Prog O ε β}
    {f : α → Prog O ε α'} {g : β → Prog O ε β'} (hp : Relates exec Sim R p q)
    (hf : ∀ a b, R a b → Relates exec Sim R' (f a) (g b)) :
    Relates exec Sim R' (p >>= f) (q >>= g) := by
  intro s t hst
  obtain ⟨hr, hs⟩ := hp s t hst
  rw [run_bind, run_bind]
  generalize p.run exec s = x at hr hs ⊢
  generalize q.run exec t = y at hr hs ⊢
  obtain ⟨r, s'⟩ := x
  obtain ⟨r', t'⟩ := y
  cases hr with
  | error e => exact ⟨.error e, hs⟩
  | ok h => exact hf _ _ h s' t' hs

theorem Relates.mapFail {ε' : Type} {p : Prog O ε α} {q : Prog O ε β}
    (h : Relates exec Sim R p q) (f : ε → ε') : Relates exec Sim R (p.mapFail f) (q.mapFail f) := by
  intro s t hst
  rw [run_mapFail, run_mapFail]
  exact ⟨(h s t hst).1.mapError f, (h s t hst).2⟩

theorem Relates.attempt {ε' : Type} {p : Prog O ε α} {q : Prog O ε β}
    (h : Relates exec Sim R p q) :
    Relates exec Sim (Alike R) (p.attempt : Prog O ε' (Except ε α)) q.attempt := by
  intro s t hst
  rw [run_attempt, run_attempt]
  exact ⟨.ok (h s t hst).1, (h s t hst).2⟩

/-! ## A run that changes nothing -/

def Stays (exec : (o : O.Op) → σ → O.Ans o × σ) (s : σ) (p : Prog O ε α) : Prop :=
  (p.run exec s).2 = s

theorem stays_ofExcept (x : Except ε α) : Stays exec s (liftM x : Prog O ε α) := by
  rw [Stays, run_ofExcept]

theorem Stays.run {p : Prog O ε α} (h : Stays exec s p) :
    p.run exec s = ((p.run exec s).1, s) := Prod.ext rfl h

theorem Stays.bind {p : Prog O ε α} {f : α → Prog O ε β} (hp : Stays exec s p)
    (hf : ∀ a, Stays exec s (f a)) : Stays exec s (p >>= f) := by
  rw [Stays, run_bind, hp.run]
  rcases (p.run exec s).1 with e | a
  · rfl
  · exact hf a

theorem Stays.mapFail {ε' : Type} {p : Prog O ε α} (h : Stays exec s p) (f : ε → ε') :
    Stays exec s (p.mapFail f) := by
  rw [Stays, run_mapFail]
  exact h

theorem Stays.attempt {ε' : Type} {p : Prog O ε α} (h : Stays exec s p) :
    Stays exec s (p.attempt : Prog O ε' (Except ε α)) := by
  rw [Stays, run_attempt]
  exact h

end Prog

end RickydataGit.Lib
