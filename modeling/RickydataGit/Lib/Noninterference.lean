/-
  Noninterference of a deterministic system.

  A system answers every call with an output and a new state. `Isolated` compares
  two histories that differ in calls of `hidden` only: what the calls of `seen` are
  answered is the same in both. `isolated_of_unwinding` reduces it to single steps: a
  relation between states that no hidden call breaks, that every other call keeps,
  and under which `seen` calls are answered alike.
-/
import Mathlib

namespace RickydataGit.Lib

section Noninterference

variable {σ Call Out : Type} (act : Call → σ → Out × σ)

/-- The calls of a history with what they are answered. -/
def trace : List Call → σ → List (Call × Out)
  | [], _ => []
  | c :: rest, s => (c, (act c s).1) :: trace rest (act c s).2

variable (hidden seen : Call → Prop) [DecidablePred hidden] [DecidablePred seen]

/-- The answers to `seen` calls, in order. -/
def observed (history : List Call) (s : σ) : List (Call × Out) :=
  (trace act history s).filter fun e => decide (seen e.1)

/-- Calls of `hidden`, inserted or removed, do not change what `seen` calls are
    answered. -/
def Isolated (s : σ) : Prop :=
  ∀ xs ys : List Call, (xs.filter fun c => ¬ hidden c) = (ys.filter fun c => ¬ hidden c) →
    observed act seen xs s = observed act seen ys s

variable {act hidden seen}

theorem observed_cons (c : Call) (history : List Call) (s : σ) :
    observed act seen (c :: history) s =
      if seen c then (c, (act c s).1) :: observed act seen history (act c s).2
      else observed act seen history (act c s).2 := by
  unfold observed
  rw [trace, List.filter_cons]
  simp only [decide_eq_true_eq]

/-- What is seen of a history is what is seen of it without its hidden calls. -/
theorem observed_filter {Sim : σ → σ → Prop} (disjoint : ∀ c, hidden c → ¬ seen c)
    (local_hidden : ∀ c, hidden c → ∀ s t, Sim s t → Sim (act c s).2 t)
    (step : ∀ c, ¬ hidden c → ∀ s t, Sim s t → Sim (act c s).2 (act c t).2)
    (output : ∀ c, seen c → ∀ s t, Sim s t → (act c s).1 = (act c t).1)
    (xs : List Call) {s t : σ} (hst : Sim s t) :
    observed act seen xs s = observed act seen (xs.filter fun c => ¬ hidden c) t := by
  induction xs generalizing s t with
  | nil => rfl
  | cons c xs ih =>
    rw [observed_cons]
    by_cases hc : hidden c
    · rw [List.filter_cons_of_neg (by simpa using hc), if_neg (disjoint c hc)]
      exact ih (local_hidden c hc s t hst)
    · rw [List.filter_cons_of_pos (by simpa using hc), observed_cons, ih (step c hc s t hst)]
      split
      · next hs => rw [output c hs s t hst]
      · rfl

theorem isolated_of_unwinding (Sim : σ → σ → Prop) (disjoint : ∀ c, hidden c → ¬ seen c)
    (local_hidden : ∀ c, hidden c → ∀ s t, Sim s t → Sim (act c s).2 t)
    (step : ∀ c, ¬ hidden c → ∀ s t, Sim s t → Sim (act c s).2 (act c t).2)
    (output : ∀ c, seen c → ∀ s t, Sim s t → (act c s).1 = (act c t).1)
    {s : σ} (hs : Sim s s) : Isolated act hidden seen s := by
  intro xs ys hxy
  rw [observed_filter disjoint local_hidden step output xs hs, hxy,
    ← observed_filter disjoint local_hidden step output ys hs]

end Noninterference

end RickydataGit.Lib
