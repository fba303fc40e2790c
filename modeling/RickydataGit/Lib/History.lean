/-
  The history of a pool: every operation that was performed, by which call, and the
  store before and after it.

  `Recorded` is a run that keeps this record. Three facts connect it to the pool it
  ends in: the moves follow `step` (`recorded_step`), the stores of one move after
  another fit together (`recorded_linked`), and the moves of a call are its events,
  which its program has behind it (`recorded_call`). What a call has done can then be
  read off its program alone (`Prog.After`), whatever the other calls did meanwhile.
-/
import RickydataGit.Lib.Pool

namespace RickydataGit.Lib

namespace Prog

variable {O : Ops} {ε α : Type}

/-- After these events the program is left with `q`. -/
def After : Prog O ε α → List (Event O) → Prog O ε α → Prop
  | p, [], q => q = p
  | p, e :: t, q => ∃ k, p = .op e.1 k ∧ After (k e.2) t q

theorem After.snoc {p : Prog O ε α} {t : List (Event O)} {o : O.Op} {k : O.Ans o → Prog O ε α}
    (h : p.After t (.op o k)) (a : O.Ans o) : p.After (t ++ [⟨o, a⟩]) (k a) := by
  induction t generalizing p with
  | nil => exact ⟨k, h.symm, rfl⟩
  | cons e t ih =>
    obtain ⟨k', hp, hk⟩ := h
    exact ⟨k', hp, ih hk⟩

/-- An operation is still to be performed, or it has been answered. -/
theorem after_op {o : O.Op} {k : O.Ans o → Prog O ε α} {t : List (Event O)} {q : Prog O ε α}
    (h : (Prog.op o k).After t q) :
    (t = [] ∧ q = .op o k) ∨ ∃ a t', t = ⟨o, a⟩ :: t' ∧ (k a).After t' q := by
  rcases t with _ | ⟨⟨o', a⟩, t⟩
  · exact .inl ⟨rfl, h⟩
  · obtain ⟨k', hp, hk⟩ := h
    cases hp
    exact .inr ⟨a, t, rfl, hk⟩

theorem after_ret {a : α} {t : List (Event O)} {q : Prog O ε α} (h : (Prog.ret a).After t q) :
    t = [] ∧ q = .ret a := by
  rcases t with _ | ⟨e, t⟩
  · exact ⟨rfl, h⟩
  · obtain ⟨k, hp, -⟩ := h
    cases hp

theorem after_fail {e : ε} {t : List (Event O)} {q : Prog O ε α} (h : (Prog.fail e).After t q) :
    t = [] ∧ q = .fail e := by
  rcases t with _ | ⟨e', t⟩
  · exact ⟨rfl, h⟩
  · obtain ⟨k, hp, -⟩ := h
    cases hp

end Prog

/-- An operation that a call of the pool performed. -/
structure Move (σ : Type) (O : Ops) where
  call : Nat
  event : Prog.Event O
  before : σ
  after : σ

namespace Pool

variable {σ : Type} {O : Ops} {ε α ι : Type}

/-- One move after another, from one store to the other. -/
def Linked : σ → List (Move σ O) → σ → Prop
  | s, [], s' => s = s'
  | s, m :: ms, s' => m.before = s ∧ Linked m.after ms s'

theorem Linked.snoc {s s' : σ} {ms : List (Move σ O)} (h : Linked s ms s') {m : Move σ O}
    (hm : m.before = s') : Linked s (ms ++ [m]) m.after := by
  induction ms generalizing s with
  | nil => exact ⟨hm.trans (Eq.symm h), rfl⟩
  | cons m' ms ih => exact ⟨h.1, ih h.2⟩

/-- The moves of one call. -/
def movesOf (n : Nat) (ms : List (Move σ O)) : List (Move σ O) :=
  ms.filter fun m => m.call == n

variable (step : σ → (o : O.Op) → O.Ans o → σ → Prop) (start : ι → Prog O ε α)
  (guard : Pool σ O ε α ι → ι → Prop)

/-- A run of any number of steps, from a store no call was made on, with its moves. -/
inductive Recorded (s₀ : σ) : List (Move σ O) → Pool σ O ε α ι → Prop where
  | idle : Recorded s₀ [] (idle s₀)
  | start {ms : List (Move σ O)} {c : Pool σ O ε α ι} (i : ι) : Recorded s₀ ms c → guard c i →
      Recorded s₀ ms ⟨c.store, c.calls ++ [⟨i, [], start i⟩]⟩
  | advance {ms : List (Move σ O)} {c : Pool σ O ε α ι} (n : Nat) {i : ι}
      {t : List (Prog.Event O)} {o : O.Op} {k : O.Ans o → Prog O ε α} (a : O.Ans o) (s : σ) :
      Recorded s₀ ms c → c.calls[n]? = some ⟨i, t, .op o k⟩ → step c.store o a s →
      Recorded s₀ (ms ++ [⟨n, ⟨o, a⟩, c.store, s⟩])
        ⟨s, c.calls.set n ⟨i, t ++ [⟨o, a⟩], k a⟩⟩

variable {step start guard} {s₀ : σ} {ms : List (Move σ O)} {c : Pool σ O ε α ι}

theorem recorded_step (h : Recorded step start guard s₀ ms c) :
    ∀ m ∈ ms, step m.before m.event.1 m.event.2 m.after := by
  induction h with
  | idle => simp
  | start i _ _ ih => exact ih
  | advance n a s _ _ hstep ih =>
    intro m hm
    rcases List.mem_append.mp hm with hm | hm
    · exact ih m hm
    · obtain rfl := List.mem_singleton.mp hm
      exact hstep

theorem recorded_linked (h : Recorded step start guard s₀ ms c) : Linked s₀ ms c.store := by
  induction h with
  | idle => rfl
  | start i _ _ ih => exact ih
  | advance n a s _ _ _ ih => exact ih.snoc rfl

/-- Every move is one of a call. -/
theorem recorded_owner (h : Recorded step start guard s₀ ms c) :
    ∀ m ∈ ms, m.call < c.calls.length := by
  induction h with
  | idle => simp
  | start i _ _ ih =>
    intro m hm
    have hlt := ih m hm
    simp only [List.length_append, List.length_singleton]
    omega
  | advance n a s _ hcall _ ih =>
    intro m hm
    rw [List.length_set]
    rcases List.mem_append.mp hm with hm | hm
    · exact ih m hm
    · obtain rfl := List.mem_singleton.mp hm
      exact (List.getElem?_eq_some_iff.mp hcall).1

/-- A call has done what its moves say, and its program has that behind it. -/
theorem recorded_call (h : Recorded step start guard s₀ ms c) (n : Nat) {call : Call O ε α ι}
    (hcall : c.calls[n]? = some call) :
    call.events = (movesOf n ms).map Move.event ∧
      (start call.request).After call.events call.prog := by
  induction h generalizing call with
  | idle => simp [idle] at hcall
  | @start ms c i hrec _ ih =>
    rw [List.getElem?_append] at hcall
    split at hcall
    · exact ih hcall
    · next hge =>
        rw [List.getElem?_singleton] at hcall
        split at hcall <;> cases hcall
        -- no move so far is one of the new call
        have hnone : movesOf n ms = [] := List.filter_eq_nil_iff.mpr fun m hm he =>
          hge (beq_iff_eq.mp he ▸ recorded_owner hrec m hm)
        rw [hnone]
        exact ⟨rfl, rfl⟩
  | @advance ms c m i t o k a s _ hmove _ ih =>
    rw [List.getElem?_set] at hcall
    rw [movesOf, List.filter_append, List.map_append]
    split at hcall
    · next he =>
        subst he
        split at hcall <;> cases hcall
        obtain ⟨hevents, hafter⟩ := ih hmove
        refine ⟨?_, hafter.snoc a⟩
        show t ++ [_] = _
        rw [show t = _ from hevents, List.filter_cons_of_pos (by simp)]
        rfl
    · next hne =>
        obtain ⟨hevents, hafter⟩ := ih hcall
        refine ⟨?_, hafter⟩
        rw [List.filter_cons_of_neg (by simpa using hne), List.filter_nil, List.map_nil,
          List.append_nil]
        exact hevents

/-- A call that runs alone. -/
theorem recorded_alone {i : ι} {t : List (Prog.Event O)} {p : Prog O ε α} {s s' : σ}
    {r : Except ε α} (h : Recorded step start guard s₀ ms ⟨s, [⟨i, t, p⟩]⟩)
    (hrun : p.Runs step s r s') :
    ∃ ms' c, Recorded step start guard s₀ ms' c ∧ c.store = s' := by
  induction p generalizing t s ms with
  | ret a => exact ⟨ms, _, h, hrun.2.symm⟩
  | fail e => exact ⟨ms, _, h, hrun.2.symm⟩
  | op o k ih =>
    obtain ⟨a, s₁, hstep, hk⟩ := hrun
    exact ih a (.advance 0 a s₁ h rfl hstep) hk

variable (guard) in
/-- One run of one program is a history. -/
theorem recorded_of_runs {i : ι} {s : σ} {r : Except ε α} (hg : guard (idle s₀) i)
    (h : (start i).Runs step s₀ r s) : ∃ ms c, Recorded step start guard s₀ ms c ∧ c.store = s :=
  recorded_alone (.start i .idle hg) h

end Pool

end RickydataGit.Lib
