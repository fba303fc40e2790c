/-
  Calls running at the same time on one store.

  A `Pool` is the store with every call made so far. In one step a call starts
  (when the guard lets it), or one call performs its next operation: any
  interleaving, any number of calls, and a call that is never chosen again is one
  that was killed. The events of a call stay with it.

  `reach_inv` is parallel composition: if each call's program is sound for its
  own rely and guarantee, and the guarantee of one of two calls in flight implies
  the rely of the other, then in every reachable pool every call is still sound,
  and the result of every call that has ended satisfies its postcondition.
-/
import RickydataGit.Lib.Prog

namespace RickydataGit.Lib

/-- A call: what was asked for, what it did so far, what is left to do. -/
structure Call (O : Ops) (ε α ι : Type) where
  request : ι
  events : List (Prog.Event O)
  prog : Prog O ε α

structure Pool (σ : Type) (O : Ops) (ε α ι : Type) where
  store : σ
  calls : List (Call O ε α ι)

namespace Call

variable {O : Ops} {ε α ι : Type}

/-- The call has operations left to perform. -/
def InFlight (c : Call O ε α ι) : Prop := ∃ o k, c.prog = .op o k

/-- The call has ended with a result. -/
def Returned (c : Call O ε α ι) (a : α) : Prop := c.prog = .ret a

end Call

namespace Pool

variable {σ : Type} {O : Ops} {ε α ι : Type}

/-- A store no call was made on yet. -/
def idle (s : σ) : Pool σ O ε α ι := ⟨s, []⟩

section Steps

variable (step : σ → (o : O.Op) → O.Ans o → σ → Prop) (start : ι → Prog O ε α)
  (guard : Pool σ O ε α ι → ι → Prop)

inductive Next : Pool σ O ε α ι → Pool σ O ε α ι → Prop where
  | start {c : Pool σ O ε α ι} (i : ι) : guard c i →
      Next c ⟨c.store, c.calls ++ [⟨i, [], start i⟩]⟩
  | advance {c : Pool σ O ε α ι} (n : Nat) {i : ι} {t : List (Prog.Event O)} {o : O.Op}
      {k : O.Ans o → Prog O ε α} (a : O.Ans o) (s : σ) : c.calls[n]? = some ⟨i, t, .op o k⟩ →
      step c.store o a s → Next c ⟨s, c.calls.set n ⟨i, t ++ [⟨o, a⟩], k a⟩⟩

/-- A run of any number of steps. -/
def Reach : Pool σ O ε α ι → Pool σ O ε α ι → Prop :=
  Relation.ReflTransGen (Next step start guard)

end Steps

/-- What holds of a pool at all times: the invariant of the store, every call
    sound where it stands, and any two calls in flight compatible. -/
structure Inv (step : σ → (o : O.Op) → O.Ans o → σ → Prop) (I : σ → Prop)
    (R G : ι → σ → σ → Prop) (Q : ι → List (Prog.Event O) → Except ε α → σ → Prop)
    (compat : ι → ι → Prop) (c : Pool σ O ε α ι) : Prop where
  store : I c.store
  sound : ∀ call ∈ c.calls, call.prog.Sound step (R call.request) (G call.request)
    (Q call.request) call.events c.store
  pairs : ∀ (m n : Nat) (x y : Call O ε α ι), m ≠ n → c.calls[m]? = some x →
    c.calls[n]? = some y → x.InFlight → y.InFlight → compat x.request y.request

/-- The rules of parallel composition, for calls of all requests. `K` is what
    every step of every call keeps. -/
structure Rules (step : σ → (o : O.Op) → O.Ans o → σ → Prop) (start : ι → Prog O ε α)
    (guard : Pool σ O ε α ι → ι → Prop) (I : σ → Prop) (R G : ι → σ → σ → Prop) (K : σ → σ → Prop)
    (Q : ι → List (Prog.Event O) → Except ε α → σ → Prop) (compat : ι → ι → Prop) : Prop where
  refl : ∀ i s, R i s s
  trans : ∀ i a b c, R i a b → R i b c → R i a c
  inv : ∀ i s s', I s → G i s s' → I s'
  keep : ∀ i s s', G i s s' → K s s'
  stable : ∀ i t r s s', K s s' → Q i t r s → Q i t r s'
  rely_stable : ∀ i t r s s', R i s s' → Q i t r s → Q i t r s'
  rely : ∀ i j s s', compat i j → G i s s' → R j s s'
  guarded : ∀ c i, guard c i → ∀ call ∈ c.calls, call.InFlight →
    compat i call.request ∧ compat call.request i
  started : ∀ c i, guard c i → I c.store →
    (start i).Sound step (R i) (G i) (Q i) [] c.store

variable {step : σ → (o : O.Op) → O.Ans o → σ → Prop} {start : ι → Prog O ε α}
  {guard : Pool σ O ε α ι → ι → Prop} {I : σ → Prop} {R G : ι → σ → σ → Prop} {K : σ → σ → Prop}
  {Q : ι → List (Prog.Event O) → Except ε α → σ → Prop} {compat : ι → ι → Prop}

theorem inv_idle {s : σ} (hs : I s) : Inv step I R G Q compat (idle s) where
  store := hs
  sound := by simp [idle]
  pairs := by simp [idle]

/-- One step of any call keeps the pool invariant. -/
theorem next_inv (h : Rules step start guard I R G K Q compat) {c c' : Pool σ O ε α ι}
    (hc : Inv step I R G Q compat c) (hn : Next step start guard c c') :
    Inv step I R G Q compat c' := by
  cases hn with
  | start i hg =>
    have hcompat := h.guarded c i hg
    refine ⟨hc.store, ?_, ?_⟩
    · intro call hcall
      rcases List.mem_append.mp hcall with hold | hnew
      · exact hc.sound call hold
      · rw [List.mem_singleton.mp hnew]
        exact h.started c i hg hc.store
    · intro m n x y hmn hx hy hxf hyf
      rw [List.getElem?_append] at hx hy
      split at hx <;> split at hy
      · exact hc.pairs m n x y hmn hx hy hxf hyf
      · rw [List.getElem?_singleton] at hy
        split at hy <;> cases hy
        exact (hcompat x (List.mem_of_getElem? hx) hxf).2
      · rw [List.getElem?_singleton] at hx
        split at hx <;> cases hx
        exact (hcompat y (List.mem_of_getElem? hy) hyf).1
      · rw [List.getElem?_singleton] at hx hy
        split at hx <;> split at hy <;> cases hx <;> cases hy
        omega
  | @advance n i t o k a s hcall hstep =>
    have hi := hc.sound _ (List.mem_of_getElem? hcall)
    obtain ⟨hg, hk⟩ := hi c.store (h.refl i c.store) a s hstep
    refine ⟨h.inv i _ _ hc.store hg, ?_, ?_⟩
    · intro call hmem
      obtain ⟨m, hm⟩ := List.mem_iff_getElem?.mp hmem
      rw [List.getElem?_set] at hm
      split at hm
      · split at hm <;> cases hm
        exact hk
      · next hne =>
          have hs := hc.sound call (List.mem_of_getElem? hm)
          -- a call that has ended keeps its postcondition, one in flight its rely
          cases hp : call.prog with
          | ret b => rw [hp] at hs; exact h.stable _ _ _ _ _ (h.keep i _ _ hg) hs
          | fail e => rw [hp] at hs; exact h.stable _ _ _ _ _ (h.keep i _ _ hg) hs
          | op o' k' =>
            rw [← hp]
            have hcomp := hc.pairs n m _ call hne hcall hm ⟨o, k, rfl⟩ ⟨o', k', hp⟩
            exact Prog.Sound.stable (h.trans call.request)
              (fun t r s s' => h.rely_stable _ t r s s') (h.rely i _ _ _ hcomp hg) hs
    · intro m m' x y hmm hx hy hxf hyf
      -- the call that moved was in flight before, with the same request
      have hback : ∀ (j : Nat) (z : Call O ε α ι),
          (c.calls.set n ⟨i, t ++ [⟨o, a⟩], k a⟩)[j]? = some z → z.InFlight →
          ∃ w, c.calls[j]? = some w ∧ w.InFlight ∧ w.request = z.request := by
        intro j z hz hzf
        rw [List.getElem?_set] at hz
        split at hz
        · next he =>
            split at hz <;> cases hz
            exact ⟨⟨i, t, .op o k⟩, he ▸ hcall, ⟨o, k, rfl⟩, rfl⟩
        · exact ⟨z, hz, hzf, rfl⟩
      obtain ⟨x', hx', hxf', hxr⟩ := hback m x hx hxf
      obtain ⟨y', hy', hyf', hyr⟩ := hback m' y hy hyf
      rw [← hxr, ← hyr]
      exact hc.pairs m m' x' y' hmm hx' hy' hxf' hyf'

/-- Parallel composition, over whole runs. -/
theorem reach_inv (h : Rules step start guard I R G K Q compat) {c c' : Pool σ O ε α ι}
    (hc : Inv step I R G Q compat c) (hr : Reach step start guard c c') :
    Inv step I R G Q compat c' := by
  induction hr with
  | refl => exact hc
  | tail _ hn ih => exact next_inv h ih hn

/-- What every step keeps, a run keeps. -/
theorem reach_keep (h : Rules step start guard I R G K Q compat) (hrefl : ∀ s, K s s)
    (htrans : ∀ a b c, K a b → K b c → K a c) {c c' : Pool σ O ε α ι}
    (hc : Inv step I R G Q compat c) (hr : Reach step start guard c c') :
    K c.store c'.store := by
  induction hr with
  | refl => exact hrefl _
  | @tail b d hb hn ih =>
    refine htrans _ _ _ ih ?_
    have hbi := reach_inv h hc hb
    cases hn with
    | start i _ => exact hrefl _
    | @advance n i t o k a s hcall hstep =>
      exact h.keep i _ _
        (hbi.sound _ (List.mem_of_getElem? hcall) b.store (h.refl i b.store) a s hstep).1

/-- The postcondition of a call that has returned, in every reachable pool. -/
theorem reach_returned (h : Rules step start guard I R G K Q compat) {c c' : Pool σ O ε α ι}
    (hc : Inv step I R G Q compat c) (hr : Reach step start guard c c') {call : Call O ε α ι}
    (hcall : call ∈ c'.calls) {a : α} (ha : call.Returned a) :
    Q call.request call.events (.ok a) c'.store := by
  have hs := (reach_inv h hc hr).sound call hcall
  rw [ha] at hs
  exact hs

end Pool

end RickydataGit.Lib
