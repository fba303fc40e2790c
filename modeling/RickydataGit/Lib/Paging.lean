/-
  Reading a growing set page by page, the reader naming what it knows.

  A page brings some of what the server holds and the reader did not name, and how
  much more there was. When every page is `Exact` and the reader names all it started
  with and all it received, then over a whole `Session`

  * `Session.nodup` : nothing is received twice, nor anything known from the start;
  * `Session.complete` : a page that reports nothing more leaves the reader with all
    that was held when it was made.

  The server may come to hold more between the pages.
-/
import Mathlib

namespace RickydataGit.Lib

variable {α : Type}

structure Page (α : Type) where
  held : Set α
  known : List α
  received : List α
  remaining : Nat

/-- What is received are the first of all that is held and not known. -/
def Page.Exact (page : Page α) : Prop :=
  ∃ missing : List α, missing.Nodup ∧ (∀ a, a ∈ missing ↔ a ∈ page.held ∧ a ∉ page.known) ∧
    page.received <+: missing ∧ missing.length = page.received.length + page.remaining

/-- The pages of a reader that knew `known` at the start. -/
inductive Session (known : List α) : List (Page α) → Prop where
  | start : Session known []
  | turn {pages : List (Page α)} (page : Page α) : Session known pages →
      page.known = known ++ pages.flatMap Page.received → page.Exact →
      Session known (pages ++ [page])

section Session

variable {known : List α} {pages : List (Page α)} {page : Page α}

theorem Page.Exact.nodup (h : page.Exact) : page.received.Nodup := by
  obtain ⟨missing, hnodup, -, hpre, -⟩ := h
  exact hnodup.sublist hpre.sublist

theorem Page.Exact.not_known (h : page.Exact) {a : α} (ha : a ∈ page.received) :
    a ∉ page.known := by
  obtain ⟨missing, -, hmem, hpre, -⟩ := h
  exact ((hmem a).mp (hpre.subset ha)).2

/-- With nothing remaining, all that is held is known or received. -/
theorem Page.Exact.complete (h : page.Exact) (hr : page.remaining = 0) {a : α}
    (ha : a ∈ page.held) : a ∈ page.known ∨ a ∈ page.received := by
  obtain ⟨missing, -, hmem, hpre, hlength⟩ := h
  have hall : page.received = missing := hpre.eq_of_length (by omega)
  by_cases hk : a ∈ page.known
  · exact .inl hk
  · exact .inr (hall ▸ (hmem a).mpr ⟨ha, hk⟩)

theorem flatMap_received_concat (pages : List (Page α)) (page : Page α) :
    (pages ++ [page]).flatMap Page.received = pages.flatMap Page.received ++ page.received := by
  rw [List.flatMap_append, List.flatMap_singleton]

theorem Session.nodup (h : Session known pages) :
    (pages.flatMap Page.received).Nodup ∧ ∀ a ∈ pages.flatMap Page.received, a ∉ known := by
  induction h with
  | start => simp
  | turn page _ hknown hexact ih =>
    obtain ⟨hnodup, hnew⟩ := ih
    have hfresh : ∀ a ∈ page.received, a ∉ known ∧ a ∉ _ := fun a ha => by
      have hn := hexact.not_known ha
      rwa [hknown, List.mem_append, not_or] at hn
    rw [flatMap_received_concat]
    refine ⟨hnodup.append hexact.nodup fun a ha ha' => (hfresh a ha').2 ha, fun a ha => ?_⟩
    rcases List.mem_append.mp ha with ha | ha
    · exact hnew a ha
    · exact (hfresh a ha).1

theorem Session.complete (h : Session known pages) {before after : List (Page α)}
    (hp : pages = before ++ page :: after) (hr : page.remaining = 0) {a : α}
    (ha : a ∈ page.held) : a ∈ known ++ (before ++ [page]).flatMap Page.received := by
  induction h generalizing after with
  | start => simp at hp
  | @turn pages last _ hknown hexact ih =>
    rcases List.eq_nil_or_concat after with rfl | ⟨after', last', rfl⟩
    · obtain ⟨rfl, hlast⟩ := List.append_inj' hp rfl
      obtain rfl : last = page := List.singleton_inj.mp hlast
      rw [flatMap_received_concat, ← List.append_assoc, ← hknown, List.mem_append]
      exact hexact.complete hr ha
    · rw [List.concat_eq_append, ← List.cons_append, ← List.append_assoc] at hp
      exact ih (List.append_inj' hp rfl).1

end Session

end RickydataGit.Lib
