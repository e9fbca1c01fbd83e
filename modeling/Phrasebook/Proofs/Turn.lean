import Mathlib.Logic.Function.Basic
import Phrasebook.Registry

/-!
# Turns and the roles of their callers

Whoever keeps a `Turn` also knows of each caller whether it holds the turn, waits for it, or has
nothing to do with it. `Turn.Agrees` says that the turn and these roles tell the same story, and
the lemmas say how the roles change when the turn is asked for and passed on.
-/

namespace Phrasebook

inductive Role where
  | idle
  | holding
  | waiting
  deriving DecidableEq, Repr

namespace Turn

/-- The turn knows just the callers with a role, and nobody waits for a turn that is free. -/
structure Agrees (turn : Turn) (role : Nat → Role) : Prop where
  holder : ∀ caller, turn.holder = some caller ↔ role caller = .holding
  waiting : ∀ caller, caller ∈ turn.waiting ↔ role caller = .waiting
  nodup : turn.waiting.Nodup
  busy : turn.holder = none → turn.waiting = []

variable {turn : Turn} {role : Nat → Role} {caller : Nat}

theorem agrees_idle : Agrees {} fun _ => .idle where
  holder := by simp
  waiting := by simp
  nodup := List.nodup_nil
  busy _ := rfl

theorem Agrees.congr {role' : Nat → Role} (h : turn.Agrees role) (he : ∀ c, role' c = role c) :
    turn.Agrees role' := by
  rw [funext he]; exact h

theorem Agrees.idle_of_free (h : turn.Agrees role) (free : turn.holder = none) (other : Nat) :
    role other = .idle := by
  have hholder := h.holder other
  have hwaiting := h.waiting other
  rw [free] at hholder
  rw [h.busy free] at hwaiting
  cases hrole : role other <;> simp_all

theorem Agrees.ask_free (h : turn.Agrees role) (free : turn.holder = none) :
    (turn.ask caller).1.Agrees (Function.update role caller .holding) := by
  have hidle := h.idle_of_free free
  have hwaiting := h.busy free
  obtain ⟨holder, waiting⟩ := turn
  subst free hwaiting
  constructor
  · intro other
    by_cases e : other = caller
    · subst e; simp [ask]
    · simp [ask, e, hidle, Ne.symm e]
  · intro other
    by_cases e : other = caller
    · subst e; simp [ask]
    · simp [ask, e, hidle]
  · exact List.nodup_nil
  · simp [ask]

theorem Agrees.ask_taken (h : turn.Agrees role) (taken : turn.holder ≠ none)
    (hcaller : role caller = .idle) :
    (turn.ask caller).1.Agrees (Function.update role caller .waiting) := by
  obtain ⟨holder, hh⟩ := Option.ne_none_iff_exists'.1 taken
  have hask : (turn.ask caller).1 = { turn with waiting := turn.waiting ++ [caller] } := by
    simp [ask, hh]
  have hnot : caller ∉ turn.waiting := by simp [h.waiting, hcaller]
  rw [hask]
  constructor
  · intro other
    by_cases e : other = caller
    · subst e; simp [h.holder, hcaller]
    · simp [e, h.holder]
  · intro other
    by_cases e : other = caller
    · subst e; simp
    · simp [e, h.waiting]
  · exact List.nodup_append.2 ⟨h.nodup, by simp, by
      intro a ha b hb; simp only [List.mem_singleton] at hb; subst hb; exact fun e => hnot (e ▸ ha)⟩
  · intro hnone; exact absurd hnone taken

theorem pass_next (turn : Turn) : turn.pass.2 = turn.waiting.head? := by
  unfold pass; cases turn.waiting <;> rfl

theorem mem_waiting_of_pass (h : caller ∈ turn.pass.2.toList) : caller ∈ turn.waiting := by
  rw [pass_next] at h
  exact List.mem_of_mem_head? (by simpa using h)

/-- The holder passes the turn on: it has no role any more, and the next caller has the turn. -/
theorem Agrees.pass (h : turn.Agrees role) (hcaller : role caller = .holding) :
    turn.pass.1.Agrees fun other =>
      if other = caller then .idle else if other ∈ turn.pass.2.toList then .holding
      else role other := by
  have hholder : turn.holder = some caller := (h.holder caller).2 hcaller
  have hone : ∀ other, role other = .holding → other = caller := fun other ho => by
    have := (h.holder other).2 ho
    rw [hholder] at this; exact (Option.some.inj this).symm
  have hwaits : ∀ other ∈ turn.waiting, other ≠ caller := fun other ho e => by
    have := (h.waiting other).1 ho
    rw [e, hcaller] at this; cases this
  obtain ⟨holder, waiting⟩ := turn
  cases waiting with
  | nil =>
    constructor
    · intro other
      by_cases e : other = caller
      · simp [Turn.pass, e]
      · simpa [Turn.pass, e] using fun ho => e (hone other ho)
    · intro other
      have := h.waiting other
      by_cases e : other = caller
      · simp [Turn.pass, e]
      · simpa [Turn.pass, e] using this
    · exact List.nodup_nil
    · intro _; rfl
  | cons next rest =>
    obtain ⟨hnext, hrest⟩ := List.nodup_cons.1 h.nodup
    have hne : next ≠ caller := hwaits next (by simp)
    constructor
    · intro other
      by_cases e : other = caller
      · simpa [Turn.pass, e] using hne
      · by_cases en : other = next
        · subst en; simp [Turn.pass, e]
        · simpa [Turn.pass, e, en, Ne.symm en] using fun ho => e (hone other ho)
    · intro other
      have hw := h.waiting other
      by_cases e : other = caller
      · subst e
        simpa [Turn.pass] using fun ho => hwaits other (by simp [ho]) rfl
      · by_cases en : other = next
        · subst en; simpa [Turn.pass, e] using hnext
        · simpa [Turn.pass, e, en] using hw
    · exact hrest
    · simp [Turn.pass]

/-- The holder has what the turn was for, and so have all who waited. -/
theorem Agrees.close (h : turn.Agrees role) (hcaller : role caller = .holding) (other : Nat) :
    (if other = caller ∨ other ∈ turn.waiting then Role.idle else role other) = .idle := by
  have hholder : turn.holder = some caller := (h.holder caller).2 hcaller
  split
  · rfl
  · next hnot =>
    cases hrole : role other with
    | idle => rfl
    | holding =>
      have := (h.holder other).2 hrole
      rw [hholder] at this
      exact absurd (.inl (Option.some.inj this).symm) hnot
    | waiting => exact absurd (.inr ((h.waiting other).2 hrole)) hnot

end Turn

/-! ## Cells -/

namespace Cell

variable {cell : Cell} {caller : Nat}

theorem ask_full {value : Json} (hdata : cell.dataset = some value) :
    cell.ask caller = (cell, .dataset value) := by
  unfold ask; rw [hdata]

theorem ask_taken (hdata : cell.dataset = none) (hturn : cell.turn.holder ≠ none) :
    cell.ask caller = ({ cell with turn := (cell.turn.ask caller).1 }, .queued) := by
  obtain ⟨holder, hholder⟩ := Option.ne_none_iff_exists'.1 hturn
  unfold ask Turn.ask
  simp [hdata, hholder]

theorem ask_free (hdata : cell.dataset = none) (hturn : cell.turn.holder = none) :
    cell.ask caller = ({ cell with turn := (cell.turn.ask caller).1 }, .turn) := by
  unfold ask Turn.ask
  simp [hdata, hturn]

end Cell

end Phrasebook
