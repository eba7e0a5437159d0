import SwiftMacro.Peg.Furthest
import SwiftMacro.Proofs.Matching
/-!
# The record follows the match

`Grammar.trace` goes the way of `Grammar.run`: `trace_follows` says that it ends where the match ends.
So it needs no more steps than the match: `trace_of_le` says that more steps leave the record as it is.
-/

namespace SwiftMacro

variable {ρ : Type}

/-- The trace stops where the outcome does: nowhere where it fails, and in front of its rest where it
matches. -/
inductive Outcome.Followed : Outcome ρ → Option Place × Furthest ρ → Prop where
  | undecided {t} : Followed .undecided t
  | failed {f} : Followed .failed (none, f)
  | matched {parts f} (place : Place) : Followed (.matched parts place.rest) (some place, f)

theorem Outcome.Followed.prepend {o : Outcome ρ} {t : Option Place × Furthest ρ} (h : o.Followed t)
    (front : List (Tree ρ)) : (o.prepend front).Followed t := by
  cases h with
  | undecided => exact .undecided
  | failed => exact .failed
  | matched => exact .matched _

namespace Grammar

variable {g : Grammar ρ}

theorem rest_skip (layout : Layout) (p : Place) :
    (g.skip layout p).rest = (g.gap layout p.rest).2 := by
  cases layout <;> rfl

/-- A trace ends where the match ends. -/
theorem trace_follows (n : Nat) (layout : Layout) (forbidden : Bool) (e : Peg ρ) (p : Place)
    (f : Furthest ρ) : (g.run n layout e p.rest).Followed (g.trace n layout forbidden e p f) := by
  induction n generalizing layout forbidden e p f with
  | zero => exact .undecided
  | succ n ih =>
    cases e with
    | empty => exact .matched _
    | one q =>
      obtain ⟨index, s⟩ := p
      cases s with
      | nil => exact .failed
      | cons c t =>
        simp only [run, trace]
        split
        · exact .matched ⟨index + 1, t⟩
        · exact .failed
    | lit w =>
      simp only [run, trace]
      cases dropWord w.toList p.rest with
      | none => exact .failed
      | some rest => exact .matched ⟨p.index + w.length, rest⟩
    -- What is matched goes on from the outcome of the first part, and the trace from its place: all that
    -- is used of the two is that one follows the other.
    | seq a b =>
      have ha := ih layout forbidden a p f
      rw [run_seq, trace]
      generalize g.run n layout a p.rest = o, g.trace n layout forbidden a p f = t at ha ⊢
      cases ha with
      | undecided => exact .undecided
      | failed => exact .failed
      | @matched parts f' q =>
        have hb := ih layout forbidden b (g.skip layout q) f'
        rw [rest_skip] at hb
        exact hb.prepend _
    | alt a b =>
      have ha := ih layout forbidden a p f
      rw [run_alt, trace]
      generalize g.run n layout a p.rest = o, g.trace n layout forbidden a p f = t at ha ⊢
      cases ha with
      | undecided => exact .undecided
      | failed => exact ih layout forbidden b p _
      | matched => exact .matched _
    | opt a =>
      have ha := ih layout forbidden a p f
      rw [run_opt, trace]
      generalize g.run n layout a p.rest = o, g.trace n layout forbidden a p f = t at ha ⊢
      cases ha with
      | undecided => exact .undecided
      | failed => exact .matched _
      | matched => exact .matched _
    | many a =>
      have ha := ih layout forbidden a p f
      rw [run_many, trace]
      generalize g.run n layout a p.rest = o, g.trace n layout forbidden a p f = t at ha ⊢
      cases ha with
      | undecided => exact .undecided
      | failed => exact .matched _
      | matched => exact (ih layout forbidden (.more a) _ _).prepend _
    | more a =>
      have ha := ih layout forbidden a (g.skip layout p) f
      rw [rest_skip] at ha
      rw [run_more, trace]
      generalize g.run n layout a (g.gap layout p.rest).2 = o,
        g.trace n layout forbidden a (g.skip layout p) f = t at ha ⊢
      cases ha with
      | undecided => exact .undecided
      | failed => exact .matched _
      | matched => exact (ih layout forbidden (.more a) _ _).prepend _
    | not a =>
      have ha := ih layout (!forbidden) a p f
      rw [run_not, trace]
      generalize g.run n layout a p.rest = o, g.trace n layout (!forbidden) a p f = t at ha ⊢
      cases ha with
      | undecided => exact .undecided
      | failed => exact .matched _
      | matched => exact .failed
    | rule r =>
      have hb := ih ((g.style r).inside layout) forbidden (g.body r) p f
      simp only [run_rule, trace]
      generalize g.run n ((g.style r).inside layout) (g.body r) p.rest = o,
        g.trace n ((g.style r).inside layout) forbidden (g.body r) p f = t at hb ⊢
      cases hb with
      | undecided => exact .undecided
      | failed => dsimp only; split <;> exact .failed
      | matched => dsimp only; split <;> exact .matched _

/-- One more step does not change the trace of what is decided. -/
theorem trace_succ (n : Nat) (layout : Layout) (forbidden : Bool) (e : Peg ρ) (p : Place)
    (f : Furthest ρ) (h : g.run n layout e p.rest ≠ .undecided) :
    g.trace (n + 1) layout forbidden e p f = g.trace n layout forbidden e p f := by
  induction n generalizing layout forbidden e p f with
  | zero => exact absurd rfl h
  | succ n ih =>
    cases e with
    | empty | one q | lit w => rfl
    | seq a b =>
      rw [run_seq] at h
      have ha := trace_follows (g := g) n layout forbidden a p f
      have hsucc := ih layout forbidden a p f fun hu => h (by rw [hu])
      rw [trace, hsucc, trace]
      generalize g.run n layout a p.rest = o, g.trace n layout forbidden a p f = t at ha h ⊢
      cases ha with
      | undecided => exact absurd rfl h
      | failed => rfl
      | matched =>
        refine ih layout forbidden b _ _ ?_
        rw [rest_skip]
        exact prepend_ne_undecided h
    | alt a b =>
      rw [run_alt] at h
      have ha := trace_follows (g := g) n layout forbidden a p f
      have hsucc := ih layout forbidden a p f fun hu => h (by rw [hu])
      rw [trace, hsucc, trace]
      generalize g.run n layout a p.rest = o, g.trace n layout forbidden a p f = t at ha h ⊢
      cases ha with
      | undecided => exact absurd rfl h
      | failed => exact ih layout forbidden b p _ h
      | matched => rfl
    | opt a =>
      rw [run_opt] at h
      have hsucc := ih layout forbidden a p f fun hu => h (by rw [hu])
      rw [trace, hsucc, trace]
    | many a =>
      rw [run_many] at h
      have ha := trace_follows (g := g) n layout forbidden a p f
      have hsucc := ih layout forbidden a p f fun hu => h (by rw [hu])
      rw [trace, hsucc, trace]
      generalize g.run n layout a p.rest = o, g.trace n layout forbidden a p f = t at ha h ⊢
      cases ha with
      | undecided => exact absurd rfl h
      | failed => rfl
      | matched => exact ih layout forbidden (.more a) _ _ (prepend_ne_undecided h)
    | more a =>
      rw [run_more] at h
      have ha := trace_follows (g := g) n layout forbidden a (g.skip layout p) f
      have hsucc := ih layout forbidden a (g.skip layout p) f fun hu =>
        h (by rw [← rest_skip, hu])
      rw [rest_skip] at ha
      rw [trace, hsucc, trace]
      generalize g.run n layout a (g.gap layout p.rest).2 = o,
        g.trace n layout forbidden a (g.skip layout p) f = t at ha h ⊢
      cases ha with
      | undecided => exact absurd rfl h
      | failed => rfl
      | matched => exact ih layout forbidden (.more a) _ _ (prepend_ne_undecided h)
    | not a =>
      rw [run_not] at h
      have hsucc := ih layout (!forbidden) a p f fun hu => h (by rw [hu])
      rw [trace, hsucc, trace]
    | rule r =>
      rw [run_rule] at h
      have hsucc := ih ((g.style r).inside layout) forbidden (g.body r) p f fun hu => h (by rw [hu])
      simp only [trace, hsucc]

/-- The trace of what is decided stays the same with more steps. -/
theorem trace_of_le {n m : Nat} (hnm : n ≤ m) (layout : Layout) (forbidden : Bool) (e : Peg ρ)
    (p : Place) (f : Furthest ρ) (h : g.run n layout e p.rest ≠ .undecided) :
    g.trace m layout forbidden e p f = g.trace n layout forbidden e p f := by
  induction hnm with
  | refl => rfl
  | @step m hle ih =>
    have hm : g.run m layout e p.rest ≠ .undecided := by
      rw [run_of_le hle h rfl]
      exact h
    rw [trace_succ m layout forbidden e p f hm, ih]

end Grammar
end SwiftMacro
