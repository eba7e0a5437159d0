import SwiftMacro.Peg
/-!
# Where matching got stuck

When a text does not match, the report names the furthest place at which a rule was tried, the
rules that were expected there and the rules that were found although a lookahead forbids them.
`Grammar.trace` matches like `Grammar.run`, keeps no tree, and carries that record along.

A rule takes the place of the attempts made inside it, unless exactly one attempt was made inside
it: then that one says more and stays.
-/

namespace SwiftMacro

/-- The furthest place at which a rule did not do what it should. -/
structure Furthest (ρ : Type) where
  /-- How many characters stand before the place. -/
  place : Nat
  /-- Rules that were expected there, in the order they were tried. -/
  expected : List ρ
  /-- Rules that matched there under a lookahead that forbids them. -/
  unexpected : List ρ

namespace Furthest

variable {ρ : Type}

/-- Nothing tried yet. -/
def start : Furthest ρ := ⟨0, [], []⟩

/-- The number of attempts recorded at a place. -/
def attempts (f : Furthest ρ) (place : Nat) : Nat :=
  if place = f.place then f.expected.length + f.unexpected.length else 0

/-- Records the rule `r` tried at `place`; `before` is the record at the time it was entered. -/
def note (f before : Furthest ρ) (r : ρ) (place : Nat) (forbidden : Bool) : Furthest ρ :=
  if f.attempts place = before.attempts place + 1 then f
  else if place < f.place then f
  else
    let kept : Furthest ρ :=
      if f.place < place ∨ before.place ≠ place then ⟨place, [], []⟩
      else ⟨place, f.expected.take before.expected.length,
        f.unexpected.take before.unexpected.length⟩
    if forbidden then { kept with unexpected := kept.unexpected ++ [r] }
    else { kept with expected := kept.expected ++ [r] }

end Furthest

/-- A place in a text: how many characters stand before it, and those that follow. -/
structure Place where
  index : Nat
  rest : List Char

namespace Grammar

variable {ρ : Type} (g : Grammar ρ)

/-- The place after the blanks, where the layout skips any. -/
def skip (layout : Layout) (p : Place) : Place :=
  match layout with
  | .spaced => let (blank, rest) := g.blanks p.rest; ⟨p.index + blank.length, rest⟩
  | _ => p

/-- Matches an expression and keeps the record of the furthest attempts. `forbidden` holds inside an
odd number of lookaheads, where a match is what should not be. -/
def trace : Nat → Layout → Bool → Peg ρ → Place → Furthest ρ → Option Place × Furthest ρ
  | 0, _, _, _, _, f => (none, f)
  | _ + 1, _, _, .empty, p, f => (some p, f)
  | _ + 1, _, _, .one q, p, f =>
      match p.rest with
      | [] => (none, f)
      | c :: rest => (if q c then some ⟨p.index + 1, rest⟩ else none, f)
  | _ + 1, _, _, .lit w, p, f =>
      ((dropWord w.toList p.rest).map fun rest => ⟨p.index + w.length, rest⟩, f)
  | n + 1, layout, forbidden, .seq a b, p, f =>
      match trace n layout forbidden a p f with
      | (none, f) => (none, f)
      | (some q, f) => trace n layout forbidden b (g.skip layout q) f
  | n + 1, layout, forbidden, .alt a b, p, f =>
      match trace n layout forbidden a p f with
      | (none, f) => trace n layout forbidden b p f
      | result => result
  | n + 1, layout, forbidden, .opt a, p, f =>
      match trace n layout forbidden a p f with
      | (none, f) => (some p, f)
      | result => result
  | n + 1, layout, forbidden, .many a, p, f =>
      match trace n layout forbidden a p f with
      | (none, f) => (some p, f)
      | (some q, f) => trace n layout forbidden (.more a) q f
  | n + 1, layout, forbidden, .more a, p, f =>
      match trace n layout forbidden a (g.skip layout p) f with
      | (none, f) => (some p, f)
      | (some q, f) => trace n layout forbidden (.more a) q f
  | n + 1, layout, forbidden, .not a, p, f =>
      match trace n layout (!forbidden) a p f with
      | (none, f) => (some p, f)
      | (some _, f) => (none, f)
  | n + 1, layout, forbidden, .rule r, p, f =>
      let (q, inner) := trace n ((g.style r).inside layout) forbidden (g.body r) p f
      if (g.style r).outside layout ≠ .hidden ∧ q.isSome = forbidden then
        (q, inner.note f r p.index forbidden)
      else (q, inner)

/-- The furthest attempts made while matching a rule at the start of a text. -/
def furthest (r : ρ) (s : List Char) : Furthest ρ :=
  (g.trace (g.steps s) .spaced false (.rule r) ⟨0, s⟩ .start).2

end Grammar
end SwiftMacro
