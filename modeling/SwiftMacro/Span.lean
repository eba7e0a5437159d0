/-!
# Spans

A span is a range of byte offsets into a source text.
-/

namespace SwiftMacro

/-- The bytes of a text from `start` up to, and without, `stop`. -/
structure Span where
  start : Nat
  stop : Nat
deriving DecidableEq, Repr, Inhabited

namespace Span

/-- How many bytes the span covers; none when it stops before it starts. -/
def length (s : Span) : Nat := s.stop - s.start

/-- Whether the span covers no byte. -/
def isEmpty (s : Span) : Bool := s.length == 0

/-- The smallest span that covers both spans. -/
def cover (s t : Span) : Span := ⟨min s.start t.start, max s.stop t.stop⟩

/-- The same span in a text that has `n` more bytes in front. -/
def shift (n : Nat) (s : Span) : Span := ⟨s.start + n, s.stop + n⟩

@[simp] theorem shift_zero (s : Span) : s.shift 0 = s := rfl

theorem cover_self (s : Span) : s.cover s = s := by simp [cover]

theorem shift_cover (n : Nat) (s t : Span) : (s.cover t).shift n = (s.shift n).cover (t.shift n) := by
  simp only [cover, shift, mk.injEq]
  omega

end Span
end SwiftMacro
