/-!
# Trivia

Between the words of a source stand blanks (space, tab, carriage return, line feed), line comments
and block comments. `Trivia.split` takes them off the start of a text; `split_append` says that no
character is lost. A block comment that is never closed is no trivia.
-/

namespace SwiftMacro.Trivia

/-- The characters that are skipped between words. -/
def isBlank (c : Char) : Bool := c == ' ' || c == '\t' || c == '\r' || c == '\n'

/-- Splits a text after the first `*/`. -/
def splitBlock : List Char → Option (List Char × List Char)
  | [] => none
  | '*' :: '/' :: rest => some (['*', '/'], rest)
  | c :: rest => (splitBlock rest).map fun (front, rest) => (c :: front, rest)

/-- One blank or one comment at the start of a text, and the rest. -/
def first : List Char → Option (List Char × List Char)
  | '/' :: '/' :: rest =>
      some ('/' :: '/' :: rest.takeWhile (· != '\n'), rest.dropWhile (· != '\n'))
  | '/' :: '*' :: rest =>
      (splitBlock rest).map fun (front, rest) => ('/' :: '*' :: front, rest)
  | c :: rest => if isBlank c then some ([c], rest) else none
  | [] => none

theorem splitBlock_append : ∀ {s a b : List Char}, splitBlock s = some (a, b) → a ++ b = s := by
  intro s
  fun_induction splitBlock s with
  | case1 => intro a b h; simp at h
  | case2 rest => intro a b h; simp only [Option.some.injEq, Prod.mk.injEq] at h; simp [← h.1, ← h.2]
  | case3 c rest _ ih =>
    intro a b h
    obtain ⟨⟨front, r⟩, hr, he⟩ := Option.map_eq_some_iff.1 h
    simp only [Prod.mk.injEq] at he
    rw [← he.1, ← he.2, List.cons_append, ih hr]

theorem first_append {s a b : List Char} (h : first s = some (a, b)) : a ++ b = s := by
  unfold first at h
  split at h
  · simp only [Option.some.injEq, Prod.mk.injEq] at h
    simp [← h.1, ← h.2, List.takeWhile_append_dropWhile]
  · obtain ⟨⟨front, r⟩, hr, he⟩ := Option.map_eq_some_iff.1 h
    simp only [Prod.mk.injEq] at he
    rw [← he.1, ← he.2, List.cons_append, List.cons_append, splitBlock_append hr]
  · split at h
    · simp only [Option.some.injEq, Prod.mk.injEq] at h; simp [← h.1, ← h.2]
    · simp at h
  · simp at h

theorem first_ne_nil {s a b : List Char} (h : first s = some (a, b)) : a ≠ [] := by
  unfold first at h
  split at h
  · simp only [Option.some.injEq, Prod.mk.injEq] at h; simp [← h.1]
  · obtain ⟨⟨front, r⟩, _, he⟩ := Option.map_eq_some_iff.1 h
    simp only [Prod.mk.injEq] at he
    simp [← he.1]
  · split at h
    · simp only [Option.some.injEq, Prod.mk.injEq] at h; simp [← h.1]
    · simp at h
  · simp at h

/-- One piece of trivia leaves a shorter text. -/
theorem length_lt_of_first {s a b : List Char} (h : first s = some (a, b)) :
    b.length < s.length := by
  have h1 := congrArg List.length (first_append h)
  have h2 := List.length_pos_iff.2 (first_ne_nil h)
  simp only [List.length_append] at h1
  omega

/-- The trivia at the start of a text, and the rest. -/
def split (s : List Char) : List Char × List Char :=
  match _h : first s with
  | none => ([], s)
  | some (front, rest) => let (more, rest) := split rest; (front ++ more, rest)
termination_by s.length
decreasing_by exact length_lt_of_first _h

/-- No character is lost. -/
theorem split_append (s : List Char) : (split s).1 ++ (split s).2 = s := by
  fun_induction split s with
  | case1 s _ => rfl
  | case2 s front rest h more rest' hs ih =>
    rw [hs] at ih
    simp only [List.append_assoc, ih, first_append h]

end SwiftMacro.Trivia
