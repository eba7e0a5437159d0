/-!
# Parsing expression grammars

A grammar is data: one expression for each rule. `Grammar.run` matches an expression at the start
of a text and gives back the tree of what it matched and the text that is left. The tree is
lossless, so offsets are no business of the matcher: the texts of the tree and the rest make up the
input.

Sequences and repetitions skip blanks between their parts, unless a rule is written without gaps.
-/

namespace SwiftMacro

/-- How an expression is being matched: with blanks skipped between its parts (`spaced`), without
(`joined`), or without and leaving no nodes in the tree (`hidden`). -/
inductive Layout where
  | spaced | joined | hidden
deriving DecidableEq, Repr

/-- How a rule is written. -/
inductive RuleStyle where
  /-- Matched in the layout of the place of use. -/
  | plain
  /-- A single word: its inside is hidden, the word itself is as visible as its place of use. -/
  | word
  /-- A visible rule with no blanks between its parts. -/
  | joined
  /-- A visible rule with blanks allowed between its parts, whatever surrounds it. -/
  | spaced
deriving DecidableEq, Repr

/-- Parsing expressions over rules of type `ρ`. -/
inductive Peg (ρ : Type) where
  | empty
  /-- One character of a class. -/
  | one (p : Char → Bool)
  /-- Exactly these characters. -/
  | lit (word : String)
  | seq (first second : Peg ρ)
  /-- The second alternative is tried only where the first fails. -/
  | alt (first second : Peg ρ)
  | opt (inner : Peg ρ)
  /-- As many matches as there are, one after the other. -/
  | many (inner : Peg ρ)
  /-- The matches of a `many` after its first one. -/
  | more (inner : Peg ρ)
  /-- Matches the empty text where the inner expression does not match. -/
  | not (inner : Peg ρ)
  | rule (r : ρ)

namespace Peg

variable {ρ : Type}

instance : Append (Peg ρ) := ⟨seq⟩

instance : Div (Peg ρ) := ⟨alt⟩

instance : Coe String (Peg ρ) := ⟨lit⟩

/-- At least one match. -/
def plus (e : Peg ρ) : Peg ρ := e ++ many e

/-- Between one and `n + 1` matches. -/
def upTo (e : Peg ρ) : Nat → Peg ρ
  | 0 => e
  | n + 1 => e ++ opt (upTo e n)

/-- The end of the text. -/
def finish : Peg ρ := not (one fun _ => true)

end Peg

/-- What was matched: text of the enclosing rule, or a rule with its parts. -/
inductive Tree (ρ : Type) where
  | text (chars : List Char)
  | node (rule : ρ) (parts : List (Tree ρ))

namespace Tree

variable {ρ : Type}

mutual

/-- All the text below a tree. -/
def chars : Tree ρ → List Char
  | text cs => cs
  | node _ parts => charsOf parts

/-- All the text below the trees of a list. -/
def charsOf : List (Tree ρ) → List Char
  | [] => []
  | t :: ts => t.chars ++ charsOf ts

end

@[simp] theorem charsOf_append (ts us : List (Tree ρ)) :
    charsOf (ts ++ us) = charsOf ts ++ charsOf us := by
  induction ts with
  | nil => rfl
  | cons t ts ih => simp [charsOf, ih]

end Tree

/-- The result of matching: not decided within the given number of steps, no match, or the parts
matched and the rest of the text. -/
inductive Outcome (ρ : Type) where
  | undecided
  | failed
  | matched (parts : List (Tree ρ)) (rest : List Char)

/-- The same outcome with more parts in front of a match. -/
def Outcome.prepend {ρ : Type} (front : List (Tree ρ)) : Outcome ρ → Outcome ρ
  | .matched parts rest => .matched (front ++ parts) rest
  | other => other

/-- A grammar: the expression and the style of each rule, and how blanks are split off the start of
a text. -/
structure Grammar (ρ : Type) where
  body : ρ → Peg ρ
  style : ρ → RuleStyle
  /-- The blanks at the start of a text, and the rest. -/
  blanks : List Char → List Char × List Char
  /-- More than the number of expressions that can be entered one inside the other before a
  character is taken. -/
  depth : Nat

/-- What is left of a text after a word at its start. -/
def dropWord : List Char → List Char → Option (List Char)
  | [], s => some s
  | _ :: _, [] => none
  | c :: w, d :: s => if c = d then dropWord w s else none

namespace RuleStyle

/-- The layout inside a rule of this style. -/
def inside (style : RuleStyle) (layout : Layout) : Layout :=
  match style with
  | plain => layout
  | word => .hidden
  | joined => .joined
  | spaced => .spaced

/-- The layout that decides whether a rule of this style is visible. -/
def outside (style : RuleStyle) (layout : Layout) : Layout :=
  match style with
  | plain | word => layout
  | joined => .joined
  | spaced => .spaced

end RuleStyle

namespace Grammar

variable {ρ : Type} (g : Grammar ρ)

/-- The gap in front of the next part: blanks where the layout has any, and the rest. -/
def gap (layout : Layout) (s : List Char) : List (Tree ρ) × List Char :=
  match layout with
  | .spaced => let (blank, rest) := g.blanks s; ([.text blank], rest)
  | _ => ([], s)

/-- A matched rule as it stands in the tree: a node, or only its text where rules are hidden. -/
def close (r : ρ) (layout : Layout) (parts : List (Tree ρ)) : List (Tree ρ) :=
  if (g.style r).outside layout = .hidden then parts else [.node r parts]

/-- Matches an expression at the start of a text within a number of steps. -/
def run : Nat → Layout → Peg ρ → List Char → Outcome ρ
  | 0, _, _, _ => .undecided
  | _ + 1, _, .empty, s => .matched [] s
  | _ + 1, _, .one p, s =>
      match s with
      | [] => .failed
      | c :: rest => if p c then .matched [.text [c]] rest else .failed
  | _ + 1, _, .lit w, s =>
      match dropWord w.toList s with
      | none => .failed
      | some rest => .matched [.text w.toList] rest
  | n + 1, layout, .seq a b, s =>
      match run n layout a s with
      | .matched parts rest =>
          let (blank, rest) := g.gap layout rest
          (run n layout b rest).prepend (parts ++ blank)
      | other => other
  | n + 1, layout, .alt a b, s =>
      match run n layout a s with
      | .failed => run n layout b s
      | other => other
  | n + 1, layout, .opt a, s =>
      match run n layout a s with
      | .failed => .matched [] s
      | other => other
  | n + 1, layout, .many a, s =>
      match run n layout a s with
      | .failed => .matched [] s
      | .matched parts rest => (run n layout (.more a) rest).prepend parts
      | .undecided => .undecided
  | n + 1, layout, .more a, s =>
      let (blank, next) := g.gap layout s
      match run n layout a next with
      | .failed => .matched [] s
      | .matched parts rest => (run n layout (.more a) rest).prepend (blank ++ parts)
      | .undecided => .undecided
  | n + 1, layout, .not a, s =>
      match run n layout a s with
      | .failed => .matched [] s
      | .matched _ _ => .failed
      | .undecided => .undecided
  | n + 1, layout, .rule r, s =>
      match run n ((g.style r).inside layout) (g.body r) s with
      | .matched parts rest => .matched (g.close r layout parts) rest
      | other => other

/-- A number of steps within which every text is decided. -/
def steps (s : List Char) : Nat := g.depth * (s.length + 1)

/-- Matches a rule at the start of a text; gives its tree and the rest. -/
def parse (r : ρ) (s : List Char) : Option (List (Tree ρ) × List Char) :=
  match g.run (g.steps s) .spaced (.rule r) s with
  | .matched parts rest => some (parts, rest)
  | _ => none

/-! ## Nothing is lost -/

theorem append_of_dropWord : ∀ {w s rest : List Char}, dropWord w s = some rest → w ++ rest = s
  | [], _, _, h => by simpa [dropWord] using h.symm
  | c :: w, [], _, h => by simp [dropWord] at h
  | c :: w, d :: s, rest, h => by
    by_cases hc : c = d
    · subst hc
      simp only [dropWord, if_true] at h
      rw [List.cons_append, append_of_dropWord h]
    · simp [dropWord, hc] at h

/-- Blanks are split off without losing a character. -/
def BlanksSplit : Prop := ∀ s, (g.blanks s).1 ++ (g.blanks s).2 = s

variable {g}

theorem gap_text (hg : g.BlanksSplit) (layout : Layout) (s : List Char) :
    Tree.charsOf (g.gap layout s).1 ++ (g.gap layout s).2 = s := by
  cases layout <;> simp [gap, Tree.charsOf, Tree.chars, hg s]

theorem close_chars (r : ρ) (layout : Layout) (parts : List (Tree ρ)) :
    Tree.charsOf (g.close r layout parts) = Tree.charsOf parts := by
  unfold close
  split <;> simp [Tree.charsOf, Tree.chars]

theorem prepend_eq_matched {o : Outcome ρ} {front parts : List (Tree ρ)} {rest : List Char}
    (h : o.prepend front = .matched parts rest) :
    ∃ back, o = .matched back rest ∧ parts = front ++ back := by
  cases o with
  | matched back r =>
    simp only [Outcome.prepend, Outcome.matched.injEq] at h
    exact ⟨back, by rw [h.2], h.1.symm⟩
  | undecided => simp [Outcome.prepend] at h
  | failed => simp [Outcome.prepend] at h

end Grammar
end SwiftMacro
