import SwiftMacro.Proofs.Skipping
/-!
# Texts that are cut off

A match of an expression at the start of `s ++ r` that leaves `y ++ r` keeps to `s`. Whether it is
still there when `r` is cut off depends on the attempts that failed on the way, since those may have
looked at `r`. `Within` is a match that keeps to `s`, taken apart as the expression is; `Keeps` says of
an expression that its failure at some place does not depend on `r`. Blanks can be cut off anywhere
(`gap_cut`), and so can words (`cut_of_isLocal`).
-/

namespace SwiftMacro

open Peg

/-! ## Blanks -/

namespace Trivia

variable {s r a b : List Char}

theorem splitBlock_extend (r : List Char) (h : splitBlock s = some (a, b)) :
    splitBlock (s ++ r) = some (a, b ++ r) := by
  fun_induction splitBlock s generalizing a b with
  | case1 => cases h
  | case2 rest =>
    obtain ⟨rfl, rfl⟩ := Prod.mk.inj (Option.some.inj h)
    rfl
  | case3 c rest hne ih =>
    obtain ⟨⟨front, back⟩, hr, he⟩ := Option.map_eq_some_iff.1 h
    obtain ⟨rfl, rfl⟩ := Prod.mk.inj he
    rw [List.cons_append, splitBlock]
    · rw [ih hr]
      rfl
    · rintro t rfl hrest
      -- The rest is not empty, so the slash would have been seen.
      cases rest with
      | nil => cases hr
      | cons d rest =>
        obtain ⟨rfl, -⟩ := List.cons.inj hrest
        exact hne rest rfl rfl

/-- A block comment ends where its own text does. -/
theorem splitBlock_front (h : splitBlock s = some (a, b)) : splitBlock a = some (a, []) := by
  fun_induction splitBlock s generalizing a b with
  | case1 => cases h
  | case2 rest =>
    obtain ⟨rfl, -⟩ := Prod.mk.inj (Option.some.inj h)
    rfl
  | case3 c rest hne ih =>
    obtain ⟨⟨front, back⟩, hr, he⟩ := Option.map_eq_some_iff.1 h
    obtain ⟨rfl, rfl⟩ := Prod.mk.inj he
    have hrest := splitBlock_append hr
    rw [splitBlock]
    · rw [ih hr]
      rfl
    · rintro t rfl rfl
      exact hne (t ++ back) rfl hrest.symm

/-- A piece of trivia is a line comment, a block comment or one blank. -/
theorem first_eq_some_iff : first s = some (a, b) ↔
    (∃ rest, s = '/' :: '/' :: rest ∧ a = '/' :: '/' :: rest.takeWhile (· != '\n') ∧
      b = rest.dropWhile (· != '\n')) ∨
    (∃ rest front, s = '/' :: '*' :: rest ∧ splitBlock rest = some (front, b) ∧
      a = '/' :: '*' :: front) ∨
    ∃ c, s = c :: b ∧ isBlank c = true ∧ a = [c] := by
  constructor
  · intro h
    unfold first at h
    split at h
    · obtain ⟨rfl, rfl⟩ := Prod.mk.inj (Option.some.inj h)
      exact .inl ⟨_, rfl, rfl, rfl⟩
    · obtain ⟨⟨front, back⟩, hr, he⟩ := Option.map_eq_some_iff.1 h
      obtain ⟨rfl, rfl⟩ := Prod.mk.inj he
      exact .inr (.inl ⟨_, front, rfl, hr, rfl⟩)
    · split at h
      · next c rest _ _ hc =>
        obtain ⟨rfl, rfl⟩ := Prod.mk.inj (Option.some.inj h)
        exact .inr (.inr ⟨c, rfl, hc, rfl⟩)
      · cases h
    · cases h
  · rintro (⟨rest, rfl, rfl, rfl⟩ | ⟨rest, front, rfl, hr, rfl⟩ | ⟨c, rfl, hc, rfl⟩)
    · rfl
    · simp only [first, hr, Option.map_some]
    · unfold first
      split
      · next h' => obtain ⟨rfl, -⟩ := List.cons.inj h'; cases hc
      · next h' => obtain ⟨rfl, -⟩ := List.cons.inj h'; cases hc
      · next h' =>
        obtain ⟨rfl, rfl⟩ := List.cons.inj h'
        rw [if_pos hc]
      · next h' => cases h'

theorem takeWhile_dropWhile_append {p : Char → Bool} {w t : List Char} (hw : ∀ c ∈ w, p c = true)
    (ht : ∀ c, t.head? = some c → p c = false) :
    (w ++ t).takeWhile p = w ∧ (w ++ t).dropWhile p = t := by
  induction w with
  | nil =>
    cases t with
    | nil => exact ⟨rfl, rfl⟩
    | cons c t => simp [ht c rfl]
  | cons c w ih =>
    have hc := hw c List.mem_cons_self
    obtain ⟨htake, hdrop⟩ := ih fun d hd => hw d (List.mem_cons_of_mem _ hd)
    simp [hc, htake, hdrop]

/-- What stops a line comment. -/
theorem head_dropWhile {p : Char → Bool} (t : List Char) (c : Char)
    (h : (t.dropWhile p).head? = some c) : p c = false := by
  induction t with
  | nil => cases h
  | cons d t ih =>
    rw [List.dropWhile_cons] at h
    split at h
    · exact ih h
    · next hd =>
      obtain rfl := Option.some.inj h
      exact Bool.eq_false_iff.2 hd

theorem first_extend (r : List Char) (h : first s = some (a, b)) (hb : b ≠ []) :
    first (s ++ r) = some (a, b ++ r) := by
  rcases first_eq_some_iff.1 h with ⟨rest, rfl, rfl, rfl⟩ | ⟨rest, front, rfl, hr, rfl⟩ |
    ⟨c, rfl, hc, rfl⟩
  · refine first_eq_some_iff.2 (.inl ⟨rest ++ r, rfl, ?_⟩)
    have hall : ∀ c ∈ rest.takeWhile (· != '\n'), (c != '\n') = true := 
      List.all_eq_true.1 List.all_takeWhile
    obtain ⟨d, t, hd⟩ := List.exists_cons_of_ne_nil hb
    have hsplit : rest ++ r =
        rest.takeWhile (· != '\n') ++ (rest.dropWhile (· != '\n') ++ r) := by
      rw [← List.append_assoc, List.takeWhile_append_dropWhile]
    obtain ⟨htake, hdrop⟩ := takeWhile_dropWhile_append (t := rest.dropWhile (· != '\n') ++ r) hall
      fun c hc => head_dropWhile rest c (by rw [hd] at hc ⊢; exact hc)
    rw [hsplit, htake, hdrop]
    exact ⟨rfl, rfl⟩
  · exact first_eq_some_iff.2 (.inr (.inl ⟨rest ++ r, front, rfl, splitBlock_extend r hr, rfl⟩))
  · exact first_eq_some_iff.2 (.inr (.inr ⟨c, rfl, hc, rfl⟩))

theorem first_cut (h : first (s ++ r) = some (a, b ++ r)) : first s = some (a, b) := by
  have hs : s = a ++ b := by
    have htext := first_append h
    rw [← List.append_assoc] at htext
    exact (List.append_cancel_right htext).symm
  subst hs
  rcases first_eq_some_iff.1 h with ⟨rest, hrest, rfl, hb⟩ | ⟨rest, front, hrest, hr, rfl⟩ |
    ⟨c, -, hc, rfl⟩
  · refine first_eq_some_iff.2 (.inl ⟨rest.takeWhile (· != '\n') ++ b, rfl, ?_⟩)
    have hall : ∀ c ∈ rest.takeWhile (· != '\n'), (c != '\n') = true := 
      List.all_eq_true.1 List.all_takeWhile
    obtain ⟨htake, hdrop⟩ := takeWhile_dropWhile_append (t := b) hall fun c hc =>
      head_dropWhile rest c (by rw [← hb]; cases b <;> simp_all)
    rw [htake, hdrop]
    exact ⟨rfl, rfl⟩
  · refine first_eq_some_iff.2 (.inr (.inl ⟨front ++ b, front, rfl, ?_, rfl⟩))
    exact splitBlock_extend b (splitBlock_front hr)
  · exact first_eq_some_iff.2 (.inr (.inr ⟨c, rfl, hc, rfl⟩))

theorem first_none_cut (h : first (s ++ r) = none) : first s = none := by
  cases hs : first s with
  | none => rfl
  | some found =>
    obtain ⟨a, b⟩ := found
    have hsome : ∃ found, first (s ++ r) = some found := by
      rcases first_eq_some_iff.1 hs with ⟨rest, rfl, -, -⟩ | ⟨rest, front, rfl, hr, -⟩ | ⟨c, rfl, hc, -⟩
      · exact ⟨_, rfl⟩
      · exact ⟨_, first_eq_some_iff.2
          (.inr (.inl ⟨rest ++ r, front, rfl, splitBlock_extend r hr, rfl⟩))⟩
      · exact ⟨_, first_eq_some_iff.2 (.inr (.inr ⟨c, rfl, hc, rfl⟩))⟩
    obtain ⟨found, hfound⟩ := hsome
    rw [h] at hfound
    cases hfound

/-- The trivia is one piece of it and what follows. -/
theorem split_of_first {front rest : List Char} (h : first s = some (front, rest)) :
    split s = (front ++ (split rest).1, (split rest).2) := by
  rw [split]
  split
  · next h' => rw [h] at h'; cases h'
  · next h' =>
    rw [h] at h'
    obtain ⟨rfl, rfl⟩ := Prod.mk.inj (Option.some.inj h')
    rfl

theorem split_cut {s r w z : List Char} (h : split (s ++ r) = (w, z ++ r)) : split s = (w, z) := by
  cases hfirst : first (s ++ r) with
  | none =>
    rw [split_of_first_eq_none hfirst] at h
    obtain ⟨rfl, hz⟩ := Prod.mk.inj h
    rw [split_of_first_eq_none (first_none_cut hfirst), List.append_cancel_right hz]
  | some found =>
    obtain ⟨front, rest⟩ := found
    rw [split_of_first hfirst] at h
    obtain ⟨rfl, hz⟩ := Prod.mk.inj h
    obtain ⟨b, rfl⟩ : ∃ b, rest = b ++ r :=
      ⟨(split rest).1 ++ z, by rw [List.append_assoc, ← hz, split_append]⟩
    have hlt := length_lt_of_first (first_cut hfirst)
    have hb : split b = ((split (b ++ r)).1, z) := split_cut (Prod.ext rfl hz)
    rw [split_of_first (first_cut hfirst), hb]
termination_by s.length

/-- Blanks in front of a character that is none are the same in a longer text. -/
theorem split_extend {s w z : List Char} {c : Char} (r : List Char) (hc : isSolid c = true)
    (h : split s = (w, c :: z)) : split (s ++ r) = (w, c :: z ++ r) := by
  cases hfirst : first s with
  | none =>
    rw [split_of_first_eq_none hfirst] at h
    obtain ⟨rfl, rfl⟩ := Prod.mk.inj h
    exact split_of_first_eq_none (first_eq_none_of_isSolid hc _)
  | some found =>
    obtain ⟨front, rest⟩ := found
    rw [split_of_first hfirst] at h
    obtain ⟨rfl, hz⟩ := Prod.mk.inj h
    have hrest : rest ≠ [] := by
      rintro rfl
      rw [split_of_first_eq_none rfl] at hz
      cases hz
    have hlt := length_lt_of_first hfirst
    have hb : split (rest ++ r) = ((split rest).1, c :: z ++ r) := split_extend r hc (Prod.ext rfl hz)
    rw [split_of_first (first_extend r hfirst hrest), hb]
termination_by s.length

end Trivia

/-- Blanks that end before the cut are the same without what was cut off. -/
theorem gap_cut {layout : Layout} {t z r : List Char}
    (h : after layout t = z ++ r) :
    ∃ s, t = s ++ r ∧ after layout s = z ∧
      (sourceGrammar.gap layout s).1 = (sourceGrammar.gap layout t).1 := by
  cases layout with
  | joined | hidden => exact ⟨z, h, rfl, rfl⟩
  | spaced =>
    have htext : (Trivia.split t).1 ++ (Trivia.split t).2 = t := Trivia.split_append t
    have hrest : (Trivia.split t).2 = z ++ r := h
    obtain ⟨s, rfl⟩ : ∃ s, t = s ++ r :=
      ⟨(Trivia.split t).1 ++ z, by rw [List.append_assoc, ← hrest, htext]⟩
    have hsplit : Trivia.split s = ((Trivia.split (s ++ r)).1, z) :=
      Trivia.split_cut (Prod.ext rfl hrest)
    refine ⟨s, rfl, congrArg Prod.snd hsplit, ?_⟩
    change [Tree.text (Trivia.split s).1] = _
    rw [hsplit]
    rfl

/-- Where no blanks stand at the start of a text, none do when it is cut. -/
theorem after_cut {q r : List Char} (h : after .spaced (q ++ r) = q ++ r) : after .spaced q = q := by
  obtain ⟨s, hs, hafter, -⟩ := gap_cut h
  rwa [← List.append_cancel_right hs] at hafter

theorem length_after_le (layout : Layout) (s : List Char) : (after layout s).length ≤ s.length :=
  Grammar.length_gap_le sourceGrammar_blanksSplit layout s

theorem length_le_of_accepts {layout : Layout} {e : Peg Rule} {s y : List Char}
    (h : sourceGrammar.Accepts layout e s y) : y.length ≤ s.length := by
  obtain ⟨parts, hm⟩ := h
  exact hm.length_le sourceGrammar_blanksSplit

/-- Blanks, if there are any, start with a blank or with a slash. -/
theorem after_eq_or_head (layout : Layout) (s : List Char) :
    after layout s = s ∨ ∃ c t, s = c :: t ∧ isSolid c = false := by
  cases layout with
  | joined | hidden => exact .inl rfl
  | spaced =>
    cases s with
    | nil => exact .inl after_nil
    | cons c t =>
      cases hc : isSolid c with
      | true => exact .inl (after_solid hc t)
      | false => exact .inr ⟨c, t, rfl, hc⟩

/-! ## Matches that keep to a text -/

/-- The expression matches at the start of `s` and leaves `y`, in front of `r`. -/
def Within (r : List Char) (layout : Layout) (e : Peg Rule) (s : List Char) (parts : List (Tree Rule))
    (y : List Char) : Prop :=
  sourceGrammar.Matches layout e (s ++ r) parts (y ++ r)

/-- Where the expression fails in front of `r`, it does not because of `r`. -/
def Keeps (r : List Char) (layout : Layout) (e : Peg Rule) (y : List Char) : Prop :=
  sourceGrammar.Fails layout e (y ++ r) → sourceGrammar.Fails layout e y

section Within

variable {r : List Char} {layout : Layout} {e a b : Peg Rule} {s t y : List Char}
  {parts : List (Tree Rule)}

theorem exists_of_matches (h : sourceGrammar.Matches layout e t parts (y ++ r)) : ∃ s, t = s ++ r := by
  have htext := h.text sourceGrammar_blanksSplit
  exact ⟨Tree.charsOf parts ++ y, by rw [List.append_assoc, htext]⟩

theorem Within.text (h : Within r layout e s parts y) : Tree.charsOf parts ++ y = s := by
  have htext := Grammar.Matches.text sourceGrammar_blanksSplit h
  rw [← List.append_assoc] at htext
  exact List.append_cancel_right htext

theorem Within.length_le (h : Within r layout e s parts y) : y.length ≤ s.length := by
  have hlength := congrArg List.length h.text
  rw [List.length_append] at hlength
  omega

theorem Within.accepts (h : Within r layout e s parts y) :
    sourceGrammar.Accepts layout e (s ++ r) (y ++ r) := ⟨parts, h⟩

theorem Within.seq (h : Within r layout (a ++ b) s parts y) :
    ∃ ps z qs, Within r layout a s ps z ∧ Within r layout b (after layout z) qs y ∧
      after layout (z ++ r) = after layout z ++ r ∧
      parts = ps ++ (sourceGrammar.gap layout z).1 ++ qs := by
  obtain ⟨ps, t, qs, ha, hb, rfl⟩ := Grammar.matches_seq.1 h
  obtain ⟨z', hz'⟩ := exists_of_matches hb
  obtain ⟨z, rfl, hafter, hgap⟩ := gap_cut hz'
  rw [hz'] at hb
  refine ⟨ps, z, qs, ha, ?_, ?_, by rw [hgap]⟩
  · rw [hafter]
    exact hb
  · rw [hafter]
    exact hz'

theorem Within.alt (h : Within r layout (a / b) s parts y) :
    Within r layout a s parts y ∨
      sourceGrammar.Fails layout a (s ++ r) ∧ Within r layout b s parts y := Grammar.matches_alt.1 h

theorem Within.opt (h : Within r layout (.opt a) s parts y) :
    Within r layout a s parts y ∨
      sourceGrammar.Fails layout a (s ++ r) ∧ parts = [] ∧ y = s := by
  rcases Grammar.matches_opt.1 h with h | ⟨hf, hparts, hy⟩
  · exact .inl h
  · exact .inr ⟨hf, hparts, List.append_cancel_right hy⟩

theorem Within.not (h : Within r layout (.not a) s parts y) :
    sourceGrammar.Fails layout a (s ++ r) ∧ parts = [] ∧ y = s := by
  obtain ⟨hf, hparts, hy⟩ := Grammar.matches_not.1 h
  exact ⟨hf, hparts, List.append_cancel_right hy⟩

theorem Within.rule {rule : Rule} (h : Within r layout (.rule rule) s parts y) :
    ∃ inner, Within r (rule.style.inside layout) rule.body s inner y ∧
      parts = sourceGrammar.close rule layout inner := Grammar.matches_rule.1 h

/-- Words stand in the text itself. -/
theorem Within.lit {w : String} (h : Within r layout (.lit w) s parts y) :
    sourceGrammar.Matches layout (.lit w) s parts y := by
  obtain ⟨hs, hparts⟩ := Grammar.matches_lit.1 h
  rw [← List.append_assoc] at hs
  exact Grammar.matches_lit.2 ⟨List.append_cancel_right hs, hparts⟩

theorem Within.one {p : Char → Bool} (h : Within r layout (.one p) s parts y) :
    sourceGrammar.Matches layout (.one p) s parts y := by
  obtain ⟨c, hs, hp, hparts⟩ := Grammar.matches_one.1 h
  rw [← List.cons_append] at hs
  exact Grammar.matches_one.2 ⟨c, List.append_cancel_right hs, hp, hparts⟩

end Within

/-! ## Turns of a repetition -/

/-- The expression matches any number of times, one after the other; it may match again. -/
inductive Turns (layout : Layout) (a : Peg Rule) : List Char → List (Tree Rule) → List Char → Prop
  | nil (s : List Char) : Turns layout a s [] s
  | cons {s z y : List Char} {ps qs : List (Tree Rule)}
      (h : sourceGrammar.Matches layout a (after layout s) ps z) (hs : Turns layout a z qs y) :
      Turns layout a s ((sourceGrammar.gap layout s).1 ++ ps ++ qs) y

section Turns

variable {layout : Layout} {a b : Peg Rule} {s y : List Char} {parts : List (Tree Rule)}

theorem Turns.text (h : Turns layout a s parts y) : Tree.charsOf parts ++ y = s := by
  induction h with
  | nil s => rfl
  | cons hone hs ih =>
    have hgap := Grammar.gap_text sourceGrammar_blanksSplit layout
    have htext := hone.text sourceGrammar_blanksSplit
    rw [Tree.charsOf_append, Tree.charsOf_append, List.append_assoc, List.append_assoc, ih, htext]
    exact hgap _

theorem matches_more_iff_turns : sourceGrammar.Matches layout (.more a) s parts y ↔
    Turns layout a s parts y ∧ sourceGrammar.Fails layout a (after layout y) := by
  constructor
  · intro h
    induction h using Grammar.Matches.more_induct with
    | stop hf => exact ⟨.nil _, hf⟩
    | turn hone _ ih => exact ⟨.cons hone ih.1, ih.2⟩
  · rintro ⟨hturns, hf⟩
    induction hturns with
    | nil s => exact Grammar.matches_more.2 (.inl ⟨hf, rfl, rfl⟩)
    | cons hone hs ih => exact Grammar.matches_more.2 (.inr ⟨_, _, _, hone, ih hf, rfl⟩)

end Turns

/-- A repetition that stops at `z` leaves `y`: `z` itself, or what stands behind its blanks. -/
def Leaves (r : List Char) (layout : Layout) (z y : List Char) : Prop :=
  y = z ∨ y = after layout z ∧ after layout (z ++ r) = y ++ r

/-- What a cut needs to know of a repetition: each turn can be cut where `Q` holds behind it, and `Q`
holds in front of each turn. -/
structure CutsTurns (r : List Char) (layout : Layout) (a : Peg Rule) (n : Nat) (Q : List Char → Prop) :
    Prop where
  turn : ∀ s parts y, s.length ≤ n → after layout s = s → Within r layout a s parts y → Q y →
    sourceGrammar.Matches layout a s parts y
  next : ∀ s parts y, s.length ≤ n → after layout (s ++ r) = after layout s ++ r →
    Within r layout a (after layout s) parts y →
    sourceGrammar.Matches layout a (after layout s) parts y → Q y → Q s

section CutsTurns

variable {r : List Char} {layout : Layout} {a b : Peg Rule} {n : Nat} {Q : List Char → Prop}
  {s y : List Char} {parts : List (Tree Rule)}

/-- Turns can be cut one by one, from the last to the first. -/
theorem CutsTurns.turns (hcuts : CutsTurns r layout a n Q) (h : Turns layout a (s ++ r) parts (y ++ r))
    (hs : s.length ≤ n) (hy : Q y) : Turns layout a s parts y ∧ Q s := by
  generalize ht : s ++ r = t at h
  generalize hu : y ++ r = u at h
  induction h generalizing s with
  | nil t =>
    obtain rfl := List.append_cancel_right (ht.trans hu.symm)
    exact ⟨.nil s, hy⟩
  | @cons t z' u ps qs hone hrest ih =>
    subst ht hu
    obtain ⟨z, rfl⟩ : ∃ z, z' = z ++ r :=
      ⟨Tree.charsOf qs ++ y, by rw [List.append_assoc, hrest.text]⟩
    obtain ⟨t', ht'⟩ := exists_of_matches hone
    obtain ⟨t, heq, hafter, hgap⟩ := gap_cut ht'
    obtain rfl := List.append_cancel_right heq
    have hwithin : Within r layout a (after layout s) ps z := by
      unfold Within
      rw [hafter, ← ht']
      exact hone
    have hlength := length_after_le layout s
    have hle := hwithin.length_le
    obtain ⟨hturns, hz⟩ := ih (s := z) (by omega) rfl rfl
    have hturn := hcuts.turn _ _ _ (by omega) (after_after_layout layout s) hwithin hz
    refine ⟨?_, hcuts.next _ _ _ hs (by rw [hafter]; exact ht') hwithin hturn hz⟩
    rw [← hgap]
    exact .cons hturn hturns

theorem CutsTurns.more (hcuts : CutsTurns r layout a n Q) (h : Within r layout (.more a) s parts y)
    (hs : s.length ≤ n)
    (hend : sourceGrammar.Fails layout a (after layout (y ++ r)) →
      Q y ∧ sourceGrammar.Fails layout a (after layout y)) :
    sourceGrammar.Matches layout (.more a) s parts y ∧ Q s := by
  obtain ⟨hturns, hf⟩ := matches_more_iff_turns.1 h
  obtain ⟨hy, hfails⟩ := hend hf
  obtain ⟨hturns, hq⟩ := hcuts.turns hturns hs hy
  exact ⟨matches_more_iff_turns.2 ⟨hturns, hfails⟩, hq⟩

theorem Within.many (h : Within r layout (.many a) s parts y) :
    (sourceGrammar.Fails layout a (s ++ r) ∧ parts = [] ∧ y = s) ∨
    ∃ ps z qs, Within r layout a s ps z ∧ Within r layout (.more a) z qs y ∧ parts = ps ++ qs := by
  rcases Grammar.matches_many.1 h with ⟨hf, hparts, hy⟩ | ⟨ps, z, qs, hone, hmore, rfl⟩
  · exact .inl ⟨hf, hparts, List.append_cancel_right hy⟩
  · obtain ⟨z, rfl⟩ := exists_of_matches hmore
    exact .inr ⟨ps, z, qs, hone, hmore, rfl⟩

theorem CutsTurns.many (hcuts : CutsTurns r layout a n Q) (h : Within r layout (.many a) s parts y)
    (hs : s.length ≤ n) (hsettled : after layout s = s)
    (hnone : sourceGrammar.Fails layout a (s ++ r) → y = s → sourceGrammar.Fails layout a s)
    (hend : sourceGrammar.Fails layout a (after layout (y ++ r)) →
      Q y ∧ sourceGrammar.Fails layout a (after layout y)) :
    sourceGrammar.Matches layout (.many a) s parts y := by
  rcases h.many with ⟨hf, rfl, rfl⟩ | ⟨ps, z, qs, hone, hmore, rfl⟩
  · exact Grammar.matches_many.2 (.inl ⟨hnone hf rfl, rfl, rfl⟩)
  · obtain ⟨hmore, hz⟩ := hcuts.more hmore (Nat.le_trans hone.length_le hs) hend
    exact Grammar.matches_many.2 (.inr ⟨ps, z, qs, hcuts.turn _ _ _ hs hsettled hone hz, hmore, rfl⟩)

/-- A first part and a repetition behind it. -/
theorem CutsTurns.chain (hcuts : CutsTurns r layout b n Q)
    (h : Within r layout (a ++ .many b) s parts y)
    (hs : s.length ≤ n)
    (hbase : ∀ ps z, Within r layout a s ps z → Q z → sourceGrammar.Matches layout a s ps z)
    (hend : ∀ z, Leaves r layout z y → sourceGrammar.Fails layout b (after layout (z ++ r)) →
      Q z ∧ sourceGrammar.Fails layout b (after layout z)) :
    sourceGrammar.Matches layout (a ++ .many b) s parts y := by
  obtain ⟨ps, z, qs, ha, hmany, hafter, rfl⟩ := h.seq
  have hle := ha.length_le
  have hlength := length_after_le layout z
  rcases hmany.many with ⟨hf, rfl, rfl⟩ | ⟨ps', z', qs, hone, hmore, rfl⟩
  · obtain ⟨hz, hfails⟩ := hend z (.inr ⟨rfl, hafter⟩) (by rw [hafter]; exact hf)
    exact Grammar.matches_seq.2 ⟨ps, z, [], hbase ps z ha hz,
      Grammar.matches_many.2 (.inl ⟨hfails, rfl, rfl⟩), rfl⟩
  · have hle' := hone.length_le
    obtain ⟨hmore, hz'⟩ := hcuts.more hmore (by omega) (hend y (.inl rfl))
    have hturn := hcuts.turn _ _ _ (by omega) (after_after_layout layout z) hone hz'
    have hz := hcuts.next z _ _ (by omega) hafter hone hturn hz'
    exact Grammar.matches_seq.2 ⟨ps, z, _, hbase ps z ha hz,
      Grammar.matches_many.2 (.inr ⟨ps', z', qs, hturn, hmore, rfl⟩), rfl⟩

end CutsTurns

/-! ## Words -/

/-- Whether the failure of the expression shows in the text, however short it is cut. -/
def Peg.failsLocally : Peg Rule → Bool
  | empty | one _ | lit _ | opt _ | many _ | more _ => true
  | seq (one _) b | seq (lit _) b => b.failsLocally
  | alt a b => a.failsLocally && b.failsLocally
  | seq _ _ | not _ | rule _ => false

/-- Whether a match of the expression depends on its own text only. -/
def Peg.isLocal : Peg Rule → Bool
  | empty | one _ | lit _ => true
  | seq a b => a.isLocal && b.isLocal
  | alt a b => a.failsLocally && a.isLocal && b.isLocal
  | opt a | many a | more a => a.failsLocally && a.isLocal
  | not a => a.failsLocally
  | rule _ => false

section Local

variable {r : List Char} {s y : List Char} {parts : List (Tree Rule)} {e : Peg Rule}

theorem Stops.cut {p : Char → Bool} (h : Stops p (s ++ r)) : Stops p s := by
  intro c hc
  exact h c (by cases s <;> simp_all)

theorem fails_one_cut {layout : Layout} {p : Char → Bool}
    (h : sourceGrammar.Fails layout (.one p) (s ++ r)) : sourceGrammar.Fails layout (.one p) s :=
  Grammar.fails_one.2 (Stops.cut (Grammar.fails_one.1 h))

theorem fails_lit_cut {layout : Layout} {w : String}
    (h : sourceGrammar.Fails layout (.lit w) (s ++ r)) : sourceGrammar.Fails layout (.lit w) s :=
  Grammar.fails_lit.2 fun hw => Grammar.fails_lit.1 h (hw.trans (List.prefix_append s r))

theorem fails_of_failsLocally (he : e.failsLocally = true)
    (h : sourceGrammar.Fails .hidden e (s ++ r)) : sourceGrammar.Fails .hidden e s := by
  fun_induction Peg.failsLocally e generalizing s with
  | case1 => exact absurd h (Grammar.Accepts.not_fails (Grammar.accepts_empty.2 rfl))
  | case2 => exact fails_one_cut h
  | case3 => exact fails_lit_cut h
  | case4 => exact absurd h Grammar.not_fails_opt
  | case5 => exact absurd h Grammar.not_fails_many
  | case6 => exact absurd h Grammar.not_fails_more
  | case7 p b ih =>
    rcases Grammar.fails_seq.1 h with hone | ⟨t, hone, hb⟩
    · exact Grammar.fails_seq.2 (.inl (fails_one_cut hone))
    · obtain ⟨c, hs, hp⟩ := Grammar.accepts_one.1 hone
      cases s with
      | nil => exact Grammar.fails_seq.2 (.inl (Grammar.fails_one.2 (stops_nil p)))
      | cons d s =>
        obtain ⟨rfl, rfl⟩ := List.cons.inj hs
        exact Grammar.fails_seq.2 (.inr ⟨s, Grammar.accepts_one.2 ⟨d, rfl, hp⟩, ih he hb⟩)
  | case8 w b ih =>
    rcases Grammar.fails_seq.1 h with hlit | ⟨t, hlit, hb⟩
    · exact Grammar.fails_seq.2 (.inl (fails_lit_cut hlit))
    · by_cases hw : w.toList <+: s
      · obtain ⟨u, rfl⟩ := hw
        have ht := Grammar.accepts_lit.1 hlit
        rw [List.append_assoc] at ht
        obtain rfl := List.append_cancel_left ht
        exact Grammar.fails_seq.2 (.inr ⟨u, Grammar.accepts_lit.2 rfl, ih he hb⟩)
      · exact Grammar.fails_seq.2 (.inl (Grammar.fails_lit.2 hw))
  | case9 a b iha ihb =>
    obtain ⟨ha, hb⟩ := Bool.and_eq_true_iff.1 he
    obtain ⟨hfa, hfb⟩ := Grammar.fails_alt.1 h
    exact Grammar.fails_alt.2 ⟨iha ha hfa, ihb hb hfb⟩
  | case10 | case11 | case12 => cases he

/-- A match that depends on its own text only is there whatever is cut off behind it. -/
theorem cut_of_isLocal (he : e.isLocal = true) (h : Within r .hidden e s parts y) :
    sourceGrammar.Matches .hidden e s parts y := by
  have hturns : ∀ {a : Peg Rule}, a.failsLocally = true →
      (∀ {s parts y}, Within r .hidden a s parts y → sourceGrammar.Matches .hidden a s parts y) →
      (∀ n, CutsTurns r .hidden a n fun _ => True) ∧ ∀ y, sourceGrammar.Fails .hidden a (y ++ r) →
        True ∧ sourceGrammar.Fails .hidden a y := fun ha hone =>
    ⟨fun n => ⟨fun _ _ _ _ _ h _ => hone h, fun _ _ _ _ _ _ _ _ => trivial⟩,
      fun _ hf => ⟨trivial, fails_of_failsLocally ha hf⟩⟩
  induction e generalizing s parts y with
  | empty =>
    obtain ⟨hparts, hy⟩ := Grammar.matches_empty.1 h
    exact Grammar.matches_empty.2 ⟨hparts, List.append_cancel_right hy⟩
  | one p => exact h.one
  | lit w => exact h.lit
  | seq a b iha ihb =>
    obtain ⟨ha, hb⟩ := Bool.and_eq_true_iff.1 he
    obtain ⟨ps, z, qs, hpa, hqb, -, rfl⟩ := Within.seq h
    exact Grammar.matches_seq.2 ⟨ps, z, qs, iha ha hpa, ihb hb hqb, rfl⟩
  | alt a b iha ihb =>
    simp only [isLocal, Bool.and_eq_true] at he
    obtain ⟨⟨hfails, ha⟩, hb⟩ := he
    rcases Within.alt h with h | ⟨hf, h⟩
    · exact Grammar.matches_alt.2 (.inl (iha ha h))
    · exact Grammar.matches_alt.2 (.inr ⟨fails_of_failsLocally hfails hf, ihb hb h⟩)
  | opt a ih =>
    obtain ⟨hfails, ha⟩ := Bool.and_eq_true_iff.1 he
    rcases h.opt with h | ⟨hf, rfl, rfl⟩
    · exact Grammar.matches_opt.2 (.inl (ih ha h))
    · exact Grammar.matches_opt.2 (.inr ⟨fails_of_failsLocally hfails hf, rfl, rfl⟩)
  | many a ih =>
    obtain ⟨hfails, ha⟩ := Bool.and_eq_true_iff.1 he
    obtain ⟨hcuts, hend⟩ := hturns hfails fun h => ih ha h
    exact (hcuts s.length).many h (Nat.le_refl _) rfl (fun hf _ => (hend s hf).2) (hend y)
  | more a ih =>
    obtain ⟨hfails, ha⟩ := Bool.and_eq_true_iff.1 he
    obtain ⟨hcuts, hend⟩ := hturns hfails fun h => ih ha h
    exact ((hcuts s.length).more h (Nat.le_refl _) (hend y)).1
  | not a =>
    obtain ⟨hf, rfl, rfl⟩ := h.not
    exact Grammar.matches_not.2 ⟨fails_of_failsLocally he hf, rfl, rfl⟩
  | rule => cases he

/-- A rule can be cut if its expression can. -/
theorem Within.cut_rule {layout : Layout} {rule : Rule} (h : Within r layout (.rule rule) s parts y)
    (hbody : ∀ inner, Within r (rule.style.inside layout) rule.body s inner y →
      sourceGrammar.Matches (rule.style.inside layout) rule.body s inner y) :
    sourceGrammar.Matches layout (.rule rule) s parts y := by
  obtain ⟨inner, hinner, rfl⟩ := h.rule
  exact Grammar.matches_rule.2 ⟨inner, hbody inner hinner, rfl⟩

theorem cut_word {layout : Layout} {rule : Rule} (hstyle : rule.style = .word)
    (hlocal : rule.body.isLocal = true) (h : Within r layout (.rule rule) s parts y) :
    sourceGrammar.Matches layout (.rule rule) s parts y := by
  refine h.cut_rule fun inner hinner => ?_
  rw [hstyle] at hinner ⊢
  exact cut_of_isLocal hlocal hinner

end Local

/-! ## Signs -/

/-- The word that the expression starts with, if it is written out. -/
def Peg.sign? : Peg Rule → Option String
  | lit w => some w
  | seq a _ => a.sign?
  | _ => none

section Sign

variable {layout : Layout} {s y : List Char} {e : Peg Rule} {rule : Rule} {w : String}

theorem prefix_of_sign (he : e.sign? = some w) (h : sourceGrammar.Accepts layout e s y) :
    w.toList <+: s := by
  induction e generalizing y with
  | lit v =>
    obtain rfl := Option.some.inj he
    exact ⟨y, (Grammar.accepts_lit.1 h).symm⟩
  | seq a b iha _ =>
    obtain ⟨z, ha, -⟩ := Grammar.accepts_seq.1 h
    exact iha he ha
  | _ => cases he

theorem fails_of_sign (he : e.sign? = some w) (h : ¬ w.toList <+: s) :
    sourceGrammar.Fails layout e s := by
  induction e with
  | lit v =>
    obtain rfl := Option.some.inj he
    exact Grammar.fails_lit.2 h
  | seq a b iha _ => exact Grammar.fails_seq.2 (.inl (iha he))
  | _ => cases he

/-- A rule that starts with a sign is read only where the sign stands. -/
theorem eq_cons_of_sign {c : Char} (hr : rule.body.sign? = some w) (hw : w.toList.head? = some c)
    (h : sourceGrammar.Accepts layout (.rule rule) s y) : ∃ t, s = c :: t := by
  obtain ⟨t, rfl⟩ := prefix_of_sign hr (Grammar.accepts_rule.1 h)
  obtain ⟨d, v, hv⟩ := List.exists_cons_of_ne_nil (show w.toList ≠ [] by rintro hnil; simp [hnil] at hw)
  rw [hv] at hw ⊢
  obtain rfl := Option.some.inj hw
  exact ⟨v ++ t, rfl⟩

theorem fails_of_stops {c : Char} (he : e.sign? = some w) (hw : w.toList.head? = some c)
    (h : Stops (· == c) s) : sourceGrammar.Fails layout e s := by
  refine fails_of_sign he ?_
  rintro ⟨t, rfl⟩
  simpa using h c (by simp [hw])

theorem fails_rule_of_stops {c : Char} (hr : rule.body.sign? = some w)
    (hw : w.toList.head? = some c) (h : Stops (· == c) s) : sourceGrammar.Fails layout (.rule rule) s :=
  Grammar.fails_rule.2 (fails_of_stops hr hw h)

end Sign
end SwiftMacro
