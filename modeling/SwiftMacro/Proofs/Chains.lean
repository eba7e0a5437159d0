import SwiftMacro.Proofs.Alone
/-!
# Chains and their beginnings

Calls, operators and the marks of types follow an operand one by one, and the chain up to any of them
is a chain of its own: the same rule matches it when the text is cut off there (`IsChain.beginning`),
and it is read on its own (`IsChain.alone`).
-/

namespace SwiftMacro

open Peg

/-! ## Turns -/

section Chains

variable {layout : Layout} {a : Peg Rule} {s y : List Char} {parts : List (Tree Rule)}

theorem Turns.snoc {z : List Char} {ps : List (Tree Rule)} (h : Turns layout a s parts y)
    (hone : sourceGrammar.Matches layout a (after layout y) ps z) :
    Turns layout a s (parts ++ ((sourceGrammar.gap layout y).1 ++ ps)) z := by
  induction h with
  | nil s =>
    have hturn := Turns.cons hone (.nil z)
    rwa [List.append_nil] at hturn
  | cons hfirst _ ih =>
    rw [List.append_assoc]
    exact .cons hfirst (ih hone)

/-- Turns are taken from the front: what holds of none, and of one more if it holds of those before,
holds of all. -/
theorem Turns.snoc_induction {motive : ∀ y parts, Turns layout a s parts y → Prop}
    (nil : motive s [] (.nil s))
    (snoc : ∀ {qs u ps z} (h : Turns layout a s qs u)
      (hone : sourceGrammar.Matches layout a (after layout u) ps z), motive u qs h →
        motive z _ (h.snoc hone))
    (h : Turns layout a s parts y) : motive y parts h := by
  -- Turns are built from the back, so the ones already done are carried along.
  suffices hall : ∀ {qs u} (hdone : Turns layout a s qs u), motive u qs hdone →
      ∀ {ps z}, Turns layout a u ps z → ∃ hmore : Turns layout a s (qs ++ ps) z, motive z _ hmore from
    (hall (.nil s) nil h).2
  intro qs u hdone hqs ps z h
  induction h generalizing qs with
  | nil u =>
    rw [List.append_nil]
    exact ⟨hdone, hqs⟩
  | @cons u v z ps ps' hone hrest ih =>
    have hnext := ih (hdone.snoc hone) (snoc hdone hone hqs)
    rwa [List.append_assoc] at hnext

/-- A first part and turns behind it, up to the end of the text. -/
theorem Turns.chain {b : Peg Rule} {z : List Char} {ps : List (Tree Rule)}
    (ha : sourceGrammar.Matches layout b s ps z) (h : Turns layout a z parts [])
    (hstops : sourceGrammar.Fails layout a []) :
    ∃ back, Blank back ∧ sourceGrammar.Matches layout (b ++ .many a) s (ps ++ parts ++ back) [] := by
  have hend : after layout [] = [] := by cases layout <;> first | exact after_nil | rfl
  generalize hy : ([] : List Char) = y at h
  cases h with
  | nil =>
    subst hy
    have hnone : sourceGrammar.Matches layout (.many a) (after layout []) [] [] := by
      rw [hend]
      exact Grammar.matches_many.2 (.inl ⟨hstops, rfl, rfl⟩)
    refine ⟨(sourceGrammar.gap layout []).1, ?_, Grammar.matches_seq.2 ⟨ps, [], [], ha, hnone, by simp⟩⟩
    cases layout with
    | spaced => rw [gap_of_after after_nil]; exact blank_text
    | joined | hidden => exact blank_nil
  | @cons _ v _ ps' qs hone hrest =>
    subst hy
    have hmore : sourceGrammar.Matches layout (.more a) v qs [] :=
      matches_more_iff_turns.2 ⟨hrest, by rw [hend]; exact hstops⟩
    have hmany : sourceGrammar.Matches layout (.many a) (after layout z) (ps' ++ qs) [] :=
      Grammar.matches_many.2 (.inr ⟨ps', v, qs, hone, hmore, rfl⟩)
    exact ⟨[], blank_nil, Grammar.matches_seq.2 ⟨ps, z, _, ha, hmany, by simp⟩⟩

theorem eq_node_of_matches {c : Rule} (hlayout : layout ≠ .hidden)
    (h : sourceGrammar.Matches layout (.rule c) s parts y) : ∃ inner, parts = [.node c inner] := by
  obtain ⟨inner, -, rfl⟩ := Grammar.matches_rule.1 h
  exact ⟨inner, if_neg (outside_ne_hidden _ hlayout)⟩

end Chains

/-- The rule is matched by a first part and turns behind it, of one node each; and behind each turn the
text can be cut off. -/
structure IsChain (d : Rule) (layout : Layout) (first turn : Peg Rule) : Prop where
  inside : d.style.inside .spaced = layout
  body : d.body = first ++ .many turn
  cut : ∀ {r s ps z qs}, Within r layout first s ps z → Turns layout turn (z ++ r) qs r →
    sourceGrammar.Matches layout first s ps z ∧ Turns layout turn z qs []
  stops : sourceGrammar.Fails layout turn []
  first : ∀ {s ps z}, sourceGrammar.Matches layout first s ps z →
    ∃ c inner, ps = [.node c inner] ∧ (c.partKind = .node → c.entry?.isSome = true ∧ c ≠ .expr)
  turn : ∀ {s ps z}, sourceGrammar.Matches layout turn s ps z → ∃ c inner, ps = [.node c inner]

theorem isChain_postfixExpr : IsChain .postfixExpr .joined Rule.primary suffix where
  inside := rfl
  body := rfl
  cut {r s ps z qs} hfirst hturns := by
    have hcuts := cutsTurns_suffixes (r := r) (n := s.length) fun _ _ _ _ => cut_expr
    have hnil : EndsExpr r [] := endsExpr_of_before before_nil
    obtain ⟨hturns, hz⟩ := hcuts.turns (y := []) hturns hfirst.length_le hnil.clause
    exact ⟨cut_primary (fun _ _ _ _ => cut_expr) hfirst (Nat.le_refl _) hz, hturns⟩
  stops := fails_nil rfl rfl
  first {s ps z} h := by
    have hrules : ∀ c ∈ primaryRules, c.partKind = .node → c.entry?.isSome = true ∧
        c ≠ .expr := by decide
    obtain ⟨c, hc, h⟩ := exists_of_matches_primary h
    obtain ⟨inner, hps⟩ := eq_node_of_matches (by decide) h
    exact ⟨c, inner, hps, hrules c hc⟩
  turn {s ps z} h := by
    rcases Grammar.matches_alt.1 h with h | ⟨-, h⟩
    · rcases Grammar.matches_alt.1 h with h | ⟨-, h⟩
      · exact ⟨_, eq_node_of_matches (by decide) h⟩
      · exact ⟨_, eq_node_of_matches (by decide) h⟩
    · exact ⟨_, eq_node_of_matches (by decide) h⟩

theorem isChain_expr : IsChain .expr .spaced (.rule .prefixExpr) tail where
  inside := rfl
  body := rfl
  cut {r s ps z qs} hfirst hturns := by
    have hcuts := cutsTurns_tails (r := r) (n := s.length) fun _ _ _ _ => cut_expr
    have hnil : EndsExpr r [] := endsExpr_of_before before_nil
    obtain ⟨hturns, hz⟩ := hcuts.turns (y := []) hturns hfirst.length_le hnil.toEndsOperand
    exact ⟨cut_prefixExpr (fun _ _ _ _ => cut_expr) hfirst (Nat.le_refl _) hz, hturns⟩
  stops := fails_nil rfl rfl
  first h := by
    obtain ⟨inner, hps⟩ := eq_node_of_matches (by decide) h
    exact ⟨_, inner, hps, by decide⟩
  turn h := by
    rcases Grammar.matches_alt.1 h with h | ⟨-, h⟩
    · exact ⟨_, eq_node_of_matches (by decide) h⟩
    · exact ⟨_, eq_node_of_matches (by decide) h⟩

theorem isChain_typeExpr :
    IsChain .typeExpr .joined (.rule .typeReference) (.rule .optionalMark) where
  inside := rfl
  body := rfl
  cut {r s ps z qs} hfirst hturns := by
    have hnil : EndsExpr r [] := endsExpr_of_before before_nil
    obtain ⟨hturns, hz⟩ :=
      (cutsTurns_marks (n := s.length)).turns (y := []) hturns hfirst.length_le hnil.dot
    exact ⟨cut_typeReference hfirst hz, hturns⟩
  stops := fails_nil rfl rfl
  first h := by
    obtain ⟨inner, hps⟩ := eq_node_of_matches (by decide) h
    exact ⟨_, inner, hps, by decide⟩
  turn h := ⟨_, eq_node_of_matches (by decide) h⟩

theorem isChain_of_mem {d : Rule} (hd : d ∈ chainRules) :
    ∃ layout first turn, IsChain d layout first turn ∧ (layout = .spaced → d = .expr) := by
  simp only [chainRules, List.mem_cons, List.not_mem_nil, or_false] at hd
  rcases hd with rfl | rfl | rfl
  · exact ⟨_, _, _, isChain_postfixExpr, fun h => by cases h⟩
  · exact ⟨_, _, _, isChain_expr, fun _ => rfl⟩
  · exact ⟨_, _, _, isChain_typeExpr, fun h => by cases h⟩

section Chain

variable {d : Rule} {layout : Layout} {first turn : Peg Rule} {s y z : List Char}
  {ps qs parts : List (Tree Rule)}

/-- A chain is its first part and turns, and blanks behind it only where there are no turns and the
layout skips them. -/
theorem IsChain.split (hchain : IsChain d layout first turn)
    (h : sourceGrammar.Matches layout d.body s parts y) :
    ∃ ps z qs u back, sourceGrammar.Matches layout first s ps z ∧ Turns layout turn z qs u ∧
      parts = ps ++ qs ++ back ∧ ∃ t, back = [] ∨ back = (sourceGrammar.gap layout t).1 := by
  rw [hchain.body] at h
  obtain ⟨ps, z, qs, hfirst, hmany, rfl⟩ := Grammar.matches_seq.1 h
  rcases Grammar.matches_many.1 hmany with ⟨-, rfl, -⟩ | ⟨ps', v, qs, hone, hmore, rfl⟩
  · exact ⟨ps, z, [], z, _, hfirst, .nil z, by simp, z, .inr rfl⟩
  · obtain ⟨hturns, -⟩ := matches_more_iff_turns.1 hmore
    refine ⟨ps, z, _, y, [], hfirst, .cons hone hturns, by simp, z, .inl rfl⟩

/-- The first part of a chain and some of its turns are a chain of their own. -/
theorem IsChain.beginning (hchain : IsChain d layout first turn)
    (hfirst : sourceGrammar.Matches layout first s ps z) (hturns : Turns layout turn z qs y) :
    ∃ back, Blank back ∧
      sourceGrammar.Matches layout d.body (Tree.charsOf (ps ++ qs)) (ps ++ qs ++ back) [] := by
  have hz : Tree.charsOf qs ++ y = z := hturns.text
  have hs : Tree.charsOf ps ++ z = s := hfirst.text sourceGrammar_blanksSplit
  -- What stands behind the last of the turns is what is cut off.
  have hwithin : Within y layout first (Tree.charsOf (ps ++ qs)) ps (Tree.charsOf qs) := by
    unfold Within
    rw [Tree.charsOf_append, List.append_assoc, hz, hs]
    exact hfirst
  obtain ⟨hfirst, hturns⟩ := hchain.cut hwithin (by rw [hz]; exact hturns)
  rw [hchain.body]
  exact hturns.chain hfirst hchain.stops

/-- The beginning of a chain is read on its own. -/
theorem IsChain.alone (hchain : IsChain d layout first turn) {entry : Entry}
    (hd : d.entry? = some entry) (hs : after .spaced s = s)
    (hfirst : sourceGrammar.Matches layout first s ps z) (hturns : Turns layout turn z qs y)
    {offset : Nat} {items : List Item} (hitems : Tree.itemsOf offset (ps ++ qs) = .ok items) {n : Node}
    (hbuild : ∀ span text, d.build span text items = .ok (.node n)) :
    ∃ m, readChars entry (Tree.charsOf (ps ++ qs)) = .ok [m] ∧ m.shift offset = n := by
  obtain ⟨back, hback, hmatch⟩ := hchain.beginning hfirst hturns
  rw [← hchain.inside] at hmatch
  obtain ⟨place, hplace⟩ := items_of_build (itemsOf_padded blank_nil hback hitems) hbuild
  obtain ⟨m, hwhole, hshift⟩ := exists_whole (matches_node hmatch) hplace
  refine ⟨m, readChars_of_whole hd ?_ hwhole, hshift⟩
  have htext : Tree.charsOf (ps ++ qs) ++ y = s := by
    rw [Tree.charsOf_append, List.append_assoc, hturns.text, hfirst.text sourceGrammar_blanksSplit]
  rw [← htext] at hs
  exact after_cut hs

end Chain

end SwiftMacro
