import SwiftMacro.Proofs.CutStatements
/-!
# Texts that go on

Behind a text that has been read, a line feed and a closing brace change nothing, as long as no brace
is left open. This module has the part of that without braces: what an expression without braces in its
rules does to a text it also does to the text that goes on (`mirrored`). The end of the text plays no
part in it, since neither character can be taken in its place. Only the blanks at the end may be skipped
together with the line feed, which is why `Extended` has two cases.
-/

namespace SwiftMacro

open Peg

/-- What is put behind a text. -/
def closing : List Char := ['\n', '\x7d']

/-- The same place in a text and in the one that goes on. Behind the last word of the text the line feed
may have been skipped. -/
inductive Extended : List Char → List Char → Prop where
  | text (s : List Char) : Extended s (s ++ closing)
  | brace : Extended [] ['\x7d']

/-! ## Blanks -/

namespace Trivia

variable {s a b : List Char}

theorem first_closing (h : first s = some (a, b)) : first (s ++ closing) = some (a, b ++ closing) := by
  by_cases hb : b = []
  · subst hb
    -- The last piece ends with the text, or, if it is a line comment, at the line feed.
    rcases first_eq_some_iff.1 h with ⟨rest, rfl, rfl, hrest⟩ | ⟨rest, front, rfl, hr, rfl⟩ |
      ⟨c, rfl, hc, rfl⟩
    · have hall : ∀ c ∈ rest.takeWhile (· != '\n'), (c != '\n') = true :=
        List.all_eq_true.1 List.all_takeWhile
      have hline : rest = rest.takeWhile (· != '\n') := by
        have htext := List.takeWhile_append_dropWhile (p := (· != '\n')) (l := rest)
        rw [← hrest, List.append_nil] at htext
        exact htext.symm
      rw [← hline] at hall ⊢
      obtain ⟨htake, hdrop⟩ := takeWhile_dropWhile_append (t := closing) hall fun c hc => by
        obtain rfl := Option.some.inj hc
        rfl
      exact first_eq_some_iff.2 (.inl ⟨rest ++ closing, rfl, by rw [htake], hdrop.symm⟩)
    · exact first_eq_some_iff.2 (.inr (.inl ⟨_, front, rfl, splitBlock_extend closing hr, rfl⟩))
    · exact first_eq_some_iff.2 (.inr (.inr ⟨c, rfl, hc, rfl⟩))
  · exact first_extend closing h hb

theorem splitBlock_closing (h : splitBlock s = none) : splitBlock (s ++ closing) = none := by
  fun_induction splitBlock s with
  | case1 => decide
  | case2 => cases h
  | case3 c rest hne ih =>
    rw [List.cons_append, splitBlock, ih (Option.map_eq_none_iff.1 h)]
    · rfl
    · rintro t rfl ht
      cases rest with
      | nil => cases ht
      | cons d rest =>
        obtain ⟨rfl, -⟩ := List.cons.inj ht
        exact hne rest rfl rfl

theorem first_closing_none (h : first s = none) (hs : s ≠ []) : first (s ++ closing) = none := by
  obtain ⟨c, t, rfl⟩ := List.exists_cons_of_ne_nil hs
  cases hfirst : first (c :: t ++ closing) with
  | none => rfl
  | some found =>
    obtain ⟨a, b⟩ := found
    have hsome : ∀ {found}, first (c :: t) = some found → False := fun hfound => by
      rw [h] at hfound
      cases hfound
    exfalso
    rcases first_eq_some_iff.1 hfirst with ⟨rest, heq, -, -⟩ | ⟨rest, front, heq, hr, -⟩ |
      ⟨d, heq, hd, -⟩
    · obtain ⟨rfl, ht⟩ := List.cons.inj heq
      cases t with
      | nil => cases ht
      | cons d t =>
        obtain ⟨rfl, -⟩ := List.cons.inj ht
        exact hsome (first_eq_some_iff.2 (.inl ⟨t, rfl, rfl, rfl⟩))
    · obtain ⟨rfl, ht⟩ := List.cons.inj heq
      cases t with
      | nil => cases ht
      | cons d t =>
        obtain ⟨rfl, rfl⟩ := List.cons.inj ht
        cases hblock : splitBlock t with
        | none => exact Option.some_ne_none _ (hr.symm.trans (splitBlock_closing hblock))
        | some parts => exact hsome (first_eq_some_iff.2 (.inr (.inl ⟨t, _, rfl, hblock, rfl⟩)))
    · obtain ⟨rfl, -⟩ := List.cons.inj heq
      exact hsome (first_eq_some_iff.2 (.inr (.inr ⟨c, rfl, hd, rfl⟩)))

end Trivia

section Extended

variable {s s' : List Char} {layout : Layout}

theorem after_closing : after .spaced closing = ['\x7d'] :=
  (after_newline _).trans (after_solid rfl [])

theorem extended_after_closing (s : List Char) :
    Extended (after .spaced s) (after .spaced (s ++ closing)) := by
  cases hfirst : Trivia.first s with
  | none =>
    rw [after_of_first_eq_none hfirst]
    by_cases hs : s = []
    · subst hs
      rw [List.nil_append, after_closing]
      exact .brace
    · rw [after_of_first_eq_none (Trivia.first_closing_none hfirst hs)]
      exact .text s
  | some found =>
    obtain ⟨front, rest⟩ := found
    have hlt := Trivia.length_lt_of_first hfirst
    rw [after_spaced, Trivia.split_snd_of_first hfirst, after_spaced,
      Trivia.split_snd_of_first (Trivia.first_closing hfirst)]
    exact extended_after_closing rest
termination_by s.length

theorem after_append_closing (h : after .spaced s = []) : after .spaced (s ++ closing) = ['\x7d'] := by
  have hext := extended_after_closing s
  have hsettled := after_after (s ++ closing)
  rw [h] at hext
  generalize after .spaced (s ++ closing) = t at hext hsettled
  cases hext with
  | text =>
    rw [List.nil_append, after_closing] at hsettled
    cases hsettled
  | brace => rfl

/-- Blanks are skipped in both texts alike. -/
theorem Extended.after (h : Extended s s') : Extended (after layout s) (after layout s') := by
  cases layout with
  | joined | hidden => exact h
  | spaced =>
    cases h with
    | text => exact extended_after_closing s
    | brace =>
      rw [after_nil, after_solid rfl]
      exact .brace

theorem Extended.cons {c : Char} {t : List Char} (h : Extended (c :: t) s') : s' = c :: (t ++ closing) := by
  cases h
  rfl

theorem Extended.append {w t : List Char} (hw : w ≠ []) (h : Extended (w ++ t) s') :
    s' = w ++ (t ++ closing) := by
  obtain ⟨c, v, rfl⟩ := List.exists_cons_of_ne_nil hw
  exact h.cons.trans (List.append_assoc (c :: v) t closing)

/-- At the end of the text no character stands that is taken there. -/
theorem Extended.stops {p : Char → Bool} (h : Extended s s') (hline : p '\n' = false)
    (hbrace : p '\x7d' = false) (hs : Stops p s) : Stops p s' := by
  cases h with
  | text =>
    cases s with
    | nil => exact stops_cons.2 hline
    | cons c s => exact stops_cons.2 (stops_cons.1 hs)
  | brace => exact stops_cons.2 hbrace

theorem prefix_closing {w : List Char} (hw : '\n' ∉ w) : w <+: s ++ closing ↔ w <+: s := by
  constructor
  · rintro ⟨t, ht⟩
    rcases List.append_eq_append_iff.1 ht with ⟨u, rfl, -⟩ | ⟨u, rfl, hu⟩
    · exact ⟨u, rfl⟩
    · cases u with
      | nil => exact ⟨[], by simp⟩
      | cons d u =>
        obtain ⟨rfl, -⟩ := List.cons.inj hu
        exact absurd (List.mem_append_right s List.mem_cons_self) hw
  · exact fun h => h.trans (List.prefix_append s closing)

theorem Extended.prefix_iff {w : List Char} (h : Extended s s') (hline : '\n' ∉ w) (hbrace : '\x7d' ∉ w)
    (hw : w ≠ []) : w <+: s' ↔ w <+: s := by
  cases h with
  | text => exact prefix_closing hline
  | brace =>
    obtain ⟨c, v, rfl⟩ := List.exists_cons_of_ne_nil hw
    refine ⟨?_, ?_⟩
    · rintro ⟨t, ht⟩
      obtain ⟨rfl, -⟩ := List.cons.inj ht
      exact absurd List.mem_cons_self hbrace
    · rintro ⟨t, ht⟩
      cases ht

end Extended

/-! ## Inside string literals -/

/-- Inside a literal nothing is skipped: the two texts stay apart by what is put behind. -/
structure Carried (layout : Layout) (e : Peg Rule) (s : List Char) : Prop where
  fails : sourceGrammar.Fails layout e s → sourceGrammar.Fails layout e (s ++ closing)
  accepts : ∀ {y}, sourceGrammar.Accepts layout e s y →
    sourceGrammar.Accepts layout e (s ++ closing) (y ++ closing)

/-- Whether the expression takes no line feed; rules and repetitions are left out. -/
def Peg.staysInLine : Peg Rule → Bool
  | empty => true
  | one p => !p '\n'
  | lit w => !w.toList.contains '\n'
  | seq a b | alt a b => a.staysInLine && b.staysInLine
  | opt a | not a => a.staysInLine
  | many _ | more _ | rule _ => false

section Carried

variable {s : List Char} {layout : Layout} {e a b : Peg Rule}

theorem after_of_ne_spaced (h : layout ≠ .spaced) (s : List Char) : after layout s = s := by
  cases layout with
  | spaced => exact absurd rfl h
  | joined | hidden => rfl

theorem Carried.seq (hlayout : layout ≠ .spaced) (ha : Carried layout a s)
    (hb : ∀ t, sourceGrammar.Accepts layout a s t → Carried layout b t) : Carried layout (a ++ b) s := by
  have hafter := after_of_ne_spaced hlayout
  constructor
  · intro h
    rcases Grammar.fails_seq.1 h with h | ⟨t, hone, h⟩
    · exact Grammar.fails_seq.2 (.inl (ha.fails h))
    · change sourceGrammar.Fails layout b (after layout t) at h
      rw [hafter] at h
      refine Grammar.fails_seq.2 (.inr ⟨_, ha.accepts hone, ?_⟩)
      change sourceGrammar.Fails layout b (after layout (t ++ closing))
      rw [hafter]
      exact (hb t hone).fails h
  · intro y h
    obtain ⟨t, hone, h⟩ := Grammar.accepts_seq.1 h
    change sourceGrammar.Accepts layout b (after layout t) y at h
    rw [hafter] at h
    refine Grammar.accepts_seq.2 ⟨_, ha.accepts hone, ?_⟩
    change sourceGrammar.Accepts layout b (after layout (t ++ closing)) _
    rw [hafter]
    exact (hb t hone).accepts h

theorem Carried.alt (ha : Carried layout a s) (hb : Carried layout b s) : Carried layout (a / b) s := by
  constructor
  · intro h
    obtain ⟨hfa, hfb⟩ := Grammar.fails_alt.1 h
    exact Grammar.fails_alt.2 ⟨ha.fails hfa, hb.fails hfb⟩
  · intro y h
    rcases Grammar.accepts_alt.1 h with h | ⟨hf, h⟩
    · exact Grammar.accepts_alt.2 (.inl (ha.accepts h))
    · exact Grammar.accepts_alt.2 (.inr ⟨ha.fails hf, hb.accepts h⟩)

theorem Carried.rule {r : Rule} (h : Carried (r.style.inside layout) r.body s) :
    Carried layout (.rule r) s :=
  ⟨fun hf => Grammar.fails_rule.2 (h.fails (Grammar.fails_rule.1 hf)),
    fun ha => Grammar.accepts_rule.2 (h.accepts (Grammar.accepts_rule.1 ha))⟩

theorem carried_of_staysInLine (hlayout : layout ≠ .spaced) (he : e.staysInLine = true) (s : List Char) :
    Carried layout e s := by
  induction e generalizing s with
  | empty =>
    refine ⟨fun h => ?_, fun h => ?_⟩
    · exact absurd h (Grammar.Accepts.not_fails (Grammar.accepts_empty.2 rfl))
    · rw [Grammar.accepts_empty.1 h]
      exact Grammar.accepts_empty.2 rfl
  | one p =>
    have hline : p '\n' = false := by simpa [Peg.staysInLine] using he
    refine ⟨fun h => Grammar.fails_one.2 ?_, fun h => ?_⟩
    · cases s with
      | nil => exact stops_cons.2 hline
      | cons c s => exact stops_cons.2 (stops_cons.1 (Grammar.fails_one.1 h))
    · obtain ⟨c, rfl, hc⟩ := Grammar.accepts_one.1 h
      exact Grammar.accepts_one.2 ⟨c, rfl, hc⟩
  | lit w =>
    have hline : '\n' ∉ w.toList := by simpa [Peg.staysInLine] using he
    refine ⟨fun h => Grammar.fails_lit.2 fun hw => ?_, fun h => ?_⟩
    · exact Grammar.fails_lit.1 h ((prefix_closing hline).1 hw)
    · rw [Grammar.accepts_lit.1 h, List.append_assoc]
      exact Grammar.accepts_lit.2 rfl
  | seq a b iha ihb =>
    obtain ⟨ha, hb⟩ := Bool.and_eq_true_iff.1 he
    exact (iha ha s).seq hlayout fun t _ => ihb hb t
  | alt a b iha ihb =>
    obtain ⟨ha, hb⟩ := Bool.and_eq_true_iff.1 he
    exact (iha ha s).alt (ihb hb s)
  | opt a ih =>
    refine ⟨fun h => absurd h Grammar.not_fails_opt, fun h => ?_⟩
    rcases Grammar.accepts_opt.1 h with h | ⟨hf, rfl⟩
    · exact Grammar.accepts_opt.2 (.inl ((ih he s).accepts h))
    · exact Grammar.accepts_opt.2 (.inr ⟨(ih he _).fails hf, rfl⟩)
  | not a ih =>
    refine ⟨fun h => ?_, fun h => ?_⟩
    · obtain ⟨t, ht⟩ := Grammar.fails_not.1 h
      exact Grammar.fails_not.2 ⟨_, (ih he s).accepts ht⟩
    · obtain ⟨hf, rfl⟩ := Grammar.accepts_not.1 h
      exact Grammar.accepts_not.2 ⟨(ih he _).fails hf, rfl⟩
  | many | more | rule => cases he

theorem carried_stringUnit (s : List Char) : Carried .hidden stringUnit s := by
  have hescape : Carried .hidden (.rule .escape) s := .rule (carried_of_staysInLine (by decide) rfl s)
  have hends : PrefixFree ["\"", "\\", "\n"] := by decide
  refine ⟨fun h => ?_, fun h => ?_⟩
  · obtain ⟨hnone, hplain⟩ := Grammar.fails_alt.1 h
    refine Grammar.fails_alt.2 ⟨hescape.fails hnone, Grammar.fails_seq.2 (.inl (Grammar.fails_not.2 ?_))⟩
    rcases Grammar.fails_seq.1 hplain with hend | ⟨t, hnot, hany⟩
    · obtain ⟨t, ht⟩ := Grammar.fails_not.1 hend
      obtain ⟨w, hw, rfl⟩ := mem_of_accepts_anyOf ht
      rw [List.append_assoc]
      exact ⟨_, accepts_anyOf_of_mem hends hw _⟩
    · -- A character is missing, so the line feed is the next one.
      obtain ⟨-, rfl⟩ := Grammar.accepts_not.1 hnot
      cases t with
      | nil => exact ⟨_, accepts_anyOf_of_mem hends (w := "\n") (by decide) ['\x7d']⟩
      | cons c t => cases Grammar.fails_one.1 hany c rfl
  · rcases Grammar.accepts_alt.1 h with h | ⟨hnone, h⟩
    · exact Grammar.accepts_alt.2 (.inl (hescape.accepts h))
    · obtain ⟨t, hnot, hany⟩ := Grammar.accepts_seq.1 h
      obtain ⟨hend, rfl⟩ := Grammar.accepts_not.1 hnot
      obtain ⟨c, hc, -⟩ := Grammar.accepts_one.1 hany
      change t = _ at hc
      subst hc
      refine Grammar.accepts_alt.2 (.inr ⟨hescape.fails hnone, Grammar.accepts_seq.2 ⟨_, ?_,
        Grammar.accepts_one.2 ⟨c, rfl, rfl⟩⟩⟩)
      refine Grammar.accepts_not.2 ⟨fails_anyOf.2 fun w hw => ?_, rfl⟩
      have hnot := fails_anyOf.1 hend w hw
      have hsingle : ∀ w ∈ ["\"", "\\", "\n"], ∃ d, w.toList = [d] := by
        simp
      obtain ⟨d, hd⟩ := hsingle w hw
      simpa [hd, List.cons_prefix_cons] using hnot

/-- Turns carry over one by one. -/
theorem carried_many {n : Nat} (hlayout : layout ≠ .spaced)
    (h : ∀ s : List Char, s.length ≤ n → Carried layout a s) {s : List Char} (hs : s.length ≤ n) :
    Carried layout (.many a) s := by
  have hafter : ∀ t, (sourceGrammar.gap layout t).2 = t := after_of_ne_spaced hlayout
  have hmore : ∀ {s y}, sourceGrammar.Accepts layout (.more a) s y → s.length ≤ n →
      sourceGrammar.Accepts layout (.more a) (s ++ closing) (y ++ closing) := by
    intro s y hmore
    refine hmore.more_induct (P := fun s => s.length ≤ n → sourceGrammar.Accepts layout (.more a)
      (s ++ closing) (y ++ closing)) (fun hf hy => ?_) fun s t hone _ ih hs => ?_
    · rw [hafter] at hf
      exact Grammar.accepts_more.2 (.inl ⟨by rw [hafter]; exact (h y hy).fails hf, rfl⟩)
    · rw [hafter] at hone
      have ht := length_le_of_accepts hone
      exact Grammar.accepts_more.2 (.inr ⟨_, by rw [hafter]; exact (h s hs).accepts hone, ih (by omega)⟩)
  refine ⟨fun hf => absurd hf Grammar.not_fails_many, fun haccepts => ?_⟩
  rcases Grammar.accepts_many.1 haccepts with ⟨hf, rfl⟩ | ⟨t, hone, hrest⟩
  · exact Grammar.accepts_many.2 (.inl ⟨(h _ hs).fails hf, rfl⟩)
  · have ht := length_le_of_accepts hone
    exact Grammar.accepts_many.2 (.inr ⟨_, (h s hs).accepts hone, hmore hrest (by omega)⟩)

end Carried

/-! ## Expressions without braces -/

/-- Whether the rule is written without braces, and without characters that could stand at the end. -/
def Rule.isBlunt : Rule → Bool
  | endOfInput | sourceFile | expressionEntry | accessorEntry | typeEntry | stringText | escape
  | prefixOperator | patternBinding | variableDecl | accessor | functionDecl => false
  | _ => true

/-- Whether the expression takes neither a line feed nor a closing brace. -/
def Peg.isBlunt : Peg Rule → Bool
  | empty => true
  | one p => !p '\n' && !p '\x7d'
  | lit w => !w.toList.isEmpty && !w.toList.contains '\n' && !w.toList.contains '\x7d'
  | seq a b | alt a b => a.isBlunt && b.isBlunt
  | opt a | many a | more a | not a => a.isBlunt
  | rule r => r.isBlunt

/-- A sign in front of an operand asks for a character behind it, and a literal takes braces in its
text; the other rules have nothing special. -/
theorem isBlunt_body {r : Rule} (h : r.isBlunt = true) (hsign : r ≠ .prefixExpr)
    (hliteral : r ≠ .stringLiteral) : r.body.isBlunt = true := by
  cases r with
  | prefixExpr => exact absurd rfl hsign
  | stringLiteral => exact absurd rfl hliteral
  | endOfInput | sourceFile | expressionEntry | accessorEntry | typeEntry | stringText | escape
  | prefixOperator | patternBinding | variableDecl | accessor | functionDecl => cases h
  | _ => rfl

/-- What the expression does to a text it also does to the text that goes on. -/
structure Mirrored (layout : Layout) (e : Peg Rule) (s s' : List Char) : Prop where
  fails : sourceGrammar.Fails layout e s → sourceGrammar.Fails layout e s'
  accepts : ∀ {y}, sourceGrammar.Accepts layout e s y →
    ∃ y', sourceGrammar.Accepts layout e s' y' ∧ Extended y y'

/-! ### What passes from the parts of an expression to it -/

section Parts

variable {layout : Layout} {a b : Peg Rule} {s s' : List Char}

theorem mirrored_one {p : Char → Bool} (h : Extended s s') (hline : p '\n' = false)
    (hbrace : p '\x7d' = false) : Mirrored layout (.one p) s s' := by
  refine ⟨fun hf => Grammar.fails_one.2 (h.stops hline hbrace (Grammar.fails_one.1 hf)), fun {y} hy => ?_⟩
  obtain ⟨c, rfl, hc⟩ := Grammar.accepts_one.1 hy
  exact ⟨_, Grammar.accepts_one.2 ⟨c, h.cons, hc⟩, .text y⟩

theorem mirrored_lit {w : String} (h : Extended s s') (hne : w.toList ≠ []) (hline : '\n' ∉ w.toList)
    (hbrace : '\x7d' ∉ w.toList) : Mirrored layout (.lit w) s s' := by
  refine ⟨fun hf => Grammar.fails_lit.2 fun hw => Grammar.fails_lit.1 hf ?_, fun {y} hy => ?_⟩
  · exact (h.prefix_iff hline hbrace hne).1 hw
  · obtain rfl := Grammar.accepts_lit.1 hy
    exact ⟨_, Grammar.accepts_lit.2 (h.append hne), .text y⟩

theorem Mirrored.seq (ha : Mirrored layout a s s') (hb : ∀ t t', sourceGrammar.Accepts layout a s t →
    Extended t t' → Mirrored layout b (after layout t) (after layout t')) :
    Mirrored layout (a ++ b) s s' := by
  refine ⟨fun hf => ?_, fun hy => ?_⟩
  · rcases Grammar.fails_seq.1 hf with hf | ⟨t, ht, hf⟩
    · exact Grammar.fails_seq.2 (.inl (ha.fails hf))
    · obtain ⟨t', ht', hext⟩ := ha.accepts ht
      exact Grammar.fails_seq.2 (.inr ⟨t', ht', (hb t t' ht hext).fails hf⟩)
  · obtain ⟨t, ht, hy⟩ := Grammar.accepts_seq.1 hy
    obtain ⟨t', ht', hext⟩ := ha.accepts ht
    obtain ⟨y', hy', hend⟩ := (hb t t' ht hext).accepts hy
    exact ⟨y', Grammar.accepts_seq.2 ⟨t', ht', hy'⟩, hend⟩

theorem Mirrored.alt (ha : Mirrored layout a s s')
    (hb : sourceGrammar.Fails layout a s → Mirrored layout b s s') : Mirrored layout (a / b) s s' := by
  refine ⟨fun hf => ?_, fun hy => ?_⟩
  · obtain ⟨hfirst, hsecond⟩ := Grammar.fails_alt.1 hf
    exact Grammar.fails_alt.2 ⟨ha.fails hfirst, (hb hfirst).fails hsecond⟩
  · rcases Grammar.accepts_alt.1 hy with hy | ⟨hf, hy⟩
    · obtain ⟨y', hy', hend⟩ := ha.accepts hy
      exact ⟨y', Grammar.accepts_alt.2 (.inl hy'), hend⟩
    · obtain ⟨y', hy', hend⟩ := (hb hf).accepts hy
      exact ⟨y', Grammar.accepts_alt.2 (.inr ⟨ha.fails hf, hy'⟩), hend⟩

theorem Mirrored.opt (h : Extended s s') (ha : Mirrored layout a s s') : Mirrored layout (.opt a) s s' := by
  refine ⟨fun hf => absurd hf Grammar.not_fails_opt, fun hy => ?_⟩
  rcases Grammar.accepts_opt.1 hy with hy | ⟨hf, rfl⟩
  · obtain ⟨y', hy', hend⟩ := ha.accepts hy
    exact ⟨y', Grammar.accepts_opt.2 (.inl hy'), hend⟩
  · exact ⟨s', Grammar.accepts_opt.2 (.inr ⟨ha.fails hf, rfl⟩), h⟩

theorem Mirrored.many (h : Extended s s') (ha : Mirrored layout a s s')
    (hmore : ∀ t t', sourceGrammar.Accepts layout a s t → Extended t t' →
      Mirrored layout (.more a) t t') : Mirrored layout (.many a) s s' := by
  refine ⟨fun hf => absurd hf Grammar.not_fails_many, fun hy => ?_⟩
  rcases Grammar.accepts_many.1 hy with ⟨hf, rfl⟩ | ⟨t, ht, hy⟩
  · exact ⟨s', Grammar.accepts_many.2 (.inl ⟨ha.fails hf, rfl⟩), h⟩
  · obtain ⟨t', ht', hext⟩ := ha.accepts ht
    obtain ⟨y', hy', hend⟩ := (hmore t t' ht hext).accepts hy
    exact ⟨y', Grammar.accepts_many.2 (.inr ⟨t', ht', hy'⟩), hend⟩

theorem Mirrored.more (h : Extended s s') (ha : Mirrored layout a (after layout s) (after layout s'))
    (hmore : ∀ t t', sourceGrammar.Accepts layout a (after layout s) t → Extended t t' →
      Mirrored layout (.more a) t t') : Mirrored layout (.more a) s s' := by
  refine ⟨fun hf => absurd hf Grammar.not_fails_more, fun hy => ?_⟩
  rcases Grammar.accepts_more.1 hy with ⟨hf, rfl⟩ | ⟨t, ht, hy⟩
  · exact ⟨s', Grammar.accepts_more.2 (.inl ⟨ha.fails hf, rfl⟩), h⟩
  · obtain ⟨t', ht', hext⟩ := ha.accepts ht
    obtain ⟨y', hy', hend⟩ := (hmore t t' ht hext).accepts hy
    exact ⟨y', Grammar.accepts_more.2 (.inr ⟨t', ht', hy'⟩), hend⟩

theorem Mirrored.not (h : Extended s s') (ha : Mirrored layout a s s') : Mirrored layout (.not a) s s' := by
  refine ⟨fun hf => ?_, fun hy => ?_⟩
  · obtain ⟨t, ht⟩ := Grammar.fails_not.1 hf
    obtain ⟨t', ht', -⟩ := ha.accepts ht
    exact Grammar.fails_not.2 ⟨t', ht'⟩
  · obtain ⟨hf, rfl⟩ := Grammar.accepts_not.1 hy
    exact ⟨s', Grammar.accepts_not.2 ⟨ha.fails hf, rfl⟩, h⟩

theorem Mirrored.rule {r : Rule} (h : Mirrored (r.style.inside layout) r.body s s') :
    Mirrored layout (.rule r) s s' :=
  ⟨fun hf => Grammar.fails_rule.2 (h.fails (Grammar.fails_rule.1 hf)), fun hy =>
    let ⟨y', hy', hend⟩ := h.accepts (Grammar.accepts_rule.1 hy)
    ⟨y', Grammar.accepts_rule.2 hy', hend⟩⟩

end Parts

section Signs

variable {s s' y : List Char} {layout : Layout}

theorem after_sign {c : Char} (hc : isSolid c = true) (t : List Char) : after layout (c :: t) = c :: t := by
  cases layout with
  | spaced => exact after_solid hc t
  | joined | hidden => rfl

theorem accepts_prefixOperator : sourceGrammar.Accepts layout (.rule .prefixOperator) s y ↔
    ∃ c, (c = '-' ∨ c = '!') ∧ s = c :: y ∧ Stops Trivia.isBlank y := by
  constructor
  · intro h
    obtain ⟨q, hword, hnot⟩ := Grammar.accepts_seq.1 (Grammar.accepts_rule.1 h)
    obtain ⟨hf, rfl⟩ := Grammar.accepts_not.1 hnot
    obtain ⟨w, hw, rfl⟩ := mem_of_accepts_anyOf hword
    simp only [List.mem_cons, List.not_mem_nil, or_false] at hw
    rcases hw with rfl | rfl
    · exact ⟨'-', .inl rfl, rfl, Grammar.fails_one.1 hf⟩
    · exact ⟨'!', .inr rfl, rfl, Grammar.fails_one.1 hf⟩
  · rintro ⟨c, hc, rfl, hy⟩
    have hsigns : PrefixFree ["-", "!"] := by decide
    have hword : sourceGrammar.Accepts .hidden (Rule.anyOf ["-", "!"]) (c :: y) y := by
      rcases hc with rfl | rfl
      · exact accepts_anyOf_of_mem hsigns (w := "-") (by decide) y
      · exact accepts_anyOf_of_mem hsigns (w := "!") (by decide) y
    exact Grammar.accepts_rule.2 (Grammar.accepts_seq.2
      ⟨y, hword, Grammar.accepts_not.2 ⟨Grammar.fails_one.2 hy, rfl⟩⟩)

/-- A sign is taken in both texts, unless it is the last character of the first one. -/
theorem mirrored_sign (hs : Extended s s')
    (h : sourceGrammar.Accepts layout (.opt (.rule .prefixOperator)) s y) :
    (∃ y', sourceGrammar.Accepts layout (.opt (.rule .prefixOperator)) s' y' ∧ Extended y y') ∨
      (y = [] ∧ sourceGrammar.Fails layout (.rule .prefixExpr) s') := by
  rcases Grammar.accepts_opt.1 h with h | ⟨hnone, rfl⟩
  · obtain ⟨c, hc, rfl, hy⟩ := accepts_prefixOperator.1 h
    obtain rfl := hs.cons
    cases y with
    | cons d t =>
      have hsign : sourceGrammar.Accepts layout (.rule .prefixOperator) (c :: (d :: t ++ closing)) _ :=
        accepts_prefixOperator.2 ⟨c, hc, rfl, stops_cons (s := t ++ closing).2 (stops_cons.1 hy)⟩
      exact .inl ⟨_, Grammar.accepts_opt.2 (.inl hsign), .text _⟩
    | nil =>
      -- The line feed stands behind the sign, and no operand starts with a sign.
      refine .inr ⟨rfl, Grammar.fails_rule.2 (Grammar.fails_seq.2 (.inr ⟨c :: closing, ?_, ?_⟩))⟩
      · refine Grammar.accepts_opt.2 (.inr ⟨fails_of_not_accepts (fun t ht => ?_) rfl, rfl⟩)
        obtain ⟨d, -, heq, hstop⟩ := accepts_prefixOperator.1 ht
        obtain ⟨-, rfl⟩ := List.cons.inj heq
        cases stops_cons.1 hstop
      · change sourceGrammar.Fails _ _ (after layout (c :: closing))
        rcases hc with rfl | rfl
        · rw [after_sign rfl]
          exact fails_of_first closing rfl rfl rfl rfl
        · rw [after_sign rfl]
          exact fails_of_first closing rfl rfl rfl rfl
  · refine .inl ⟨s', Grammar.accepts_opt.2 (.inr ⟨fails_of_not_accepts (fun t ht => ?_) rfl, rfl⟩), hs⟩
    obtain ⟨c, hc, rfl, hstop⟩ := accepts_prefixOperator.1 ht
    generalize heq : c :: t = u at hs
    cases hs with
    | text =>
      cases y with
      | nil =>
        obtain ⟨rfl, -⟩ := List.cons.inj heq
        rcases hc with hc | hc <;> cases hc
      | cons d v =>
        obtain ⟨rfl, rfl⟩ := List.cons.inj heq
        have hv : Stops Trivia.isBlank v := by
          cases v with
          | nil => exact stops_nil _
          | cons e v => exact stops_cons.2 (stops_cons.1 hstop)
        exact (accepts_prefixOperator.2 ⟨c, hc, rfl, hv⟩).not_fails hnone
    | brace =>
      obtain ⟨rfl, -⟩ := List.cons.inj heq
      rcases hc with hc | hc <;> cases hc

end Signs

section Mirrored

variable {n : Nat} {s s' y : List Char} {layout : Layout} {e : Peg Rule}

theorem suffix_of_accepts (h : sourceGrammar.Accepts layout e s y) : y <:+ s := by
  obtain ⟨parts, hparts⟩ := h
  exact ⟨_, hparts.text sourceGrammar_blanksSplit⟩

theorem after_suffix (layout : Layout) (s : List Char) : after layout s <:+ s :=
  ⟨_, Grammar.gap_text sourceGrammar_blanksSplit layout s⟩

/-- In front of what is left stands the sign that was matched last, and not the line feed. -/
theorem eq_append_of_extended {a : Peg Rule} {w : String} {c : Char} {y' : List Char} (hext : Extended y y')
    (hw : w.toList = [c]) (hc : c ≠ '\n')
    (h : sourceGrammar.Accepts layout (a ++ .lit w) (s ++ closing) y') : y' = y ++ closing := by
  cases hext with
  | text => rfl
  | brace =>
    obtain ⟨u, hfront, hsign⟩ := Grammar.accepts_seq.1 h
    have hu : after layout u = c :: ['\x7d'] := by
      rw [← List.singleton_append, ← hw]
      exact Grammar.accepts_lit.1 hsign
    obtain ⟨v, hv⟩ := (after_suffix layout u).trans (suffix_of_accepts hfront)
    rw [hu] at hv
    exact absurd (List.cons.inj (List.append_inj_right' hv rfl)).1 hc

/-- Literals are carried over where the expressions inside them are. -/
theorem mirrored_stringLiteral (hinside : ∀ t t' : List Char, t.length < n → Extended t t' →
    Mirrored .joined (.rule .interpolation) t t') (hs : s.length ≤ n) (h : Extended s s') :
    Mirrored layout (.rule .stringLiteral) s s' := by
  have hinterpolation : ∀ t : List Char, t.length < n → Carried .joined (.rule .interpolation) t := by
    intro t ht
    have hmirrored := hinside t _ ht (.text t)
    refine ⟨hmirrored.fails, fun {y} hy => ?_⟩
    obtain ⟨y', hy', hext⟩ := hmirrored.accepts hy
    have hbody : sourceGrammar.Accepts .spaced (Rule.body .interpolation) (t ++ closing) y' :=
      Grammar.accepts_rule.1 hy'
    exact eq_append_of_extended hext rfl (by decide) hbody ▸ hy'
  have htext : ∀ t : List Char, Carried .joined (.rule .stringText) t := fun t =>
    .rule ((carried_stringUnit t).seq (by decide) fun u _ =>
      carried_many (by decide) (fun v _ => carried_stringUnit v) (Nat.le_refl u.length))
  have hbody : Carried .joined (Rule.body .stringLiteral) s := by
    have hquote : ∀ t : List Char, Carried .joined (.lit "\"") t :=
      carried_of_staysInLine (by decide) rfl
    refine Carried.seq (by decide) ((hquote s).seq (by decide) fun t ht => ?_) fun t _ => hquote t
    have hlength : s = '"' :: t := Grammar.accepts_lit.1 ht
    have hlt : t.length < n := by
      rw [hlength, List.length_cons] at hs
      omega
    refine carried_many (by decide) (fun u hu => ?_) (Nat.le_refl t.length)
    exact (hinterpolation u (by omega)).alt (htext u)
  have hliteral : Carried layout (.rule .stringLiteral) s := .rule hbody
  cases h with
  | text => exact ⟨hliteral.fails, fun hy => ⟨_, hliteral.accepts hy, .text _⟩⟩
  | brace =>
    refine ⟨fun _ => fails_of_first [] rfl rfl rfl rfl, fun hy => ?_⟩
    exact absurd (fails_nil rfl rfl) hy.not_fails

/-- An operand behind a sign, or without one. -/
theorem mirrored_prefixExpr (hoperand : ∀ t t' : List Char, t.length ≤ s.length → Extended t t' →
    Mirrored layout (.rule .postfixExpr) t t') (h : Extended s s') :
    Mirrored layout (.rule .prefixExpr) s s' := by
  have hle : ∀ {t}, sourceGrammar.Accepts layout (.opt (.rule .prefixOperator)) s t →
      (after layout t).length ≤ s.length := fun ht =>
    Nat.le_trans (length_after_le layout _) (length_le_of_accepts ht)
  refine .rule ⟨fun hf => ?_, fun hy => ?_⟩
  · obtain ⟨t, ht, hf⟩ := (Grammar.fails_seq.1 hf).resolve_left Grammar.not_fails_opt
    rcases mirrored_sign h ht with ⟨t', ht', hext⟩ | ⟨-, hnone⟩
    · exact Grammar.fails_seq.2 (.inr ⟨t', ht', (hoperand _ _ (hle ht) hext.after).fails hf⟩)
    · exact Grammar.fails_rule.1 hnone
  · obtain ⟨t, ht, hy⟩ := Grammar.accepts_seq.1 hy
    rcases mirrored_sign h ht with ⟨t', ht', hext⟩ | ⟨rfl, -⟩
    · obtain ⟨y', hy', hend⟩ := (hoperand _ _ (hle ht) hext.after).accepts hy
      exact ⟨y', Grammar.accepts_seq.2 ⟨t', ht', hy'⟩, hend⟩
    · -- The sign ends the shorter text, so no operand is found there.
      have hnil : after layout [] = [] :=
        List.eq_nil_of_length_eq_zero (Nat.le_zero.1 (length_after_le layout []))
      change sourceGrammar.Accepts layout (.rule .postfixExpr) (after layout []) _ at hy
      rw [hnil] at hy
      exact absurd (fails_nil rfl rfl) hy.not_fails

/-- Without braces in its rules an expression does the same to the text that goes on. The induction is on
what a call has left to do: a literal needs the expressions inside it, which stand further on. -/
theorem mirrored (he : e.isBlunt = true) (hb : e.isBounded sourceRanks sourceGrammar.depth = true)
    (h : Extended s s') : Mirrored layout e s s' := by
  induction hm : (Call.mk layout e s).measure sourceRanks sourceGrammar.depth using Nat.strongRecOn
    generalizing layout e s s' with
  | ind m ih =>
    subst hm
    have hcall : ∀ {d : Call Rule} {t'}, sourceGrammar.Calls ⟨layout, e, s⟩ d → d.expr.isBlunt = true →
        Extended d.text t' → Mirrored d.layout d.expr d.text t' := fun hd hblunt ht =>
      ih _ (Grammar.measure_lt_of_calls sourceGrammar_blanksSplit sourceGrammar_ranked hb hd) hblunt
        (Grammar.isBounded_of_calls sourceGrammar_ranked hb hd) ht rfl
    cases e with
    | empty =>
      refine ⟨fun hf => absurd hf (Grammar.accepts_empty.2 rfl).not_fails, fun hy => ?_⟩
      obtain rfl := Grammar.accepts_empty.1 hy
      exact ⟨s', Grammar.accepts_empty.2 rfl, h⟩
    | one p =>
      obtain ⟨hline, hbrace⟩ : p '\n' = false ∧ p '\x7d' = false := by simpa [Peg.isBlunt] using he
      exact mirrored_one h hline hbrace
    | lit w =>
      obtain ⟨⟨hne, hline⟩, hbrace⟩ : (w.toList ≠ [] ∧ '\n' ∉ w.toList) ∧ '\x7d' ∉ w.toList := by
        simpa [Peg.isBlunt] using he
      exact mirrored_lit h hne hline hbrace
    | seq a b =>
      obtain ⟨ha, hsecond⟩ := Bool.and_eq_true_iff.1 he
      exact (hcall .seqFirst ha h).seq fun t t' ht hext =>
        ht.elim fun _ ht => hcall (.seqSecond ht) hsecond hext.after
    | alt a b =>
      obtain ⟨ha, hsecond⟩ := Bool.and_eq_true_iff.1 he
      exact (hcall .altFirst ha h).alt fun hf => hcall (.altSecond hf) hsecond h
    | opt a => exact .opt h (hcall .opt he h)
    | many a =>
      exact .many h (hcall .manyFirst he h) fun t t' ht hext =>
        ht.elim fun _ ht => hcall (.manyNext ht) he hext
    | more a =>
      exact .more h (hcall .moreTurn he h.after) fun t t' ht hext =>
        ht.elim fun _ ht => hcall (.moreNext ht) he hext
    | not a => exact .not h (hcall .not he h)
    | rule r =>
      by_cases hliteral : r = .stringLiteral
      · subst hliteral
        refine mirrored_stringLiteral (fun t t' ht hext => ih _ ?_ rfl rfl hext rfl) (Nat.le_refl _) h
        have hle := Nat.mul_le_mul_left sourceGrammar.depth (Nat.succ_le_of_lt ht)
        have hrank := rank_rule_le .interpolation
        rw [Nat.mul_succ] at hle
        simp only [Call.measure, Peg.rank] at hrank ⊢
        omega
      by_cases hsign : r = .prefixExpr
      · subst hsign
        refine mirrored_prefixExpr (fun t t' ht hext => ih _ ?_ rfl rfl hext rfl) h
        have hle := Nat.mul_le_mul_left sourceGrammar.depth ht
        simp only [Call.measure, Peg.rank, sourceRanks]
        omega
      exact .rule (hcall .rule (isBlunt_body he hsign hliteral) h)

end Mirrored

end SwiftMacro
