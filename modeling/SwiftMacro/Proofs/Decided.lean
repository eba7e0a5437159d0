import SwiftMacro.Grammar
import SwiftMacro.Proofs.Matching
/-!
# Every text is decided

An expression can be entered inside itself without taking a character only if its rule leads back to
itself before one is taken. `Ranking` gives every rule a rank that falls on the way inwards, and
`Ranked` says that the ranks are right for a grammar. `Calls` lists the matches that a match asks for,
and `step` puts its answer together from theirs. What a call has left to do is `depth` for each
character of its text and the rank of its expression; `measure_lt_of_calls` says that this falls on the
way inwards, so that as many steps decide every call (`decided_of_rank`). `parse_eq_some` says what this
gives for the grammar of sources: its `parse` answers what `Matches` says.
-/

namespace SwiftMacro

/-- What can be said of the rules before any text is seen: which may match the empty text, and how
far they lead inwards before a character is taken. -/
structure Ranking (ρ : Type) where
  mayBeEmpty : ρ → Bool
  rank : ρ → Nat

namespace Peg

variable {ρ : Type} (k : Ranking ρ)

/-- Whether the expression may match the empty text. -/
def mayBeEmpty : Peg ρ → Bool
  | empty | opt _ | many _ | more _ | not _ => true
  | one _ => false
  | lit w => w.toList.isEmpty
  | seq a b => a.mayBeEmpty && b.mayBeEmpty
  | alt a b => a.mayBeEmpty || b.mayBeEmpty
  | rule r => k.mayBeEmpty r

/-- How many expressions can be entered one inside the other before a character is taken. -/
def rank : Peg ρ → Nat
  | empty | one _ | lit _ => 1
  | seq a b => 1 + max a.rank (if a.mayBeEmpty k then b.rank else 0)
  | alt a b => 1 + max a.rank b.rank
  | opt a | many a | more a | not a => 1 + a.rank
  | rule r => 1 + k.rank r

/-- Every part has at most the rank `depth`, and what is repeated takes a character. -/
def isBounded (depth : Nat) : Peg ρ → Bool
  | empty | one _ | lit _ | rule _ => true
  | seq a b => a.isBounded depth && b.isBounded depth && decide (b.rank k ≤ depth)
  | alt a b => a.isBounded depth && b.isBounded depth
  | opt a | not a => a.isBounded depth
  | many a | more a => a.isBounded depth && !a.mayBeEmpty k && decide (1 + a.rank k ≤ depth)

theorem rank_pos (e : Peg ρ) : 0 < e.rank k := by
  cases e <;> simp only [rank] <;> omega

end Peg

namespace Grammar

variable {ρ : Type} {g : Grammar ρ} {k : Ranking ρ}

/-- The ranking is right for the grammar: ranks fall from a rule to its expression. -/
structure Ranked (g : Grammar ρ) (k : Ranking ρ) : Prop where
  mayBeEmpty : ∀ r, (g.body r).mayBeEmpty k = true → k.mayBeEmpty r = true
  rank : ∀ r, (g.body r).rank k ≤ k.rank r
  bounded : ∀ r, (g.body r).isBounded k g.depth = true

theorem length_gap_le (hg : g.BlanksSplit) (layout : Layout) (s : List Char) :
    (g.gap layout s).2.length ≤ s.length := by
  have h := congrArg List.length (gap_text hg layout s)
  rw [List.length_append] at h
  omega

section Length

variable {layout : Layout} {e : Peg ρ} {s rest : List Char} {parts : List (Tree ρ)}

theorem Matches.length_le (hg : g.BlanksSplit) (h : g.Matches layout e s parts rest) :
    rest.length ≤ s.length := by
  have ht := congrArg List.length (h.text hg)
  rw [List.length_append] at ht
  omega

/-- An expression that cannot match the empty text takes a character. -/
theorem Matches.length_lt (hg : g.BlanksSplit) (hk : g.Ranked k) (h : g.Matches layout e s parts rest)
    (he : e.mayBeEmpty k = false) : rest.length < s.length := by
  induction h using Matches.induct with
  | empty | optSome | optNone | manyStop | manyTurn | moreStop | moreTurn | not => cases he
  | one => simp
  | @lit _ w =>
    have hw : w.toList ≠ [] := by simpa [Peg.mayBeEmpty] using he
    have := List.length_pos_iff.2 hw
    rw [List.length_append]
    omega
  | @seq layout _ _ _ _ r _ _ ha hb iha ihb =>
    have h1 := ha.length_le hg
    have h2 := length_gap_le hg layout r
    have h3 := hb.length_le hg
    simp only [Peg.mayBeEmpty, Bool.and_eq_false_iff] at he
    rcases he with he | he
    · have := iha he
      omega
    · have := ihb he
      omega
  | altFirst _ ih =>
    simp only [Peg.mayBeEmpty, Bool.or_eq_false_iff] at he
    exact ih he.1
  | altSecond _ _ ih =>
    simp only [Peg.mayBeEmpty, Bool.or_eq_false_iff] at he
    exact ih he.2
  | @rule _ r _ _ _ _ ih =>
    refine ih (Bool.eq_false_iff.2 fun hb => ?_)
    rw [Peg.mayBeEmpty, hk.mayBeEmpty r hb] at he
    cases he

end Length

/-- A shorter text leaves `depth` more steps than the longer one. -/
theorem steps_of_length_lt {depth m l rank : Nat} (hl : m < l) (hr : rank ≤ depth) :
    rank + depth * m ≤ depth * l := by
  have h : depth * (m + 1) ≤ depth * l := Nat.mul_le_mul_left depth hl
  rw [Nat.mul_add] at h
  omega

end Grammar

/-! ## Calls -/

/-- An expression to match at the start of a text. -/
structure Call (ρ : Type) where
  layout : Layout
  expr : Peg ρ
  text : List Char

/-- What a call has left to do: `depth` for each character of the text, and the rank of the
expression. -/
def Call.measure {ρ : Type} (k : Ranking ρ) (depth : Nat) (c : Call ρ) : Nat :=
  c.expr.rank k + depth * c.text.length

namespace Grammar

variable {ρ : Type} (g : Grammar ρ) {k : Ranking ρ}

/-- The calls that a call makes. What a part matches decides which call is next, and where. -/
inductive Calls : Call ρ → Call ρ → Prop where
  | seqFirst {layout a b s} : Calls ⟨layout, .seq a b, s⟩ ⟨layout, a, s⟩
  | seqSecond {layout a b s parts rest} (h : g.Matches layout a s parts rest) :
      Calls ⟨layout, .seq a b, s⟩ ⟨layout, b, (g.gap layout rest).2⟩
  | altFirst {layout a b s} : Calls ⟨layout, .alt a b, s⟩ ⟨layout, a, s⟩
  | altSecond {layout a b s} (h : g.Fails layout a s) : Calls ⟨layout, .alt a b, s⟩ ⟨layout, b, s⟩
  | opt {layout a s} : Calls ⟨layout, .opt a, s⟩ ⟨layout, a, s⟩
  | manyFirst {layout a s} : Calls ⟨layout, .many a, s⟩ ⟨layout, a, s⟩
  | manyNext {layout a s parts rest} (h : g.Matches layout a s parts rest) :
      Calls ⟨layout, .many a, s⟩ ⟨layout, .more a, rest⟩
  | moreTurn {layout a s} : Calls ⟨layout, .more a, s⟩ ⟨layout, a, (g.gap layout s).2⟩
  | moreNext {layout a s parts rest} (h : g.Matches layout a (g.gap layout s).2 parts rest) :
      Calls ⟨layout, .more a, s⟩ ⟨layout, .more a, rest⟩
  | not {layout a s} : Calls ⟨layout, .not a, s⟩ ⟨layout, a, s⟩
  | rule {layout r s} : Calls ⟨layout, .rule r, s⟩ ⟨(g.style r).inside layout, g.body r, s⟩

/-- The answer to a call, from the answers to the calls it makes. -/
def step (answer : Call ρ → Outcome ρ) : Call ρ → Outcome ρ
  | ⟨_, .empty, s⟩ => .matched [] s
  | ⟨_, .one p, s⟩ =>
      match s with
      | [] => .failed
      | c :: rest => if p c then .matched [.text [c]] rest else .failed
  | ⟨_, .lit w, s⟩ =>
      match dropWord w.toList s with
      | none => .failed
      | some rest => .matched [.text w.toList] rest
  | ⟨layout, .seq a b, s⟩ =>
      match answer ⟨layout, a, s⟩ with
      | .matched parts rest =>
          (answer ⟨layout, b, (g.gap layout rest).2⟩).prepend (parts ++ (g.gap layout rest).1)
      | other => other
  | ⟨layout, .alt a b, s⟩ =>
      match answer ⟨layout, a, s⟩ with
      | .failed => answer ⟨layout, b, s⟩
      | other => other
  | ⟨layout, .opt a, s⟩ =>
      match answer ⟨layout, a, s⟩ with
      | .failed => .matched [] s
      | other => other
  | ⟨layout, .many a, s⟩ =>
      match answer ⟨layout, a, s⟩ with
      | .failed => .matched [] s
      | .matched parts rest => (answer ⟨layout, .more a, rest⟩).prepend parts
      | .undecided => .undecided
  | ⟨layout, .more a, s⟩ =>
      match answer ⟨layout, a, (g.gap layout s).2⟩ with
      | .failed => .matched [] s
      | .matched parts rest =>
          (answer ⟨layout, .more a, rest⟩).prepend ((g.gap layout s).1 ++ parts)
      | .undecided => .undecided
  | ⟨layout, .not a, s⟩ =>
      match answer ⟨layout, a, s⟩ with
      | .failed => .matched [] s
      | .matched _ _ => .failed
      | .undecided => .undecided
  | ⟨layout, .rule r, s⟩ =>
      match answer ⟨(g.style r).inside layout, g.body r, s⟩ with
      | .matched parts rest => .matched (g.close r layout parts) rest
      | other => other

/-- What a number of steps answers to a call. -/
def runCall (n : Nat) (c : Call ρ) : Outcome ρ := g.run n c.layout c.expr c.text

/-- The outcome is the answer to the call. -/
def Answers (c : Call ρ) : Outcome ρ → Prop
  | .undecided => False
  | .failed => g.Fails c.layout c.expr c.text
  | .matched parts rest => g.Matches c.layout c.expr c.text parts rest

variable {g} {c d : Call ρ}

theorem runCall_succ (n : Nat) (c : Call ρ) : g.runCall (n + 1) c = g.step (g.runCall n) c := by
  obtain ⟨layout, e, s⟩ := c
  cases e <;> rfl

theorem answers_runCall {n : Nat} (h : g.runCall n c ≠ .undecided) : g.Answers c (g.runCall n c) := by
  cases hr : g.runCall n c with
  | undecided => exact absurd hr h
  | failed => exact ⟨n, hr⟩
  | matched parts rest => exact ⟨n, hr⟩

theorem Answers.unique {o o' : Outcome ρ} (h : g.Answers c o) (h' : g.Answers c o') : o = o' := by
  cases o with
  | undecided => exact h.elim
  | failed =>
    cases o' with
    | undecided => exact h'.elim
    | failed => rfl
    | matched => exact absurd h (Matches.not_fails h')
  | matched parts rest =>
    cases o' with
    | undecided => exact h'.elim
    | failed => exact absurd h' (Matches.not_fails h)
    | matched parts' rest' =>
      obtain ⟨rfl, rfl⟩ := Matches.unique h h'
      rfl

/-- The answer to a call that goes on with another one, behind what it matched so far. -/
theorem Answers.prepend {o : Outcome ρ} {front : List (Tree ρ)} (h : g.Answers d o)
    (failed : g.Fails d.layout d.expr d.text → g.Fails c.layout c.expr c.text)
    (matched : ∀ back rest, g.Matches d.layout d.expr d.text back rest →
      g.Matches c.layout c.expr c.text (front ++ back) rest) : g.Answers c (o.prepend front) := by
  cases o with
  | undecided => exact h
  | failed => exact failed h
  | matched back rest => exact matched back rest h

/-- Where all calls that a call makes are answered, one step answers the call. -/
theorem answers_step {answer : Call ρ → Outcome ρ} (h : ∀ d, g.Calls c d → g.Answers d (answer d)) :
    g.Answers c (g.step answer c) := by
  obtain ⟨layout, e, s⟩ := c
  cases e with
  | empty => exact answers_runCall (n := 1) (by simp [runCall, run])
  | one p =>
    refine answers_runCall (n := 1) ?_
    cases s with
    | nil => simp [runCall, run]
    | cons c t => simp only [runCall, run]; split <;> simp
  | lit w =>
    refine answers_runCall (n := 1) ?_
    simp only [runCall, run]
    split <;> simp
  | seq a b =>
    have ha := h _ .seqFirst
    simp only [step]
    generalize answer ⟨layout, a, s⟩ = o at ha ⊢
    cases o with
    | undecided => exact ha
    | failed => exact fails_seq.2 (.inl ha)
    | matched parts rest =>
      exact (h _ (.seqSecond ha)).prepend (fun hb => fails_seq.2 (.inr ⟨rest, ⟨parts, ha⟩, hb⟩))
        fun back t hb => matches_seq.2 ⟨parts, rest, back, ha, hb, rfl⟩
  | alt a b =>
    have ha := h _ .altFirst
    simp only [step]
    generalize answer ⟨layout, a, s⟩ = o at ha ⊢
    cases o with
    | undecided => exact ha
    | matched parts rest => exact matches_alt.2 (.inl ha)
    | failed =>
      have hb := h _ (.altSecond ha)
      simp only
      generalize answer ⟨layout, b, s⟩ = o at hb ⊢
      cases o with
      | undecided => exact hb
      | failed => exact fails_alt.2 ⟨ha, hb⟩
      | matched parts rest => exact matches_alt.2 (.inr ⟨ha, hb⟩)
  | opt a =>
    have ha := h _ .opt
    simp only [step]
    generalize answer ⟨layout, a, s⟩ = o at ha ⊢
    cases o with
    | undecided => exact ha
    | failed => exact matches_opt.2 (.inr ⟨ha, rfl, rfl⟩)
    | matched parts rest => exact matches_opt.2 (.inl ha)
  | many a =>
    have ha := h _ .manyFirst
    simp only [step]
    generalize answer ⟨layout, a, s⟩ = o at ha ⊢
    cases o with
    | undecided => exact ha
    | failed => exact matches_many.2 (.inl ⟨ha, rfl, rfl⟩)
    | matched parts rest =>
      exact (h _ (.manyNext ha)).prepend (fun hf => absurd hf not_fails_more)
        fun back t hb => matches_many.2 (.inr ⟨parts, rest, back, ha, hb, rfl⟩)
  | more a =>
    have ha := h _ .moreTurn
    simp only [step]
    generalize answer ⟨layout, a, (g.gap layout s).2⟩ = o at ha ⊢
    cases o with
    | undecided => exact ha
    | failed => exact matches_more.2 (.inl ⟨ha, rfl, rfl⟩)
    | matched parts rest =>
      exact (h _ (.moreNext ha)).prepend (fun hf => absurd hf not_fails_more)
        fun back t hb => matches_more.2 (.inr ⟨parts, rest, back, ha, hb, rfl⟩)
  | not a =>
    have ha := h _ .not
    simp only [step]
    generalize answer ⟨layout, a, s⟩ = o at ha ⊢
    cases o with
    | undecided => exact ha
    | failed => exact matches_not.2 ⟨ha, rfl, rfl⟩
    | matched parts rest => exact fails_not.2 ⟨rest, parts, ha⟩
  | rule r =>
    have hb := h _ .rule
    simp only [step]
    generalize answer ⟨(g.style r).inside layout, g.body r, s⟩ = o at hb ⊢
    cases o with
    | undecided => exact hb
    | failed => exact fails_rule.2 hb
    | matched parts rest => exact matches_rule.2 ⟨parts, hb, rfl⟩

/-! ## What is left to do falls -/

theorem isBounded_of_calls (hk : g.Ranked k) (hc : c.expr.isBounded k g.depth = true)
    (h : g.Calls c d) : d.expr.isBounded k g.depth = true := by
  cases h with
  | rule => exact hk.bounded _
  | opt | not => exact hc
  | manyNext | moreNext => exact hc
  | seqFirst | seqSecond | altFirst | altSecond | manyFirst | moreTurn =>
    simp only [Peg.isBounded, Bool.and_eq_true] at hc
    simp only [hc]

/-- The calls of a call are on what it leaves of its text. -/
theorem suffix_of_calls (hg : g.BlanksSplit) (h : g.Calls c d) : d.text <:+ c.text := by
  have hgap : ∀ layout s, (g.gap layout s).2 <:+ s := fun layout s => ⟨_, gap_text hg layout s⟩
  have hrest : ∀ {layout e s parts rest}, g.Matches layout e s parts rest → rest <:+ s :=
    fun h => ⟨_, h.text hg⟩
  cases h with
  | seqFirst | altFirst | altSecond | opt | manyFirst | not | rule => exact List.suffix_rfl
  | seqSecond h => exact (hgap _ _).trans (hrest h)
  | manyNext h => exact hrest h
  | moreTurn => exact hgap _ _
  | moreNext h => exact (hrest h).trans (hgap _ _)

/-- A call has more left to do than the calls it makes: those on the same text have a lower rank, and
those on a shorter one have at least `depth` less from the text. -/
theorem measure_lt_of_calls (hg : g.BlanksSplit) (hk : g.Ranked k)
    (hc : c.expr.isBounded k g.depth = true) (h : g.Calls c d) :
    d.measure k g.depth < c.measure k g.depth := by
  cases h with
  | seqFirst | altFirst | altSecond | opt | manyFirst | not =>
    simp only [Call.measure, Peg.rank]
    omega
  | @rule _ r _ =>
    have hr := hk.rank r
    simp only [Call.measure, Peg.rank]
    omega
  | @moreTurn layout a s =>
    have hle := Nat.mul_le_mul_left g.depth (length_gap_le hg layout s)
    simp only [Call.measure, Peg.rank]
    omega
  | @seqSecond layout a b s parts rest hmatch =>
    simp only [Peg.isBounded, Bool.and_eq_true, decide_eq_true_eq] at hc
    have hgap := length_gap_le hg layout rest
    have hpos := a.rank_pos k
    simp only [Call.measure, Peg.rank]
    -- The second part stands at the same place only where the first may be empty; then its rank counts.
    by_cases hempty : a.mayBeEmpty k = true
    · have hle := Nat.mul_le_mul_left g.depth (Nat.le_trans hgap (hmatch.length_le hg))
      rw [if_pos hempty]
      omega
    · have hlt := hmatch.length_lt hg hk (Bool.eq_false_iff.2 hempty)
      have hle := steps_of_length_lt (Nat.lt_of_le_of_lt hgap hlt) hc.2
      omega
  | manyNext hmatch =>
    simp only [Peg.isBounded, Bool.and_eq_true, decide_eq_true_eq, Bool.not_eq_true'] at hc
    have hle := steps_of_length_lt (hmatch.length_lt hg hk hc.1.2) hc.2
    simp only [Call.measure, Peg.rank]
    omega
  | @moreNext layout a s parts rest hmatch =>
    simp only [Peg.isBounded, Bool.and_eq_true, decide_eq_true_eq, Bool.not_eq_true'] at hc
    have hlt := hmatch.length_lt hg hk hc.1.2
    have hle := steps_of_length_lt (Nat.lt_of_lt_of_le hlt (length_gap_le hg layout s)) hc.2
    simp only [Call.measure, Peg.rank]
    omega

/-- As many steps as a call has left to do answer it. -/
theorem answers_of_measure_le (hg : g.BlanksSplit) (hk : g.Ranked k) {n : Nat} (c : Call ρ)
    (hc : c.expr.isBounded k g.depth = true) (hn : c.measure k g.depth ≤ n) :
    g.Answers c (g.runCall n c) := by
  induction n generalizing c with
  | zero =>
    have := c.expr.rank_pos k
    rw [Call.measure] at hn
    omega
  | succ n ih =>
    rw [runCall_succ]
    refine answers_step fun d hd => ih d (isBounded_of_calls hk hc hd) ?_
    have := measure_lt_of_calls hg hk hc hd
    omega

theorem Answers.ne_undecided {o : Outcome ρ} (h : g.Answers c o) : o ≠ .undecided := by
  rintro rfl
  exact h

/-- With `depth` steps for each character and as many as the rank of the expression, the answer is
there. -/
theorem decided_of_rank (hg : g.BlanksSplit) (hk : g.Ranked k) (n : Nat) (layout : Layout)
    (e : Peg ρ) (s : List Char) (he : e.isBounded k g.depth = true)
    (hn : e.rank k + g.depth * s.length ≤ n) : g.run n layout e s ≠ .undecided :=
  (answers_of_measure_le hg hk ⟨layout, e, s⟩ he hn).ne_undecided

end Grammar

/-! ## The grammar of sources -/

/-- The ranks of the rules of sources. Only an empty source, and its end, take no character. -/
def sourceRanks : Ranking Rule where
  mayBeEmpty
    | .sourceFile | .endOfInput => true
    | _ => false
  rank
    | .optionalMark => 1
    | .endOfInput | .nilLiteral | .escape | .declaredType | .initialValue | .importKeyword
    | .wildcardPattern | .memberSuffix | .forceUnwrap | .implicitMember => 2
    | .integerLiteral | .booleanLiteral | .stringLiteral | .interpolation | .bindingKeyword
    | .accessorKind | .tuplePattern | .genericClause | .castOperator | .prefixOperator
    | .tupleExpr | .argumentClause => 3
    | .floatLiteral | .attributeUse | .importDecl | .macroUse => 4
    | .castTail => 5
    | .stringText | .accessor => 7
    | .keyword => 9
    | .accessorEntry | .modifier => 10
    | .identifier => 13
    | .namePattern | .binaryOperator | .argumentLabel => 14
    | .variableDecl | .qualifiedName => 15
    | .binaryTail | .postfixExpr => 16
    | .typeReference => 17
    | .prefixExpr => 18
    | .patternBinding | .typeExpr => 19
    | .functionDecl | .expr => 20
    | .typeEntry | .argument => 22
    | .expressionEntry => 23
    | .sourceFile => 27

theorem sourceGrammar_blanksSplit : sourceGrammar.BlanksSplit := Trivia.split_append

theorem sourceGrammar_ranked : sourceGrammar.Ranked sourceRanks where
  mayBeEmpty r := by cases r <;> decide
  rank r := by cases r <;> decide
  bounded r := by cases r <;> decide

theorem rank_rule_le (r : Rule) : (Peg.rule r).rank sourceRanks ≤ sourceGrammar.depth := by
  cases r <;> decide

/-- An expression over the rules of sources matches a text or fails on it. -/
theorem accepts_or_fails (layout : Layout) (e : Peg Rule) (s : List Char)
    (he : e.isBounded sourceRanks sourceGrammar.depth = true) :
    (∃ rest, sourceGrammar.Accepts layout e s rest) ∨ sourceGrammar.Fails layout e s := by
  have h := Grammar.decided_of_rank sourceGrammar_blanksSplit sourceGrammar_ranked
    (e.rank sourceRanks + sourceGrammar.depth * s.length) layout e s he (Nat.le_refl _)
  cases hr : sourceGrammar.run (e.rank sourceRanks + sourceGrammar.depth * s.length) layout e s with
  | undecided => exact absurd hr h
  | failed => exact .inr ⟨_, hr⟩
  | matched parts rest => exact .inl ⟨rest, parts, _, hr⟩

/-- What does not match fails. -/
theorem fails_of_not_accepts {layout : Layout} {e : Peg Rule} {s : List Char}
    (h : ∀ rest, ¬ sourceGrammar.Accepts layout e s rest)
    (he : e.isBounded sourceRanks sourceGrammar.depth = true) :
    sourceGrammar.Fails layout e s := by
  rcases accepts_or_fails layout e s he with ⟨rest, hr⟩ | hf
  · exact absurd hr (h rest)
  · exact hf

/-- Parsing gives what the rule matches, for every text. -/
theorem parse_eq_some {r : Rule} {s : List Char} {parts : List (Tree Rule)} {rest : List Char} :
    sourceGrammar.parse r s = some (parts, rest) ↔
      sourceGrammar.Matches .spaced (.rule r) s parts rest := by
  have hdecided : sourceGrammar.run (sourceGrammar.steps s) .spaced (.rule r) s ≠ .undecided := by
    refine Grammar.decided_of_rank sourceGrammar_blanksSplit sourceGrammar_ranked _ _ _ _ rfl ?_
    have := rank_rule_le r
    rw [Grammar.steps, Nat.mul_add]
    omega
  constructor
  · intro h
    simp only [Grammar.parse] at h
    split at h
    · next ps t hr =>
      obtain ⟨rfl, rfl⟩ := Prod.mk.inj (Option.some.inj h)
      exact ⟨_, hr⟩
    · cases h
  · intro h
    simp only [Grammar.parse]
    cases hr : sourceGrammar.run (sourceGrammar.steps s) .spaced (.rule r) s with
    | undecided => exact absurd hr hdecided
    | failed => exact absurd ⟨_, hr⟩ h.not_fails
    | matched ps t =>
      obtain ⟨rfl, rfl⟩ := h.unique ⟨_, hr⟩
      rfl

end SwiftMacro
