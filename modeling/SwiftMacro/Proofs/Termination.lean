import Mathlib.Logic.Relation
import SwiftMacro.Reader
import SwiftMacro.Proofs.Decided
import SwiftMacro.Proofs.Tracing
import SwiftMacro.Proofs.Words
/-!
# Reading comes to an end

Reading a text is a recursion over calls: expressions that are matched at a place of the text. What a
call has left to do is the rest of the text and the rank of its expression. `reading_terminates` says
that this falls with every call that is made, so that no rule comes back to where it was entered, that
every turn of a repetition takes a character, and that the recursion has exactly one solution, which is
what is read.
-/

namespace SwiftMacro

/-! ## Repetitions -/

namespace Peg

variable {ρ : Type}

/-- The expression and all that stands in it. Rules are not looked into. -/
def parts : Peg ρ → List (Peg ρ)
  | .seq a b => .seq a b :: (a.parts ++ b.parts)
  | .alt a b => .alt a b :: (a.parts ++ b.parts)
  | .opt a => .opt a :: a.parts
  | .many a => .many a :: a.parts
  | .more a => .more a :: a.parts
  | .not a => .not a :: a.parts
  | e => [e]

theorem isBounded_of_mem_parts {k : Ranking ρ} {depth : Nat} {e p : Peg ρ}
    (he : e.isBounded k depth = true) (hp : p ∈ e.parts) : p.isBounded k depth = true := by
  induction e with
  | empty | one q | lit w | rule r =>
    obtain rfl := List.mem_singleton.1 hp
    exact he
  | seq a b iha ihb =>
    rcases List.mem_cons.1 hp with rfl | hp
    · exact he
    simp only [isBounded, Bool.and_eq_true] at he
    exact (List.mem_append.1 hp).elim (iha he.1.1) (ihb he.1.2)
  | alt a b iha ihb =>
    rcases List.mem_cons.1 hp with rfl | hp
    · exact he
    simp only [isBounded, Bool.and_eq_true] at he
    exact (List.mem_append.1 hp).elim (iha he.1) (ihb he.2)
  | opt a ih | not a ih =>
    rcases List.mem_cons.1 hp with rfl | hp
    · exact he
    · exact ih he hp
  | many a ih | more a ih =>
    rcases List.mem_cons.1 hp with rfl | hp
    · exact he
    simp only [isBounded, Bool.and_eq_true] at he
    exact ih he.1.1 hp

end Peg

/-- What is repeated in a rule takes a character with every match. -/
theorem length_lt_of_repeated {r : Rule} {a : Peg Rule} (ha : Peg.many a ∈ r.body.parts)
    {layout : Layout} {s rest : List Char} {parts : List (Tree Rule)}
    (h : sourceGrammar.Matches layout a s parts rest) : rest.length < s.length := by
  have hbounded := Peg.isBounded_of_mem_parts (sourceGrammar_ranked.bounded r) ha
  simp only [Peg.isBounded, Bool.and_eq_true, Bool.not_eq_true'] at hbounded
  exact h.length_lt sourceGrammar_blanksSplit sourceGrammar_ranked hbounded.1.2

/-! ## Calls on a source -/

/-- What a call on a source has left to do: the characters of its text, and the rank of its
expression. -/
def Call.remaining (c : Call Rule) : Nat := c.measure sourceRanks sourceGrammar.depth

/-- The expression of the call is bounded, as those of all rules are. -/
def Call.Bounded (c : Call Rule) : Prop := c.expr.isBounded sourceRanks sourceGrammar.depth = true

/-- The trees and the rest of a match. -/
def Outcome.matched? {ρ : Type} : Outcome ρ → Option (List (Tree ρ) × List Char)
  | .matched parts rest => some (parts, rest)
  | _ => none

/-- The answer to a call, after as many steps as it has left to do. -/
def Call.answer (c : Call Rule) : Outcome Rule := sourceGrammar.runCall c.remaining c

section Calls

variable {c d : Call Rule}

theorem Call.Bounded.of_calls (hc : c.Bounded) (h : sourceGrammar.Calls c d) : d.Bounded :=
  Grammar.isBounded_of_calls sourceGrammar_ranked hc h

theorem Call.Bounded.remaining_lt (hc : c.Bounded) (h : sourceGrammar.Calls c d) :
    d.remaining < c.remaining :=
  Grammar.measure_lt_of_calls sourceGrammar_blanksSplit sourceGrammar_ranked hc h

theorem Call.Bounded.answers (hc : c.Bounded) {n : Nat} (hn : c.remaining ≤ n) :
    sourceGrammar.Answers c (sourceGrammar.runCall n c) :=
  Grammar.answers_of_measure_le sourceGrammar_blanksSplit sourceGrammar_ranked c hc hn

theorem Call.Bounded.answers_answer (hc : c.Bounded) : sourceGrammar.Answers c c.answer :=
  hc.answers (Nat.le_refl _)

/-- One step answers a call from the answers to its calls. -/
theorem Call.Bounded.answer_eq_step (hc : c.Bounded) :
    c.answer = sourceGrammar.step Call.answer c :=
  hc.answers_answer.unique (Grammar.answers_step fun _ hd => (hc.of_calls hd).answers_answer)

/-- No call leads to others without end. -/
theorem Call.Bounded.acc (hc : c.Bounded) : Acc (fun d c => sourceGrammar.Calls c d) c := by
  induction hn : c.remaining using Nat.strongRecOn generalizing c with
  | ind n ih =>
    subst hn
    exact ⟨_, fun d hd => ih _ (hc.remaining_lt hd) (hc.of_calls hd) rfl⟩

/-- All that a call leads to stands further inside: on what is left of the text, with less to do. -/
theorem Call.Bounded.of_transGen (hc : c.Bounded) (h : Relation.TransGen sourceGrammar.Calls c d) :
    d.Bounded ∧ d.text <:+ c.text ∧ d.remaining < c.remaining := by
  induction h with
  | single hd =>
    exact ⟨hc.of_calls hd, Grammar.suffix_of_calls sourceGrammar_blanksSplit hd, hc.remaining_lt hd⟩
  | tail _ hd ih =>
    obtain ⟨hbounded, hsuffix, hlt⟩ := ih
    exact ⟨hbounded.of_calls hd,
      (Grammar.suffix_of_calls sourceGrammar_blanksSplit hd).trans hsuffix,
      Nat.lt_trans (hbounded.remaining_lt hd) hlt⟩

/-- A call that leads to the same expression again has taken a character in between. -/
theorem Call.Bounded.length_lt (hc : c.Bounded) (h : Relation.TransGen sourceGrammar.Calls c d)
    (hexpr : d.expr = c.expr) : d.text.length < c.text.length := by
  obtain ⟨-, -, hlt⟩ := hc.of_transGen h
  -- The ranks are the same, so it is the text that has become shorter.
  rw [Call.remaining, Call.remaining, Call.measure, Call.measure, hexpr] at hlt
  exact Nat.lt_of_mul_lt_mul_left (Nat.lt_of_add_lt_add_left hlt)

end Calls

/-- A type argument is entered inside the type that it belongs to. -/
theorem calls_typeArgument {layout : Layout} {s rest : List Char} {parts : List (Tree Rule)}
    (h : sourceGrammar.Matches .joined (.rule .qualifiedName) s parts ('<' :: rest)) :
    Relation.TransGen sourceGrammar.Calls ⟨layout, .rule .typeExpr, s⟩
      ⟨.spaced, .rule .typeExpr, after .spaced rest⟩ := by
  have hreference : sourceGrammar.Calls ⟨layout, .rule .typeExpr, s⟩
      ⟨.joined, .rule .typeReference ++ .many (.rule .optionalMark), s⟩ := .rule
  have hclause : sourceGrammar.Calls
      ⟨.joined, .rule .qualifiedName ++ .opt (.rule .genericClause), s⟩
      ⟨.joined, .opt (.rule .genericClause), '<' :: rest⟩ := .seqSecond h
  have hargument : sourceGrammar.Calls
      ⟨.spaced, .lit "<" ++ Rule.commaSeparated (.rule .typeExpr), '<' :: rest⟩
      ⟨.spaced, Rule.commaSeparated (.rule .typeExpr), after .spaced rest⟩ :=
    .seqSecond (Grammar.matches_lit.2 ⟨rfl, rfl⟩)
  exact .head hreference <| .head .seqFirst <| .head .rule <| .head hclause <| .head .opt <|
    .head .rule <| .head .seqFirst <| .head hargument <| .single .seqFirst

/-! ## Entries -/

namespace Entry

/-- The call with which an entry reads a text. -/
def call (entry : Entry) (text : String) : Call Rule := ⟨.spaced, .rule entry.rule, text.toList⟩

/-- The calls that reading a text leads to. -/
def Reaches (entry : Entry) (text : String) : Call Rule → Prop :=
  Relation.ReflTransGen sourceGrammar.Calls (entry.call text)

variable {entry : Entry} {text : String} {c d : Call Rule}

theorem bounded_call (entry : Entry) (text : String) : (entry.call text).Bounded := rfl

theorem Reaches.bounded (h : entry.Reaches text c) : c.Bounded := by
  induction h with
  | refl => exact entry.bounded_call text
  | tail _ hd ih => exact ih.of_calls hd

/-- Whatever solves the recursion answers every call that reading leads to. -/
theorem Reaches.answers {f : Call Rule → Outcome Rule}
    (hf : ∀ c, entry.Reaches text c → f c = sourceGrammar.step f c) (h : entry.Reaches text c) :
    sourceGrammar.Answers c (f c) := by
  induction h.bounded.acc with
  | intro c _ ih =>
    rw [hf c h]
    exact Grammar.answers_step fun d hd => ih d hd (h.tail hd)

theorem remaining_call_le (entry : Entry) (text : String) :
    (entry.call text).remaining ≤ sourceGrammar.steps text.toList := by
  have hrank := rank_rule_le entry.rule
  have hremaining : (entry.call text).remaining =
      (Peg.rule entry.rule).rank sourceRanks + sourceGrammar.depth * text.toList.length := rfl
  rw [hremaining, Grammar.steps, Nat.mul_add]
  omega

theorem runCall_call {n : Nat} (hn : (entry.call text).remaining ≤ n) :
    sourceGrammar.runCall n (entry.call text) = (entry.call text).answer :=
  ((entry.bounded_call text).answers hn).unique (entry.bounded_call text).answers_answer

/-- A text is parsed by the answer to the call of its entry. -/
theorem parse_eq_answer (entry : Entry) (text : String) :
    sourceGrammar.parse entry.rule text.toList = (entry.call text).answer.matched? := by
  rw [← runCall_call (entry.remaining_call_le text)]
  rfl

/-- The report on a text that is refused is not cut short. -/
theorem trace_call {n : Nat} (hn : (entry.call text).remaining ≤ n) :
    (sourceGrammar.trace n .spaced false (.rule entry.rule) ⟨0, text.toList⟩ .start).2 =
      sourceGrammar.furthest entry.rule text.toList := by
  have hdecided := (entry.bounded_call text).answers_answer.ne_undecided
  have hsame : ∀ {m}, (entry.call text).remaining ≤ m → sourceGrammar.trace m .spaced false
      (.rule entry.rule) ⟨0, text.toList⟩ .start = sourceGrammar.trace (entry.call text).remaining
        .spaced false (.rule entry.rule) ⟨0, text.toList⟩ .start :=
    fun hm => Grammar.trace_of_le hm _ _ _ _ _ hdecided
  rw [hsame hn, Grammar.furthest, hsame (entry.remaining_call_le text)]

end Entry

/-- Reading comes to an end on every text, well-formed or not, with every entry. Every turn of a
repetition takes a character, and so does every piece that is skipped. What a call has left to do, the
rest of its text and the fixed rank of its expression, falls with each call it makes: the calls of a text
do not go on for ever, and a rule that is entered inside itself is entered further on in the text. So
the recursion of matching has one solution for the calls of a text, which decides all of them. It is
what is parsed, and neither the match nor the record for a report changes with more steps. -/
theorem reading_terminates :
    (∀ r a, Peg.many a ∈ (Rule.body r).parts → ∀ layout s parts rest,
      sourceGrammar.Matches layout a s parts rest → rest.length < s.length) ∧
    (∀ s front rest, Trivia.first s = some (front, rest) → rest.length < s.length) ∧
    ∀ (entry : Entry) (text : String),
      Acc (fun d c => sourceGrammar.Calls c d) (entry.call text) ∧
      (∀ c d, entry.Reaches text c → sourceGrammar.Calls c d → d.remaining < c.remaining) ∧
      (∀ c d r, entry.Reaches text c → Relation.TransGen sourceGrammar.Calls c d →
        c.expr = .rule r → d.expr = .rule r → d.text <:+ c.text ∧ d.text.length < c.text.length) ∧
      (∃ answer : Call Rule → Outcome Rule,
        (∀ c, entry.Reaches text c →
          answer c = sourceGrammar.step answer c ∧ answer c ≠ .undecided) ∧
        (∀ f, (∀ c, entry.Reaches text c → f c = sourceGrammar.step f c) →
          ∀ c, entry.Reaches text c → f c = answer c) ∧
        (∀ n, (entry.call text).remaining ≤ n →
          sourceGrammar.runCall n (entry.call text) = answer (entry.call text)) ∧
        sourceGrammar.parse entry.rule text.toList = (answer (entry.call text)).matched?) ∧
      (∀ n, (entry.call text).remaining ≤ n →
        (sourceGrammar.trace n .spaced false (.rule entry.rule) ⟨0, text.toList⟩ .start).2 =
          sourceGrammar.furthest entry.rule text.toList) := by
  refine ⟨fun r a ha _ _ _ _ h => length_lt_of_repeated ha h,
    fun _ _ _ h => Trivia.length_lt_of_first h, fun entry text => ?_⟩
  refine ⟨(entry.bounded_call text).acc, fun c d hc hd => hc.bounded.remaining_lt hd, ?_,
    ⟨Call.answer, fun c hc => ⟨hc.bounded.answer_eq_step, hc.bounded.answers_answer.ne_undecided⟩,
      fun f hf c hc => (hc.answers hf).unique hc.bounded.answers_answer,
      fun n hn => Entry.runCall_call hn, entry.parse_eq_answer text⟩,
    fun n hn => Entry.trace_call hn⟩
  intro c d r hc hcd hr hr'
  exact ⟨(hc.bounded.of_transGen hcd).2.1, hc.bounded.length_lt hcd (hr'.trans hr.symm)⟩

/-- In `A<B>` the type `B` is entered inside the outer one, two characters further on. -/
theorem reading_terminates_nested :
    let call := Entry.type.call "A<B>"
    let outer : Call Rule := ⟨.spaced, .rule .typeExpr, "A<B>".toList⟩
    let inner : Call Rule := ⟨.spaced, .rule .typeExpr, "B>".toList⟩
    (Peg.many (.one Rule.isNameChar) ∈ (Rule.body .identifier).parts ∧
      (∃ parts, sourceGrammar.Matches .hidden (.one Rule.isNameChar) "b1".toList parts "1".toList) ∧
      "1".toList.length < "b1".toList.length) ∧
    (Trivia.first "/**/A".toList = some ("/**/".toList, "A".toList) ∧
      "A".toList.length < "/**/A".toList.length) ∧
    (Entry.type.Reaches "A<B>" outer ∧
      ∃ d, sourceGrammar.Calls outer d ∧ d.remaining < outer.remaining) ∧
    (Relation.TransGen sourceGrammar.Calls outer inner ∧ inner.text <:+ outer.text ∧
      inner.text.length < outer.text.length) ∧
    (sourceGrammar.runCall call.remaining call ≠ .undecided ∧ call.answer ≠ .undecided) ∧
    (sourceGrammar.trace call.remaining .spaced false call.expr ⟨0, call.text⟩ .start).2 =
      sourceGrammar.furthest .typeEntry call.text := by
  intro call outer inner
  obtain ⟨hrepeated, htrivia, hread⟩ := reading_terminates
  obtain ⟨-, hfalls, hfurther, ⟨answer, hanswer, hunique, hrun, -⟩, htrace⟩ :=
    hread .type "A<B>"
  have hmem : Peg.many (.one Rule.isNameChar) ∈ (Rule.body .identifier).parts :=
    .tail _ (List.mem_append_right _ (.head _))
  have hname : sourceGrammar.Matches .hidden (.one Rule.isNameChar) "b1".toList
      [.text ['b']] "1".toList := ⟨1, rfl⟩
  have hcomment : Trivia.first "/**/A".toList = some ("/**/".toList, "A".toList) := by decide
  have houter : Entry.type.Reaches "A<B>" outer := by
    have hblank : after .spaced "A<B>".toList = "A<B>".toList := after_solid rfl _
    have hlast : sourceGrammar.Calls ⟨.spaced, .empty ++ .rule .typeExpr, "A<B>".toList⟩
        ⟨.spaced, .rule .typeExpr, after .spaced "A<B>".toList⟩ := .seqSecond ⟨1, rfl⟩
    rw [hblank] at hlast
    exact ((Relation.ReflTransGen.single .rule).tail .seqFirst).tail hlast
  have hinner : Relation.TransGen sourceGrammar.Calls outer inner := by
    have hname : sourceGrammar.Matches .joined (.rule .qualifiedName) "A<B>".toList
        [.node .qualifiedName [.text ['A']]] ('<' :: "B>".toList) := ⟨20, rfl⟩
    have hblank : after .spaced "B>".toList = "B>".toList := after_solid rfl _
    have hargument : Relation.TransGen sourceGrammar.Calls outer
        ⟨.spaced, .rule .typeExpr, after .spaced "B>".toList⟩ := calls_typeArgument hname
    rwa [hblank] at hargument
  have hcalls := hunique Call.answer (fun c hc => hc.bounded.answer_eq_step) call .refl
  obtain ⟨hsuffix, hlt⟩ := hfurther outer inner .typeExpr houter hinner rfl rfl
  refine ⟨⟨hmem, ⟨_, hname⟩, hrepeated _ _ hmem _ _ _ _ hname⟩, ⟨hcomment, htrivia _ _ _ hcomment⟩,
    ⟨houter, _, .rule, hfalls _ _ houter .rule⟩, ⟨hinner, hsuffix, hlt⟩,
    ⟨hrun _ (Nat.le_refl _) ▸ (hanswer _ .refl).2, hcalls ▸ (hanswer _ .refl).2⟩,
    htrace _ (Nat.le_refl _)⟩

end SwiftMacro
