import Mathlib.Data.List.Find
import SwiftMacro.Proofs.Texts
/-!
# What may follow an expression

An expression ends where no suffix touches it and no operator follows. `Ends` is what may stand behind
the text of an expression, `Clear` what may touch an operand, and `Closed` where even a chain of
operators cannot go on. Operators are read back where the text of a node has them: with a blank behind
them.
-/

namespace SwiftMacro

open Peg

/-! ## What may follow -/

/-- The characters that may stand behind an expression. -/
def isEnding (c : Char) : Bool := " \n),".toList.contains c

/-- Nothing stands there that an expression could go on with, except for an operator behind
blanks. -/
def Ends (s : List Char) : Prop := Stops (fun c => !isEnding c) s

/-- The text can touch an operand. -/
structure Clear (s : List Char) : Prop where
  word : Stops Rule.isNameChar s
  equals : Stops (· == '=') s
  fraction : sourceGrammar.Fails .hidden fraction s

/-- The text can touch a type. -/
structure TypeClear (s : List Char) : Prop where
  word : Stops Rule.isNameChar s
  dot : Stops (· == '.') s
  generic : Stops (· == '<') s

theorem Stops.mono {p q : Char → Bool} {s : List Char} (h : Stops p s)
    (hqp : ∀ c, q c = true → p c = true) : Stops q s := by
  intro c hc
  have hp := h c hc
  cases hq : q c with
  | false => rfl
  | true => rw [hqp c hq] at hp; cases hp

theorem Ends.stops {s : List Char} (hs : Ends s) {p : Char → Bool}
    (hp : " \n),".toList.all (fun c => !p c) = true) : Stops p s := by
  refine hs.mono fun c hc => ?_
  simp only [isEnding, Bool.not_eq_true', List.contains_eq_mem, decide_eq_false_iff_not]
  intro hmem
  have := List.all_eq_true.1 hp c hmem
  rw [hc] at this
  cases this

theorem fails_fraction {s : List Char} (h : Stops (· == '.') s) :
    sourceGrammar.Fails .hidden fraction s :=
  Grammar.fails_seq.2 (.inl (fails_lit_of_head (c := '.') rfl h))

theorem clear_cons {c : Char} (s : List Char) (hc : Rule.isNameChar c = false)
    (he : c ≠ '=') (hd : c ≠ '.') : Clear (c :: s) where
  word := stops_cons.2 hc
  equals := stops_cons.2 (by simpa using he)
  fraction := fails_fraction (stops_cons.2 (by simpa using hd))

theorem Ends.clear {s : List Char} (hs : Ends s) : Clear s where
  word := (hs.stops rfl)
  equals := (hs.stops rfl)
  fraction := fails_fraction (hs.stops rfl)

theorem Ends.typeClear {s : List Char} (hs : Ends s) : TypeClear s where
  word := (hs.stops rfl)
  dot := (hs.stops rfl)
  generic := (hs.stops rfl)

theorem typeClear_cons {c : Char} (s : List Char) (hc : Rule.isNameChar c = false)
    (hd : c ≠ '.') (hg : c ≠ '<') : TypeClear (c :: s) where
  word := stops_cons.2 hc
  dot := stops_cons.2 (by simpa using hd)
  generic := stops_cons.2 (by simpa using hg)

/-- What can touch an operand: a call, a member or an unwrapping mark. -/
def suffix : Peg Rule := .rule .argumentClause / .rule .memberSuffix / .rule .forceUnwrap

/-- What can follow an operand in a chain. -/
def tail : Peg Rule := .rule .castTail / .rule .binaryTail

theorem fails_suffix {layout : Layout} {s : List Char} (hs : Ends s) :
    sourceGrammar.Fails layout suffix s := by
  refine Grammar.fails_alt.2 ⟨Grammar.fails_alt.2 ⟨?_, ?_⟩, ?_⟩
  · refine Grammar.fails_rule.2 (Grammar.fails_seq.2 (.inl (Grammar.fails_seq.2 (.inl ?_))))
    exact fails_lit_of_head (c := '(') rfl (hs.stops rfl)
  · refine Grammar.fails_rule.2 (Grammar.fails_seq.2 (.inl ?_))
    exact fails_lit_of_head (c := '.') rfl (hs.stops rfl)
  · refine Grammar.fails_rule.2 (Grammar.fails_seq.2 (.inl ?_))
    exact fails_lit_of_head (c := '!') rfl (hs.stops rfl)

/-- Nothing follows: the end, or a bracket or comma that ends an argument. -/
inductive Closed : List Char → Prop
  | nil : Closed []
  | bracket (s : List Char) : Closed (')' :: s)
  | comma (s : List Char) : Closed (',' :: s)

theorem Closed.ends {s : List Char} (h : Closed s) : Ends s := by
  cases h with
  | nil => exact stops_nil _
  | bracket s => exact stops_cons.2 rfl
  | comma s => exact stops_cons.2 rfl

theorem Closed.after_eq {s : List Char} (h : Closed s) : after .spaced s = s := by
  cases h with
  | nil => exact after_nil
  | bracket s => exact after_solid rfl s
  | comma s => exact after_solid rfl s

theorem Closed.fails {s : List Char} {e : Peg Rule} {layout : Layout} (h : Closed s)
    (hopens : e.opens ')' = false ∧ e.opens ',' = false)
    (he : e.mayBeEmpty sourceRanks = false)
    (hb : e.isBounded sourceRanks sourceGrammar.depth = true) :
    sourceGrammar.Fails layout e s := by
  cases h with
  | nil => exact fails_nil he hb
  | bracket s => exact fails_of_first s rfl hopens.1 he hb
  | comma s => exact fails_of_first s rfl hopens.2 he hb

/-- No chain goes on there. -/
theorem Closed.no_tail {s : List Char} (h : Closed s) :
    ReadsPast .spaced (.more tail) s [] s := by
  refine readsPast_more_nil ?_
  rw [h.after_eq]
  exact h.fails ⟨rfl, rfl⟩ rfl rfl

/-! ## Operators -/

section Operators

variable {layout : Layout}

theorem reads_castOperator (hl : layout ≠ .hidden) (kind : CastKind) (s : List Char) :
    Reads layout (.rule .castOperator) ((Render.castWord kind).toList ++ ' ' :: s)
      [wordItem .castOperator (Render.castWord kind).toList] (' ' :: s) := by
  refine (reads_spelled rfl (fun _ => rfl) hl).2 ⟨_, rfl, ?_, rfl⟩
  have hend : sourceGrammar.Accepts .hidden Rule.wordEnd (' ' :: s) (' ' :: s) :=
    Grammar.accepts_not.2 ⟨Grammar.fails_one.2 (stops_cons.2 rfl), rfl⟩
  have hmarks : PrefixFree ["?", "!"] := by decide
  cases kind with
  | plain =>
    refine Grammar.accepts_seq.2 ⟨' ' :: s, Grammar.accepts_seq.2 ⟨' ' :: s, ?_, ?_⟩, hend⟩
    · exact Grammar.accepts_lit.2 rfl
    · refine Grammar.accepts_opt.2 (.inr ⟨fails_anyOf.2 ?_, rfl⟩)
      simp only [List.mem_cons, List.not_mem_nil, or_false]
      rintro w (rfl | rfl) ⟨t, ht⟩ <;> cases (List.cons.inj ht).1
  | conditional =>
    refine Grammar.accepts_seq.2 ⟨' ' :: s, Grammar.accepts_seq.2 ⟨'?' :: ' ' :: s, ?_, ?_⟩, hend⟩
    · exact Grammar.accepts_lit.2 rfl
    · exact Grammar.accepts_opt.2 (.inl (accepts_anyOf_of_mem hmarks (w := "?") (by decide) _))
  | forced =>
    refine Grammar.accepts_seq.2 ⟨' ' :: s, Grammar.accepts_seq.2 ⟨'!' :: ' ' :: s, ?_, ?_⟩, hend⟩
    · exact Grammar.accepts_lit.2 rfl
    · exact Grammar.accepts_opt.2 (.inl (accepts_anyOf_of_mem hmarks (w := "!") (by decide) _))

theorem ofSpelling_castWord (kind : CastKind) : CastKind.ofSpelling (Render.castWord kind) = kind := by
  cases kind <;> rfl

/-- An operator with a blank behind it is not the beginning of a longer one, and no shorter one
comes before it in the list. -/
theorem find_operator : ∀ op ∈ Rule.operators,
    Rule.operators.find? (standsAt (op.toList ++ [' '])) = some op := by decide

theorem length_operator : ∀ op ∈ Rule.operators, op.toList.length ≤ 2 ∧ 0 < op.toList.length := by
  decide

theorem standsAt_append {v : List Char} {op : String} (s : List Char)
    (h : op.toList.length ≤ v.length) : standsAt (v ++ s) op = standsAt v op := by
  rw [Bool.eq_iff_iff, standsAt_iff, standsAt_iff]
  constructor
  · intro hp
    exact List.prefix_of_prefix_length_le hp (List.prefix_append v s) h
  · intro hp
    exact hp.trans (List.prefix_append v s)

theorem reads_binaryOperator (hl : layout ≠ .hidden) {op : String} (hop : op ∈ Rule.operators)
    (s : List Char) :
    Reads layout (.rule .binaryOperator) (op.toList ++ ' ' :: s)
      [wordItem .binaryOperator op.toList] (' ' :: s) := by
  refine (reads_spelled rfl (fun _ => rfl) hl).2 ⟨_, rfl, ?_, rfl⟩
  refine accepts_anyOf.2 ⟨op, ?_, rfl⟩
  rw [← find_operator op hop]
  refine List.find?_congr fun w hw => ?_
  have hlength : w.toList.length ≤ (op.toList ++ [' ']).length := by
    have h1 := length_operator w hw
    have h2 := length_operator op hop
    rw [List.length_append, List.length_singleton]
    omega
  rw [← standsAt_append s hlength, List.append_assoc, List.singleton_append]

theorem reads_prefixOperator (hl : layout ≠ .hidden) {op : String} (hop : op ∈ ["-", "!"])
    {s : List Char} (hs : Stops Trivia.isBlank s) :
    Reads layout (.rule .prefixOperator) (op.toList ++ s) [wordItem .prefixOperator op.toList] s := by
  have hops : PrefixFree ["-", "!"] := by decide
  refine (reads_spelled rfl (fun _ => rfl) hl).2 ⟨_, rfl, ?_, rfl⟩
  exact Grammar.accepts_seq.2 ⟨s, accepts_anyOf_of_mem hops hop s,
    Grammar.accepts_not.2 ⟨Grammar.fails_one.2 hs, rfl⟩⟩

theorem reads_forceUnwrap (hl : layout ≠ .hidden) {s : List Char} (hs : Stops (· == '=') s) :
    Reads layout (.rule .forceUnwrap) ('!' :: s) [wordItem .forceUnwrap ['!']] s := by
  refine (reads_spelled rfl (fun _ => rfl) hl).2 ⟨['!'], rfl, ?_, rfl⟩
  refine Grammar.accepts_seq.2 ⟨s, Grammar.accepts_lit.2 rfl, Grammar.accepts_not.2 ⟨?_, rfl⟩⟩
  exact fails_lit_of_head (c := '=') rfl hs

/-- No operand starts with the sign of another one. -/
theorem fails_prefixOperator {layout : Layout} {c : Char} (hc : isOperandStart c = true)
    (s : List Char) : sourceGrammar.Fails layout (.rule .prefixOperator) (c :: s) := by
  have hstarts : Category.operand.starts c = true := hc
  refine fails_of_first s (isSolid_of_starts hstarts) ?_ rfl rfl
  refine Bool.eq_false_iff.2 fun hsign => ?_
  simp only [Peg.opens, Rule.firsts, Bool.or_eq_true, beq_iff_eq] at hsign
  rcases hsign with rfl | rfl <;> cases hc

end Operators

end SwiftMacro
