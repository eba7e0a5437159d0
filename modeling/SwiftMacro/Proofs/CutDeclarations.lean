import SwiftMacro.Proofs.Blocks
import SwiftMacro.Proofs.CutExpressions
import SwiftMacro.Proofs.Leading
/-!
# Declarations that are cut off

A pattern ends with its bracket or its name and a function with its brace. A binding may end with a
name, a type or an expression, and then it stops where none of its further parts follows
(`EndsBinding`). What stands in braces is shorter than the declaration; the lemmas here take it for
granted that it can be cut off.
-/

namespace SwiftMacro

open Peg

/-! ## Patterns -/

section Patterns

variable {r : List Char} {s y : List Char} {parts : List (Tree Rule)}

/-- No wildcard: the name goes on behind the underscore, in the cut text too. -/
theorem keeps_wildcard {z : List Char} (h : sourceGrammar.Accepts .spaced (.rule .namePattern) s z)
    (hr : sourceGrammar.Accepts .spaced (.rule .namePattern) (s ++ r) (z ++ r)) :
    Keeps r .spaced (.rule .wildcardPattern) s := by
  intro hf
  obtain ⟨w, hw, rfl, hstop⟩ := accepts_identifier.1 (Grammar.accepts_rule.1 h)
  obtain ⟨v, hv, hvs, hstop'⟩ := accepts_identifier.1 (Grammar.accepts_rule.1 hr)
  rw [List.append_assoc] at hvs
  have hvw : w = v := List.append_cancel_right hvs
  have hne : w ≠ "_".toList := by
    rintro rfl
    have haccepts : sourceGrammar.Accepts .spaced (.rule .wildcardPattern) ("_".toList ++ z ++ r)
        (z ++ r) := by
      rw [List.append_assoc]
      exact Grammar.accepts_rule.2 ((accepts_wholeWord (by decide : PrefixFree ["_"])).2
        ⟨"_", List.mem_cons_self, rfl, hstop'⟩)
    exact haccepts.not_fails hf
  have hnone : ∀ v ∈ ["_"], w ≠ v.toList := by simpa using hne
  exact Grammar.fails_rule.2 (fails_wholeWord hw.chars hstop hnone (by decide) (by decide) rfl)

/-- The patterns of a tuple, up to its bracket. -/
theorem cut_tuplePattern {n : Nat}
    (ih : ∀ s parts y, s.length < n → Within r .spaced Rule.pattern s parts y →
      sourceGrammar.Matches .spaced Rule.pattern s parts y)
    (h : Within r .spaced (.rule .tuplePattern) s parts y) (hs : s.length ≤ n) :
    sourceGrammar.Matches .spaced (.rule .tuplePattern) s parts y := by
  refine h.cut_rule fun inner hinner => ?_
  obtain ⟨_, z, qs, hfront, hclose, -, rfl⟩ := Within.seq hinner
  obtain ⟨ps, t, qs', hopen, hlist, -, rfl⟩ := Within.seq hfront
  obtain ⟨rfl, -⟩ := Grammar.matches_lit.1 hopen.lit
  have hbracket : Before (· == ')') z := before_of_after (Grammar.matches_lit.1 hclose.lit).1 rfl
  have hlength : (after .spaced t).length < n := Nat.lt_of_le_of_lt (length_after_le .spaced t) hs
  have hcuts : CutsTurns r .spaced (.lit "," ++ Rule.pattern) (after .spaced t).length
      fun _ => True := by
    refine ⟨fun s parts y hs _ h _ => ?_, fun _ _ _ _ _ _ _ _ => trivial⟩
    obtain ⟨ps, z, qs, hcomma, hpattern, -, rfl⟩ := Within.seq h
    have hle := Nat.le_trans (length_after_le .spaced z) (Nat.le_trans hcomma.length_le hs)
    have hpattern := ih _ _ _ (Nat.lt_of_le_of_lt hle hlength) hpattern
    exact Grammar.matches_seq.2 ⟨ps, z, qs, hcomma.lit, hpattern, rfl⟩
  have hlist : sourceGrammar.Matches .spaced (.opt (Rule.commaSeparated Rule.pattern))
      (after .spaced t) qs' z := by
    rcases hlist.opt with hlist | ⟨-, rfl, rfl⟩
    · refine Grammar.matches_opt.2
        (.inl (hcuts.chain hlist (Nat.le_refl _) (fun ps x hpattern _ => ?_) ?_))
      · exact ih _ _ _ hlength hpattern
      · exact fun x hx _ => ⟨trivial, fails_comma ((hbracket.of_leaves hx).stops_after_eq rfl)⟩
    · refine Grammar.matches_opt.2 (.inr ⟨?_, rfl, rfl⟩)
      rw [← after_after]
      exact hbracket.fails_eq rfl rfl rfl
  exact Grammar.matches_seq.2 ⟨_, z, qs, Grammar.matches_seq.2 ⟨ps, t, qs', hopen.lit, hlist, rfl⟩,
    hclose.lit, rfl⟩

theorem cut_pattern (h : Within r .spaced Rule.pattern s parts y) :
    sourceGrammar.Matches .spaced Rule.pattern s parts y := by
  induction hn : s.length using Nat.strongRecOn generalizing s parts y with
  | ind n ih =>
    rcases h.alt with h | ⟨hf, h⟩
    · rcases h.alt with h | ⟨-, h⟩
      · have htuple := cut_tuplePattern (fun s parts y hs h => ih s.length hs h rfl) h (Nat.le_of_eq hn)
        exact Grammar.matches_alt.2 (.inl (Grammar.matches_alt.2 (.inl htuple)))
      · have hword := cut_word rfl rfl h
        obtain ⟨t, rfl⟩ := eq_cons_of_sign (c := '_') rfl rfl ⟨parts, hword⟩
        have hnone : sourceGrammar.Fails .spaced (.rule .tuplePattern) ('_' :: t) :=
          fails_rule_of_stops (c := '(') rfl rfl (stops_cons.2 rfl)
        exact Grammar.matches_alt.2 (.inl (Grammar.matches_alt.2 (.inr ⟨hnone, hword⟩)))
    · have hname := h.cut_rule fun _ hinner => cut_identifier hinner
      have hwildcard := keeps_wildcard ⟨parts, hname⟩ h.accepts (Grammar.fails_alt.1 hf).2
      have hstart : Stops (· == '(') s := by
        obtain ⟨w, hw, rfl, -⟩ := accepts_identifier.1 (Grammar.accepts_rule.1 ⟨parts, hname⟩)
        obtain ⟨c, v, rfl, hc⟩ := hw.start
        refine stops_cons.2 (beq_eq_false_iff_ne.2 ?_)
        rintro rfl
        cases hc
      have htuple : sourceGrammar.Fails .spaced (.rule .tuplePattern) s :=
        fails_rule_of_stops rfl rfl hstart
      exact Grammar.matches_alt.2 (.inr ⟨Grammar.fails_alt.2 ⟨htuple, hwildcard⟩, hname⟩)

end Patterns

/-! ## Bindings -/

/-- Behind a binding stands nothing that would go on with it, whatever is cut off. -/
structure EndsBinding (r y : List Char) : Prop extends EndsExpr r y where
  apart : Before (fun c => !(c == ':' || c == '=' || c == '\x7b')) y

/-- The accessors of a binding in their braces. -/
def accessorBlock : Peg Rule := .lit "\x7b" ++ .many (.rule .accessor) ++ .lit "\x7d"

section Bindings

variable {r : List Char} {s y z : List Char} {parts : List (Tree Rule)}

/-- A part that may be left out and starts with a sign of its own. -/
theorem Within.opt_signed {e : Peg Rule} {c : Char}
    (hfails : ∀ t, Stops (· == c) t → sourceGrammar.Fails .spaced e t)
    (h : Within r .spaced (.opt e) (after .spaced z) parts y)
    (hafter : after .spaced (z ++ r) = after .spaced z ++ r)
    (hcut : Within r .spaced e (after .spaced z) parts y →
      sourceGrammar.Matches .spaced e (after .spaced z) parts y) (hy : Before (· != c) y) :
    sourceGrammar.Matches .spaced (.opt e) (after .spaced z) parts y ∧
      (Before (· == c) z ∨ Leaves r .spaced z y) := by
  rcases h.opt with h | ⟨-, rfl, rfl⟩
  · have hmatch := hcut h
    refine ⟨Grammar.matches_opt.2 (.inl hmatch), .inl ?_⟩
    cases hz : after .spaced z with
    | nil =>
      rw [hz] at hmatch
      exact absurd (hfails _ (stops_nil _)) hmatch.not_fails
    | cons d t =>
      by_cases hd : d = c
      · exact before_of_after hz (beq_iff_eq.2 hd)
      · rw [hz] at hmatch
        exact absurd (hfails _ (stops_cons.2 (beq_eq_false_iff_ne.2 hd))) hmatch.not_fails
  · have hstops := (before_after.1 hy).stops_after_eq (d := c) (by simp)
    exact ⟨Grammar.matches_opt.2 (.inr ⟨hfails _ hstops, rfl, rfl⟩), .inr (.inr ⟨rfl, hafter⟩)⟩

theorem cut_declaredType (h : Within r .spaced (Rule.body .declaredType) s parts y)
    (hy : Keeps r .hidden dotName y) :
    sourceGrammar.Matches .spaced (Rule.body .declaredType) s parts y := by
  obtain ⟨ps, z, qs, hcolon, htype, -, rfl⟩ := Within.seq h
  exact Grammar.matches_seq.2 ⟨ps, z, qs, hcolon.lit, cut_typeExpr htype hy, rfl⟩

theorem cut_initialValue (h : Within r .spaced (Rule.body .initialValue) s parts y)
    (hy : EndsExpr r y) :
    sourceGrammar.Matches .spaced (Rule.body .initialValue) s parts y := by
  obtain ⟨ps, z, qs, hequals, hexpr, -, rfl⟩ := Within.seq h
  exact Grammar.matches_seq.2 ⟨ps, z, qs, hequals.lit, cut_expr hexpr hy, rfl⟩

section Step

variable {n : Nat} (ih : ∀ s parts y, s.length < n → after .spaced s = s →
  Within r .spaced Rule.statements s parts y → Before (· == '\x7d') y →
    sourceGrammar.Matches .spaced Rule.statements s parts y)

include ih

/-- Statements in braces behind something that can be cut. -/
theorem cut_braced {e : Peg Rule} {layout : Layout} (hlayout : layout = .spaced)
    (h : Within r layout (e ++ .lit "\x7b" ++ Rule.statements ++ .lit "\x7d") s parts y)
    (hs : s.length ≤ n)
    (hfront : ∀ ps t, Within r .spaced e s ps t → sourceGrammar.Matches .spaced e s ps t) :
    sourceGrammar.Matches layout (e ++ .lit "\x7b" ++ Rule.statements ++ .lit "\x7d") s parts y := by
  subst hlayout
  obtain ⟨_, z, qs, hbody, hclose, -, rfl⟩ := Within.seq h
  obtain ⟨_, x, qs', hopened, hstatements, -, rfl⟩ := Within.seq hbody
  obtain ⟨ps, t, qs'', hbefore, hopen, -, rfl⟩ := Within.seq hopened
  have hbrace : Before (· == '\x7d') z := before_of_after (Grammar.matches_lit.1 hclose.lit).1 rfl
  have hlength : (after .spaced x).length < n := by
    have hx : (after .spaced t).length = x.length + 1 :=
      congrArg List.length (Grammar.matches_lit.1 hopen.lit).1
    have hle := Nat.le_trans (length_after_le .spaced t) (Nat.le_trans hbefore.length_le hs)
    have hafter := length_after_le .spaced x
    omega
  have hstatements := ih _ _ _ hlength (after_after x) hstatements hbrace
  have hopened : sourceGrammar.Matches .spaced (e ++ .lit "\x7b") s _ x :=
    Grammar.matches_seq.2 ⟨ps, t, qs'', hfront _ _ hbefore, hopen.lit, rfl⟩
  exact Grammar.matches_seq.2 ⟨_, z, qs, Grammar.matches_seq.2 ⟨_, x, qs', hopened, hstatements, rfl⟩,
    hclose.lit, rfl⟩

theorem cut_accessor (h : Within r .spaced (.rule .accessor) s parts y) (hs : s.length ≤ n) :
    sourceGrammar.Matches .spaced (.rule .accessor) s parts y :=
  h.cut_rule fun _ hinner => cut_braced ih rfl hinner hs fun _ _ hkind => cut_word rfl rfl hkind

theorem cut_accessorBlock (h : Within r .spaced accessorBlock s parts y) (hs : s.length ≤ n) :
    sourceGrammar.Matches .spaced accessorBlock s parts y := by
  obtain ⟨_, z, qs, hfront, hclose, -, rfl⟩ := Within.seq h
  obtain ⟨ps, t, qs', hopen, hmany, -, rfl⟩ := Within.seq hfront
  have hbrace : Before (· == '\x7d') z := before_of_after (Grammar.matches_lit.1 hclose.lit).1 rfl
  have hnone : sourceGrammar.Fails .spaced (.rule .accessor) (after .spaced z) :=
    hbrace.fails_eq rfl rfl rfl
  have hle := Nat.le_trans (length_after_le .spaced t) (Nat.le_trans hopen.length_le hs)
  have hcuts : CutsTurns r .spaced (.rule .accessor) n fun _ => True :=
    ⟨fun _ _ _ hs _ h _ => cut_accessor ih h hs, fun _ _ _ _ _ _ _ _ => trivial⟩
  have hmany : sourceGrammar.Matches .spaced (.many (.rule .accessor)) (after .spaced t) qs' z := by
    refine hcuts.many hmany hle (after_after t) (fun _ hz => ?_) fun _ => ⟨trivial, hnone⟩
    rwa [hz, after_after] at hnone
  exact Grammar.matches_seq.2 ⟨_, z, qs, Grammar.matches_seq.2 ⟨ps, t, qs', hopen.lit, hmany, rfl⟩,
    hclose.lit, rfl⟩

theorem cut_patternBinding (h : Within r .spaced (.rule .patternBinding) s parts y) (hs : s.length ≤ n)
    (hy : EndsBinding r y) : sourceGrammar.Matches .spaced (.rule .patternBinding) s parts y := by
  refine h.cut_rule fun inner hinner => ?_
  obtain ⟨_, z₃, qs₃, hinit, hblock, hafter₃, rfl⟩ := Within.seq hinner
  obtain ⟨_, z₂, qs₂, htyped, hvalue, hafter₂, rfl⟩ := Within.seq hinit
  obtain ⟨ps, z₁, qs₁, hpattern, htype, hafter₁, rfl⟩ := Within.seq htyped
  -- The parts are taken from the last to the first: each stops where the next one, or what follows
  -- the binding, starts.
  have hle := Nat.le_trans (length_after_le .spaced z₃) (Nat.le_trans hinit.length_le hs)
  obtain ⟨hblock, hends₃⟩ := Within.opt_signed (c := '\x7b')
    (fun t => fails_of_stops rfl rfl) hblock hafter₃ (fun h => cut_accessorBlock ih h hle)
    (hy.apart.mono (by grind))
  have hexpr₃ : EndsExpr r z₃ := hends₃.elim (fun h => endsExpr_of_before (h.of_eq rfl))
    fun h => hy.toEndsExpr.of_leaves h
  have hapart₃ : Before (fun c => !(c == ':' || c == '=')) z₃ := hends₃.elim (fun h => h.of_eq rfl)
    fun h => (hy.apart.mono (by grind)).of_leaves h
  obtain ⟨hvalue, hends₂⟩ := Within.opt_signed (c := '=') (fun t => fails_rule_of_stops rfl rfl) hvalue
    hafter₂ (fun h => h.cut_rule fun _ hinner => cut_initialValue hinner hexpr₃)
    (hapart₃.mono (by grind))
  have hdot₂ : Keeps r .hidden dotName z₂ := hends₂.elim (fun h => keepsDot_of_before h rfl)
    fun h => (hexpr₃.of_leaves h).dot
  have hapart₂ : Before (· != ':') z₂ := hends₂.elim (fun h => h.of_eq rfl)
    fun h => (hapart₃.mono (by grind)).of_leaves h
  obtain ⟨htype, -⟩ := Within.opt_signed (c := ':') (fun t => fails_rule_of_stops rfl rfl) htype
    hafter₁ (fun h => h.cut_rule fun _ hinner => cut_declaredType hinner hdot₂) hapart₂
  have htyped := Grammar.matches_seq.2 ⟨ps, z₁, qs₁, cut_pattern hpattern, htype, rfl⟩
  exact Grammar.matches_seq.2 ⟨_, z₃, qs₃, Grammar.matches_seq.2 ⟨_, z₂, qs₂, htyped, hvalue, rfl⟩,
    hblock, rfl⟩

end Step

theorem endsBinding_of_comma (h : Before (· == ',') y) : EndsBinding r y where
  toEndsExpr := endsExpr_of_before (h.of_eq rfl)
  apart := h.of_eq rfl

end Bindings

/-! ## What stands in front of a declaration -/

section Leading

variable {r : List Char} {layout : Layout} {s y t : List Char} {parts : List (Tree Rule)}

theorem fails_modifier_word {k : String} (hk : k ∈ declarationWords) :
    sourceGrammar.Fails layout (.rule .modifier) (k.toList ++ t) := by
  have hapart : ∀ k ∈ declarationWords, ∀ m ∈ Rule.modifiers,
      ¬ m.toList <+: k.toList ∧ ¬ k.toList <+: m.toList := by decide
  refine Grammar.fails_rule.2 (Grammar.fails_seq.2 (.inl (fails_anyOf.2 fun m hm hprefix => ?_)))
  rcases List.prefix_or_prefix_of_prefix hprefix (List.prefix_append k.toList t) with h | h
  · exact (hapart k hk m hm).1 h
  · exact (hapart k hk m hm).2 h

theorem before_isNameStart {w : List Char} (h : after .spaced s = w ++ t)
    (hw : w.head?.any Rule.isNameStart = true) : Before Rule.isNameStart s := by
  cases w with
  | nil => cases hw
  | cons c w => exact before_of_after h hw

theorem cutsTurns_attributes (n : Nat) :
    CutsTurns r .spaced (.rule .attributeUse) n (Before fun c => c == '@' || Rule.isNameStart c) where
  turn _ _ _ _ _ h hy := cut_attributeUse h fun _ =>
    fails_rule_of_stops (c := '(') rfl rfl (hy.stops_eq ⟨rfl, rfl⟩)
  next _ parts _ _ _ _ h _ := by
    obtain ⟨t, ht⟩ := eq_cons_of_sign (c := '@') rfl rfl ⟨parts, h⟩
    exact before_of_after ht rfl

/-- Attributes and modifiers in front of the word of a declaration. -/
theorem cut_leading {k : String} (h : Within r .spaced leading s parts y) (hs : after .spaced s = s)
    (hk : k ∈ declarationWords) (hy : after .spaced y = k.toList ++ t) :
    sourceGrammar.Matches .spaced leading s parts y := by
  obtain ⟨ps, z, qs, hattributes, hmodifiers, -, rfl⟩ := Within.seq h
  have hnone : sourceGrammar.Fails .spaced (.rule .modifier) (after .spaced y) :=
    hy ▸ fails_modifier_word hk
  have hcuts : CutsTurns r .spaced (.rule .modifier) (after .spaced z).length fun _ => True :=
    ⟨fun _ _ _ _ _ h _ => cut_word rfl rfl h, fun _ _ _ _ _ _ _ _ => trivial⟩
  have hmodifiers : sourceGrammar.Matches .spaced (.many (.rule .modifier)) (after .spaced z) qs y := by
    refine hcuts.many hmodifiers (Nat.le_refl _) (after_after z) (fun _ hz => ?_)
      fun _ => ⟨trivial, hnone⟩
    rwa [hz, after_after] at hnone
  have hz : Before Rule.isNameStart z := by
    rcases Grammar.matches_many.1 hmodifiers with ⟨-, -, rfl⟩ | ⟨ps, _, _, hone, -, -⟩
    · rw [after_after] at hy
      exact before_isNameStart hy (isNameStart_of_mem_keywords k (keyword_of_declarationWord hk))
    · have hwords : ∀ m ∈ Rule.modifiers, m.toList.head?.any Rule.isNameStart = true := by decide
      obtain ⟨m, hm, hz, -⟩ := accepts_modifier.1 ⟨ps, hone⟩
      exact before_isNameStart hz (hwords m hm)
  have hattributes : sourceGrammar.Matches .spaced (.many (.rule .attributeUse)) s ps z := by
    refine (cutsTurns_attributes s.length).many hattributes (Nat.le_refl _) hs (fun _ hzs => ?_)
      fun _ => ⟨?_, ?_⟩
    · exact fails_rule_of_stops (c := '@') rfl rfl (hzs ▸ hz.stops_eq ⟨rfl, rfl⟩)
    · exact hz.mono (by simp +contextual)
    · exact fails_rule_of_stops (c := '@') rfl rfl (hz.stops_after_eq rfl)
  exact Grammar.matches_seq.2 ⟨ps, z, qs, hattributes, hmodifiers, rfl⟩

end Leading

/-! ## Declarations -/

section Declarations

variable {r : List Char} {s y : List Char} {parts : List (Tree Rule)} {n : Nat}
  (ih : ∀ s parts y, s.length < n → after .spaced s = s →
    Within r .spaced Rule.statements s parts y → Before (· == '\x7d') y →
      sourceGrammar.Matches .spaced Rule.statements s parts y)

include ih

theorem cutsTurns_bindings :
    CutsTurns r .spaced (.lit "," ++ .rule .patternBinding) n (EndsBinding r) where
  turn s parts y hs _ h hy := by
    obtain ⟨ps, z, qs, hcomma, hbinding, -, rfl⟩ := Within.seq h
    have hle := Nat.le_trans (length_after_le .spaced z) (Nat.le_trans hcomma.length_le hs)
    have hbinding := cut_patternBinding ih hbinding hle hy
    exact Grammar.matches_seq.2 ⟨ps, z, qs, hcomma.lit, hbinding, rfl⟩
  next s parts y _ _ _ h _ := by
    obtain ⟨u, hlit, -⟩ := Grammar.accepts_seq.1 ⟨parts, h⟩
    exact endsBinding_of_comma (before_of_after (Grammar.accepts_lit.1 hlit) rfl)

theorem cut_variableDecl (h : Within r .spaced (.rule .variableDecl) s parts y) (hs : s.length ≤ n)
    (hsettled : after .spaced s = s) (hy : EndsBinding r y) (hcomma : Before (· != ',') y) :
    sourceGrammar.Matches .spaced (.rule .variableDecl) s parts y := by
  refine h.cut_rule fun inner hinner => ?_
  obtain ⟨_, z, qs, hfront, hbindings, -, rfl⟩ := Within.seq hinner
  obtain ⟨ps, x, qs', hleading, hword, -, rfl⟩ := Within.seq hfront
  have hword := cut_word rfl rfl hword
  obtain ⟨_, hspelled, -⟩ := Grammar.accepts_seq.1 (Grammar.accepts_rule.1 ⟨qs', hword⟩)
  obtain ⟨k, hk, hx⟩ := mem_of_accepts_anyOf hspelled
  have hleading := cut_leading hleading hsettled (List.mem_of_mem_take (i := 2) hk) hx
  have hle := Nat.le_trans (length_after_le .spaced z) (Nat.le_trans hfront.length_le hs)
  have hbindings : sourceGrammar.Matches .spaced (Rule.commaSeparated (.rule .patternBinding))
      (after .spaced z) qs y := by
    refine (cutsTurns_bindings ih).chain hbindings hle
      (fun ps z h hz => cut_patternBinding ih h hle hz) ?_
    intro z hz _
    exact ⟨⟨hy.toEndsExpr.of_leaves hz, hy.apart.of_leaves hz⟩,
      fails_comma ((hcomma.of_leaves hz).stops_after_eq (by simp))⟩
  exact Grammar.matches_seq.2 ⟨_, z, qs, Grammar.matches_seq.2 ⟨ps, x, qs', hleading, hword, rfl⟩,
    hbindings, rfl⟩

omit ih in
/-- A function up to its body. -/
theorem cut_functionHead (h : Within r .spaced
      (leading ++ .lit "func" ++ .rule .identifier ++ .lit "(" ++ .lit ")") s parts y)
    (hsettled : after .spaced s = s) : sourceGrammar.Matches .spaced
      (leading ++ .lit "func" ++ .rule .identifier ++ .lit "(" ++ .lit ")") s parts y := by
  obtain ⟨_, z₄, qs₄, hopened, hclose, -, rfl⟩ := Within.seq h
  obtain ⟨_, z₃, qs₃, hnamed, hopen, -, rfl⟩ := Within.seq hopened
  obtain ⟨_, z₂, qs₂, hfunc, hname, -, rfl⟩ := Within.seq hnamed
  obtain ⟨ps, z₁, qs₁, hleading, hword, -, rfl⟩ := Within.seq hfunc
  have hleading := cut_leading (k := "func") hleading hsettled (by decide)
    (Grammar.matches_lit.1 hword.lit).1
  have hfunc := Grammar.matches_seq.2 ⟨ps, z₁, qs₁, hleading, hword.lit, rfl⟩
  have hnamed := Grammar.matches_seq.2 ⟨_, z₂, qs₂, hfunc, cut_identifier hname, rfl⟩
  have hopened := Grammar.matches_seq.2 ⟨_, z₃, qs₃, hnamed, hopen.lit, rfl⟩
  exact Grammar.matches_seq.2 ⟨_, z₄, qs₄, hopened, hclose.lit, rfl⟩

theorem cut_functionDecl (h : Within r .spaced (.rule .functionDecl) s parts y) (hs : s.length ≤ n)
    (hsettled : after .spaced s = s) : sourceGrammar.Matches .spaced (.rule .functionDecl) s parts y :=
  h.cut_rule fun _ hinner => cut_braced ih rfl hinner hs fun _ _ hhead =>
    cut_functionHead hhead hsettled

end Declarations

theorem cut_importDecl {r s y : List Char} {parts : List (Tree Rule)}
    (h : Within r .spaced (.rule .importDecl) s parts y) (hy : Keeps r .hidden dotName y) :
    sourceGrammar.Matches .spaced (.rule .importDecl) s parts y := by
  refine h.cut_rule fun inner hinner => ?_
  obtain ⟨ps, z, qs, hword, hname, -, rfl⟩ := Within.seq hinner
  exact Grammar.matches_seq.2 ⟨ps, z, qs, cut_word rfl rfl hword, cut_qualifiedName hname hy, rfl⟩

end SwiftMacro
