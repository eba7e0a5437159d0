import SwiftMacro.Proofs.Joining
import SwiftMacro.Proofs.RoundTrip
/-!
# The first words of a declaration

A declaration starts with attributes and modifiers, then a keyword. A word that is none of these starts
no declaration (`fails_declaration_word`). A modifier does only in front of another declaration
(`fails_declaration_modifier`), and that declaration then has it as one more modifier
(`reads_of_modifier`).
-/

namespace SwiftMacro

open Peg

/-- What may stand in front of a declaration. -/
def leading : Peg Rule := .many (.rule .attributeUse) ++ .many (.rule .modifier)

/-- What stands between the name of a function and its statements. -/
def signature : Peg Rule := .lit "(" ++ .lit ")" ++ .lit "\x7b"

/-- What stands in front of the statements of a function. -/
def functionHead : Peg Rule :=
  leading ++ .lit "func" ++ .rule .identifier ++ .lit "(" ++ .lit ")" ++ .lit "\x7b"

/-- The statements that are no expressions. -/
def declaration : Peg Rule := .rule .importDecl / .rule .variableDecl / .rule .functionDecl

/-! ## Words at the start -/

theorem accepts_modifier {layout : Layout} {s rest : List Char} :
    sourceGrammar.Accepts layout (.rule .modifier) s rest ↔
      ∃ m ∈ Rule.modifiers, s = m.toList ++ rest ∧ Stops Rule.isNameChar rest := by
  rw [Grammar.accepts_rule]
  exact accepts_wholeWord modifiers_apart

theorem isSolid_of_isNameChar {c : Char} (h : Rule.isNameChar c = true) : isSolid c = true := by
  have hstarts : Category.operand.starts c = true := by
    simp only [Rule.isNameChar, Char.isAlphanum, Bool.or_eq_true] at h
    simp only [Category.starts, isOperandStart, Rule.isNameStart, Bool.or_eq_true]
    rcases h with (h | h) | h
    · exact .inl (.inl (.inl h))
    · exact .inl (.inr h)
    · exact .inl (.inl (.inr h))
  exact isSolid_of_starts hstarts

theorem after_keyword {k : String} (hk : k ∈ Rule.keywords) {s : List Char} :
    after .spaced (k.toList ++ s) = k.toList ++ s := by
  obtain ⟨c, t, ht, hc⟩ := keyword_eq_cons hk
  rw [ht]
  exact after_solid (isSolid_of_isNameChar (isNameChar_of_isNameStart hc)) _

/-- Where neither an attribute nor a modifier stands, none is taken. -/
theorem eq_of_accepts_leading {s r : List Char} (hs : after .spaced s = s)
    (ha : sourceGrammar.Fails .spaced (.rule .attributeUse) s)
    (hm : sourceGrammar.Fails .spaced (.rule .modifier) s)
    (h : sourceGrammar.Accepts .spaced leading s r) : r = s := by
  obtain ⟨q, hq, hr⟩ := Grammar.accepts_seq.1 h
  have hqs : q = s := by
    rcases Grammar.accepts_many.1 hq with ⟨-, rfl⟩ | ⟨_, hone, -⟩
    · rfl
    · exact absurd ha hone.not_fails
  change sourceGrammar.Accepts .spaced _ (after .spaced q) r at hr
  rw [hqs, hs] at hr
  rcases Grammar.accepts_many.1 hr with ⟨-, rfl⟩ | ⟨_, hone, -⟩
  · rfl
  · exact absurd hm hone.not_fails

theorem signature_of_head {s r : List Char} (h : sourceGrammar.Accepts .spaced functionHead s r) :
    ∃ q p, sourceGrammar.Accepts .spaced (leading ++ .lit "func") s q ∧
      sourceGrammar.Accepts .spaced (.rule .identifier) (after .spaced q) p ∧
      sourceGrammar.Accepts .spaced signature (after .spaced p) r := by
  obtain ⟨r₃, h, hbrace⟩ := Grammar.accepts_seq.1 h
  obtain ⟨r₂, h, hclose⟩ := Grammar.accepts_seq.1 h
  obtain ⟨r₁, h, hopen⟩ := Grammar.accepts_seq.1 h
  obtain ⟨q, hfunc, hname⟩ := Grammar.accepts_seq.1 h
  exact ⟨q, r₁, hfunc, hname,
    Grammar.accepts_seq.2 ⟨r₃, Grammar.accepts_seq.2 ⟨r₂, hopen, hclose⟩, hbrace⟩⟩

theorem head_of_accepts {s r : List Char}
    (h : sourceGrammar.Accepts .spaced (.rule .functionDecl) s r) :
    ∃ t, sourceGrammar.Accepts .spaced functionHead s t := by
  have hbody : sourceGrammar.Accepts .spaced (Rule.body .functionDecl) s r := Grammar.accepts_rule.1 h
  obtain ⟨_, hbody, -⟩ := Grammar.accepts_seq.1 hbody
  obtain ⟨t, hhead, -⟩ := Grammar.accepts_seq.1 hbody
  exact ⟨t, hhead⟩

/-- The parts of a function up to its block. -/
theorem signature_of_accepts {s r : List Char}
    (h : sourceGrammar.Accepts .spaced (.rule .functionDecl) s r) :
    ∃ q p t, sourceGrammar.Accepts .spaced (leading ++ .lit "func") s q ∧
      sourceGrammar.Accepts .spaced (.rule .identifier) (after .spaced q) p ∧
      sourceGrammar.Accepts .spaced signature (after .spaced p) t := by
  obtain ⟨t, hhead⟩ := head_of_accepts h
  obtain ⟨q, p, hfunc, hname, hsignature⟩ := signature_of_head hhead
  exact ⟨q, p, t, hfunc, hname, hsignature⟩

/-- A text starts with a whole word, and with another one that has only characters of names: then that
one is shorter. -/
theorem exists_of_append_eq {k w s q : List Char} (hk : ∀ y ∈ k, Rule.isNameChar y = true)
    (hs : Stops Rule.isNameChar s) (hne : w ≠ k) (h : w ++ s = k ++ q) :
    ∃ d x, w = k ++ d :: x ∧ q = d :: x ++ s := by
  rcases List.append_eq_append_iff.1 h with ⟨x, hx, hxs⟩ | ⟨x, hx, hxq⟩
  · cases x with
    | nil => exact absurd (by rw [hx, List.append_nil]) hne
    | cons d x =>
      rw [hxs, List.cons_append, stops_cons, hk d (by rw [hx]; simp)] at hs
      cases hs
  · cases x with
    | nil => exact absurd (by rw [hx, List.append_nil]) hne
    | cons d x => exact ⟨d, x, hx, hxq⟩

section Word

variable {w s r : List Char} (hstart : w.head?.any Rule.isNameStart = true)
  (hchars : ∀ c ∈ w, Rule.isNameChar c = true)

include hstart hchars

theorem after_word (s : List Char) : after .spaced (w ++ s) = w ++ s := by
  cases w with
  | nil => cases hstart
  | cons c w => exact after_solid (isSolid_of_isNameChar (hchars c List.mem_cons_self)) _

variable (hs : Stops Rule.isNameChar s) (hmodifier : ∀ m ∈ Rule.modifiers, w ≠ m.toList)

include hs hmodifier

theorem eq_of_leading_word (h : sourceGrammar.Accepts .spaced leading (w ++ s) r) : r = w ++ s := by
  have hattribute : sourceGrammar.Fails .spaced (.rule .attributeUse) (w ++ s) := by
    cases w with
    | nil => cases hstart
    | cons c w =>
      refine fails_of_first _ (isSolid_of_isNameChar (hchars c List.mem_cons_self)) ?_ rfl rfl
      refine beq_eq_false_iff_ne.2 ?_
      rintro rfl
      cases hstart
  have hmodifiers : sourceGrammar.Fails .spaced (.rule .modifier) (w ++ s) :=
    Grammar.fails_rule.2 (fails_wholeWord hchars hs hmodifier (by decide) (by decide) rfl)
  exact eq_of_accepts_leading (after_word hstart hchars s) hattribute hmodifiers h

/-- A word that starts a function has the letters of `func` and then those of the name, so the signature
starts where the word ends. -/
theorem signature_of_word (hne : w ≠ "func".toList)
    (h : sourceGrammar.Accepts .spaced functionHead (w ++ s) r) :
    "func".toList <+: w ∧ sourceGrammar.Accepts .spaced signature (after .spaced s) r := by
  obtain ⟨q, p, hfunc, hname, hsignature⟩ := signature_of_head h
  obtain ⟨q', hleading, hword⟩ := Grammar.accepts_seq.1 hfunc
  change sourceGrammar.Accepts .spaced _ (after .spaced q') _ at hword
  rw [eq_of_leading_word hstart hchars hs hmodifier hleading, after_word hstart hchars] at hword
  have happend : w ++ s = "func".toList ++ q := Grammar.accepts_lit.1 hword
  obtain ⟨d, x, hx, hq⟩ := exists_of_append_eq (by decide) hs hne happend
  have hd : ∀ y ∈ d :: x, Rule.isNameChar y = true := fun y hy =>
    hchars y (by rw [hx]; exact List.mem_append_right _ hy)
  have hafter : after .spaced q = d :: x ++ s := by
    rw [hq]
    exact after_solid (isSolid_of_isNameChar (hd d List.mem_cons_self)) _
  rw [hafter] at hname
  obtain ⟨v, hv, hvs, hp⟩ := accepts_identifier.1 hname
  rw [(run_unique hd hv.chars hs hp hvs).2]
  exact ⟨⟨d :: x, hx.symm⟩, hsignature⟩

omit hstart hmodifier in
theorem fails_import_word (hkeyword : w ≠ "import".toList) :
    sourceGrammar.Fails .spaced (.rule .importDecl) (w ++ s) := by
  refine Grammar.fails_rule.2 (Grammar.fails_seq.2 (.inl (Grammar.fails_rule.2 ?_)))
  have himport : ∀ k ∈ ["import"], w ≠ k.toList := fun k hk => List.mem_singleton.1 hk ▸ hkeyword
  exact fails_wholeWord hchars hs himport (by decide) (by decide) rfl

theorem fails_variable_word (hkeyword : ∀ k ∈ ["var", "let"], w ≠ k.toList) :
    sourceGrammar.Fails .spaced (.rule .variableDecl) (w ++ s) := by
  refine fails_of_not_accepts (fun r hr => ?_) rfl
  have hbody : sourceGrammar.Accepts .spaced (Rule.body .variableDecl) _ r := Grammar.accepts_rule.1 hr
  obtain ⟨_, hbody, -⟩ := Grammar.accepts_seq.1 hbody
  obtain ⟨q, hq, hword⟩ := Grammar.accepts_seq.1 hbody
  change sourceGrammar.Accepts .spaced _ (after .spaced q) _ at hword
  rw [eq_of_leading_word hstart hchars hs hmodifier hq, after_word hstart hchars] at hword
  exact hword.not_fails (Grammar.fails_rule.2
    (fails_wholeWord hchars hs hkeyword (by decide) (by decide) rfl))

/-- A word that no declaration starts with. A name may start with the letters of `func`; then it would
be a function only if a signature followed. -/
theorem fails_declaration_word (hkeyword : ∀ k ∈ ["import", "var", "let", "func"], w ≠ k.toList)
    (hsignature : "func".toList <+: w → sourceGrammar.Fails .spaced signature (after .spaced s)) :
    sourceGrammar.Fails .spaced declaration (w ++ s) := by
  have himport := fails_import_word hchars hs (hkeyword "import" (by decide))
  have hwords : ∀ k ∈ ["var", "let"], k ∈ ["import", "var", "let", "func"] := by decide
  have hvariable :=
    fails_variable_word hstart hchars hs hmodifier fun k hk => hkeyword k (hwords k hk)
  have hfunction : sourceGrammar.Fails .spaced (.rule .functionDecl) (w ++ s) := by
    refine fails_of_not_accepts (fun r hr => ?_) rfl
    obtain ⟨t, hhead⟩ := head_of_accepts hr
    obtain ⟨hfunc, hsig⟩ :=
      signature_of_word hstart hchars hs hmodifier (hkeyword "func" (by decide)) hhead
    exact hsig.not_fails (hsignature hfunc)
  exact Grammar.fails_alt.2 ⟨Grammar.fails_alt.2 ⟨himport, hvariable⟩, hfunction⟩

end Word

/-- No declaration starts with a cast. -/
theorem fails_declaration_as {s : List Char} (hs : Stops Rule.isNameChar s) :
    sourceGrammar.Fails .spaced declaration (['a', 's'] ++ s) :=
  fails_declaration_word rfl (by decide) hs (by decide) (by decide) fun h => absurd h (by decide)

/-! ## A modifier in front of a declaration -/

theorem fails_attribute_modifier {m : String} (hm : m ∈ Rule.modifiers) (s : List Char) :
    sourceGrammar.Fails .spaced (.rule .attributeUse) (m.toList ++ s) := by
  obtain ⟨c, t, ht, hc⟩ := modifier_eq_cons hm
  rw [ht]
  refine fails_of_first _ (isSolid_of_isNameChar (isNameChar_of_isNameStart hc)) ?_ rfl rfl
  refine beq_eq_false_iff_ne.2 ?_
  rintro rfl
  cases hc

theorem after_modifier {m : String} (hm : m ∈ Rule.modifiers) (s : List Char) :
    after .spaced (m.toList ++ s) = m.toList ++ s := by
  obtain ⟨c, t, ht, hc⟩ := modifier_eq_cons hm
  rw [ht]
  exact after_solid (isSolid_of_isNameChar (isNameChar_of_isNameStart hc)) _

theorem accepts_seq_mono {a b : Peg Rule} {s s' : List Char}
    (h : ∀ q, sourceGrammar.Accepts .spaced a s q → sourceGrammar.Accepts .spaced a s' q) {r : List Char}
    (hr : sourceGrammar.Accepts .spaced (a ++ b) s r) : sourceGrammar.Accepts .spaced (a ++ b) s' r := by
  obtain ⟨q, hq, hb⟩ := Grammar.accepts_seq.1 hr
  exact Grammar.accepts_seq.2 ⟨q, h q hq, hb⟩

/-- The expression reads the same at another place, with one more item in front. -/
def Shifts (e : Peg Rule) (s s' : List Char) (i : Item) : Prop :=
  ∀ items r, Reads .spaced e s items r → nodesOf [.attributeUse] items = [] →
    Reads .spaced e s' (i :: items) r

theorem Shifts.seq {a : Peg Rule} {s s' : List Char} {i : Item} (h : Shifts a s s' i) (b : Peg Rule) :
    Shifts (a ++ b) s s' i := by
  intro items r hread hbare
  obtain ⟨front, q, back, hfront, hback, rfl⟩ := reads_seq.1 hread
  rw [nodesOf, List.filterMap_append, List.append_eq_nil_iff] at hbare
  exact reads_seq.2 ⟨i :: front, q, back, h front q hfront hbare.1, hback, rfl⟩

theorem wordsOf_cons_wordItem (r r' : Rule) (w : List Char) (items : List Item) :
    wordsOf r (wordItem r' w :: items) =
      if r' = r then String.ofList w :: wordsOf r items else wordsOf r items := by
  by_cases h : r' = r <;> simp [wordsOf, wordItem, Item.wordOf?, h]

theorem nodesOf_cons_wordItem (rules : List Rule) (r : Rule) (w : List Char) (items : List Item) :
    nodesOf rules (wordItem r w :: items) = nodesOf rules items := rfl

/-- An attribute leaves a node. -/
theorem nodesOf_attribute_ne_nil {s r : List Char} {items : List Item}
    (h : Reads .spaced (.rule .attributeUse) s items r) : nodesOf [.attributeUse] items ≠ [] := by
  obtain ⟨text, inner, part, -, -, hbuild, rfl⟩ :=
    (reads_rule (by exact Layout.noConfusion)).1 h
  simp only [Rule.build] at hbuild
  split at hbuild
  · obtain rfl := Except.ok.inj hbuild
    simp [nodesOf, Item.nodeOf?]
  · cases hbuild

theorem eq_cons_of_accepts_attribute {s r : List Char}
    (h : sourceGrammar.Accepts .spaced (.rule .attributeUse) s r) : ∃ t, s = '@' :: t := by
  have hbody : sourceGrammar.Accepts .joined (Rule.use "@") s r := Grammar.accepts_rule.1 h
  obtain ⟨_, hbody, -⟩ := Grammar.accepts_seq.1 hbody
  obtain ⟨_, hbody, -⟩ := Grammar.accepts_seq.1 hbody
  obtain ⟨t, hsign, -⟩ := Grammar.accepts_seq.1 hbody
  exact ⟨t, Grammar.accepts_lit.1 hsign⟩

/-- No declaration without attributes starts there. -/
def NoBareDeclaration (s : List Char) : Prop :=
  sourceGrammar.Fails .spaced (.rule .variableDecl / .rule .functionDecl) s ∨
    ∃ r, sourceGrammar.Accepts .spaced (.rule .attributeUse) s r

section Modifier

variable {m : String} (hm : m ∈ Rule.modifiers) {x : Peg Rule} {s r : List Char}
  (hs : Stops Rule.isNameChar s)

include hm hs

/-- Behind a modifier, only modifiers can follow. -/
theorem accepts_more_of_leading (h : sourceGrammar.Accepts .spaced leading (m.toList ++ s) r) :
    sourceGrammar.Accepts .spaced (.more (.rule .modifier)) s r := by
  obtain ⟨q, hq, hr⟩ := Grammar.accepts_seq.1 h
  have hqs : q = m.toList ++ s := by
    rcases Grammar.accepts_many.1 hq with ⟨-, rfl⟩ | ⟨_, hone, -⟩
    · rfl
    · exact absurd (fails_attribute_modifier hm s) hone.not_fails
  have hword : sourceGrammar.Accepts .spaced (.rule .modifier) (m.toList ++ s) s :=
    accepts_modifier.2 ⟨m, hm, rfl, hs⟩
  change sourceGrammar.Accepts .spaced _ (after .spaced q) r at hr
  rw [hqs, after_modifier hm] at hr
  rcases Grammar.accepts_many.1 hr with ⟨hf, -⟩ | ⟨t, hone, hmore⟩
  · exact absurd hf hword.not_fails
  · rwa [hone.unique hword] at hmore

/-- What is read behind a modifier starts a declaration of its own, one without attributes. -/
theorem accepts_of_modifier (hx : ∀ t, sourceGrammar.Fails .spaced x ('@' :: t))
    (h : sourceGrammar.Accepts .spaced (leading ++ x) (m.toList ++ s) r) :
    sourceGrammar.Accepts .spaced (leading ++ x) (after .spaced s) r ∧
      sourceGrammar.Fails .spaced (.rule .attributeUse) (after .spaced s) := by
  obtain ⟨q, hq, hr⟩ := Grammar.accepts_seq.1 h
  have hmore := accepts_more_of_leading hm hs hq
  have hattribute : sourceGrammar.Fails .spaced (.rule .attributeUse) (after .spaced s) := by
    -- No modifier stands in front of an attribute, nor anything else that could follow here.
    refine fails_of_not_accepts (fun t ht => ?_) rfl
    obtain ⟨u, hat⟩ := eq_cons_of_accepts_attribute ht
    rcases Grammar.accepts_more.1 hmore with ⟨-, rfl⟩ | ⟨_, hone, -⟩
    · change sourceGrammar.Accepts .spaced x (after .spaced q) r at hr
      rw [hat] at hr
      exact hr.not_fails (hx u)
    · change sourceGrammar.Accepts .spaced _ (after .spaced s) _ at hone
      rw [hat] at hone
      exact hone.not_fails (fails_of_first u rfl rfl rfl rfl)
  refine ⟨?_, hattribute⟩
  have hnone : sourceGrammar.Accepts .spaced (.many (.rule .attributeUse)) (after .spaced s)
      (after .spaced s) := Grammar.accepts_many.2 (.inl ⟨hattribute, rfl⟩)
  have hafter : after .spaced (after .spaced s) = after .spaced s := after_after s
  rcases Grammar.accepts_more.1 hmore with ⟨hf, rfl⟩ | ⟨t, hone, hmore⟩
  · have hmany : sourceGrammar.Accepts .spaced (.many (.rule .modifier))
        (after .spaced (after .spaced q)) (after .spaced q) := by
      rw [hafter]
      exact Grammar.accepts_many.2 (.inl ⟨hf, rfl⟩)
    refine Grammar.accepts_seq.2 ⟨_, Grammar.accepts_seq.2 ⟨_, hnone, hmany⟩, ?_⟩
    change sourceGrammar.Accepts .spaced x (after .spaced (after .spaced q)) r
    rw [hafter]
    exact hr
  · have hmany : sourceGrammar.Accepts .spaced (.many (.rule .modifier))
        (after .spaced (after .spaced s)) q := by
      rw [hafter]
      exact Grammar.accepts_many.2 (.inr ⟨t, hone, hmore⟩)
    exact Grammar.accepts_seq.2 ⟨q, Grammar.accepts_seq.2 ⟨_, hnone, hmany⟩, hr⟩

theorem fails_import_modifier : sourceGrammar.Fails .spaced (.rule .importDecl) (m.toList ++ s) := by
  refine Grammar.fails_rule.2 (Grammar.fails_seq.2 (.inl (Grammar.fails_rule.2 ?_)))
  have hchars : ∀ m ∈ Rule.modifiers, ∀ c ∈ m.toList, Rule.isNameChar c = true := by decide
  have hne : ∀ m ∈ Rule.modifiers, ∀ v ∈ ["import"], m.toList ≠ v.toList := by decide
  exact fails_wholeWord (hchars m hm) hs (hne m hm) (by decide) (by decide) rfl

/-- No variable starts with a modifier unless one without attributes starts behind it. -/
theorem fails_variable_modifier (hnext : sourceGrammar.Fails .spaced (.rule .variableDecl) (after .spaced s) ∨
      ∃ r, sourceGrammar.Accepts .spaced (.rule .attributeUse) (after .spaced s) r) :
    sourceGrammar.Fails .spaced (.rule .variableDecl) (m.toList ++ s) := by
  refine fails_of_not_accepts (fun r hr => ?_) rfl
  have hbody : sourceGrammar.Accepts .spaced (Rule.body .variableDecl) _ r := Grammar.accepts_rule.1 hr
  have hshift := fun q => accepts_of_modifier (x := .rule .bindingKeyword) (r := q) hm hs fun t =>
    fails_of_first t rfl rfl rfl rfl
  rcases hnext with hvariable | ⟨t, hattribute⟩
  · have hall : sourceGrammar.Accepts .spaced (Rule.body .variableDecl) (after .spaced s) r :=
      accepts_seq_mono (fun q hq => (hshift q hq).1) hbody
    exact Grammar.Accepts.not_fails (Grammar.accepts_rule.2 hall) hvariable
  · obtain ⟨q, hq, -⟩ := Grammar.accepts_seq.1 hbody
    exact hattribute.not_fails (hshift q hq).2

/-- No function does, either. -/
theorem fails_function_modifier (hnext : sourceGrammar.Fails .spaced (.rule .functionDecl) (after .spaced s) ∨
      ∃ r, sourceGrammar.Accepts .spaced (.rule .attributeUse) (after .spaced s) r) :
    sourceGrammar.Fails .spaced (.rule .functionDecl) (m.toList ++ s) := by
  refine fails_of_not_accepts (fun r hr => ?_) rfl
  have hshift := fun q => accepts_of_modifier (x := .lit "func") (r := q) hm hs fun t =>
    fails_of_first t rfl rfl rfl rfl
  rcases hnext with hfunction | ⟨t, hattribute⟩
  · have hbody : sourceGrammar.Accepts .spaced (Rule.body .functionDecl) _ r := Grammar.accepts_rule.1 hr
    have hall : sourceGrammar.Accepts .spaced (Rule.body .functionDecl) (after .spaced s) r :=
      accepts_seq_mono (fun _ => accepts_seq_mono fun _ => accepts_seq_mono fun _ =>
        accepts_seq_mono fun _ => accepts_seq_mono fun _ => accepts_seq_mono fun q hq =>
          (hshift q hq).1) hbody
    exact Grammar.Accepts.not_fails (Grammar.accepts_rule.2 hall) hfunction
  · obtain ⟨q, _, _, hq, -, -⟩ := signature_of_accepts hr
    exact hattribute.not_fails (hshift q hq).2

theorem fails_declaration_modifier (hnext : NoBareDeclaration (after .spaced s)) :
    sourceGrammar.Fails .spaced declaration (m.toList ++ s) :=
  Grammar.fails_alt.2 ⟨Grammar.fails_alt.2 ⟨fails_import_modifier hm hs,
    fails_variable_modifier hm hs (hnext.imp_left fun h => (Grammar.fails_alt.1 h).1)⟩,
    fails_function_modifier hm hs (hnext.imp_left fun h => (Grammar.fails_alt.1 h).2)⟩

/-- A declaration without attributes has the modifier in front of it. -/
theorem shifts_modifier :
    Shifts (leading ++ x) (after .spaced s) (m.toList ++ s) (wordItem .modifier m.toList) := by
  intro items r hread hbare
  obtain ⟨front, q, back, hleading, hx, rfl⟩ := reads_seq.1 hread
  obtain ⟨marks, p, words, hmarks, hwords, rfl⟩ := reads_seq.1 hleading
  obtain ⟨rfl, rfl⟩ : marks = [] ∧ p = after .spaced s := by
    rcases reads_many.1 hmarks with ⟨-, rfl, rfl⟩ | ⟨front, _, _, hone, -, rfl⟩
    · exact ⟨rfl, rfl⟩
    · refine absurd ?_ (nodesOf_attribute_ne_nil hone)
      simp only [nodesOf, List.filterMap_append, List.append_eq_nil_iff] at hbare ⊢
      exact hbare.1.1.1
  rw [after_after] at hwords
  obtain ⟨q', hmore, hq'⟩ := hwords.past.more_of_many
  have hone : Reads .spaced (.rule .modifier) (m.toList ++ s) [wordItem .modifier m.toList] s :=
    (reads_spelled rfl (fun _ => rfl) (by decide)).2
      ⟨_, rfl, (accepts_wholeWord modifiers_apart).2 ⟨m, hm, rfl, hs⟩, rfl⟩
  have hnone : Reads .spaced (.many (.rule .attributeUse)) (m.toList ++ s) [] (m.toList ++ s) :=
    reads_many.2 (.inl ⟨fails_attribute_modifier hm s, rfl, rfl⟩)
  have hmany : Reads .spaced (.many (.rule .modifier)) (after .spaced (m.toList ++ s))
      (wordItem .modifier m.toList :: words) q' := by
    rw [after_modifier hm]
    exact reads_many.2 (.inr ⟨_, s, words, hone, hmore, rfl⟩)
  rw [← hq'] at hx
  exact reads_seq.2 ⟨_, q', back, reads_seq.2 ⟨_, _, _, hnone, hmany, rfl⟩, hx, rfl⟩

/-- A declaration without attributes, read behind a modifier, has it in front. -/
theorem reads_of_modifier {t : Node} {d : Rule} (hd : d = .variableDecl ∨ d = .functionDecl)
    (hbare : t.isBareDeclaration = true)
    (h : Reads .spaced (.rule d) (after .spaced s) [⟨d, default, .node t⟩] r) :
    Reads .spaced (.rule d) (m.toList ++ s) [⟨d, default, .node (t.withModifier m)⟩] r := by
  obtain ⟨text, inner, part, -, hbody, hbuild, heq⟩ :=
    (reads_rule (by rcases hd with rfl | rfl <;> exact Layout.noConfusion)).1 h
  simp only [List.cons.injEq, Item.mk.injEq, true_and, and_true] at heq
  subst heq
  have hshift : ∀ y, Shifts (leading ++ y) (after .spaced s) (m.toList ++ s)
      (wordItem .modifier m.toList) := fun _ => shifts_modifier hm hs
  rcases hd with rfl | rfl
  · simp only [Rule.build] at hbuild
    split at hbuild
    · next word words hwords =>
      obtain rfl := Part.node.inj (Except.ok.inj hbuild)
      have hattributes : nodesOf [.attributeUse] inner = [] :=
        Node.attributes_of_isBareDeclaration hbare
      refine Reads.rule (by exact Layout.noConfusion)
        ((hshift _).seq _ inner r hbody hattributes) fun _ => ?_
      simp [Rule.build, wordsOf_cons_wordItem, nodesOf_cons_wordItem, hwords, Node.withModifier]
    · cases hbuild
  · simp only [Rule.build] at hbuild
    split at hbuild
    · next name names hnames =>
      obtain rfl := Part.node.inj (Except.ok.inj hbuild)
      have hattributes : nodesOf [.attributeUse] inner = [] :=
        Node.attributes_of_isBareDeclaration hbare
      refine Reads.rule (by exact Layout.noConfusion)
        (((((((hshift _).seq _).seq _).seq _).seq _).seq _).seq _ inner r hbody hattributes) fun _ => ?_
      simp [Rule.build, wordsOf_cons_wordItem, nodesOf_cons_wordItem, hnames, Node.withModifier]
    · cases hbuild

end Modifier

/-! ## Declarations with attributes -/

/-- The expression reads no attributes at that place. -/
def Unmarked (e : Peg Rule) (s : List Char) : Prop :=
  ∀ items r, Reads .spaced e s items r → nodesOf [.attributeUse] items = []

theorem nodesOf_eq_nil {e : Peg Rule} {s r : List Char} {items : List Item} {rules : List Rule}
    (h : Reads .spaced e s items r) (hrules : ∀ rule ∈ e.rules, rule ∉ rules) :
    nodesOf rules items = [] := by
  refine List.filterMap_eq_nil_iff.2 fun i hi => ?_
  have hrule := hrules _ (h.rule_mem (by decide) i hi)
  unfold Item.nodeOf?
  split
  · exact if_neg hrule
  · rfl

theorem Unmarked.seq {a b : Peg Rule} {s : List Char} (h : Unmarked a s)
    (hb : ∀ rule ∈ b.rules, rule ∉ [Rule.attributeUse]) : Unmarked (a ++ b) s := by
  intro items r hread
  obtain ⟨front, q, back, hfront, hback, rfl⟩ := reads_seq.1 hread
  rw [nodesOf, List.filterMap_append, List.append_eq_nil_iff]
  exact ⟨h front q hfront, nodesOf_eq_nil hback hb⟩

theorem unmarked_leading {s : List Char} (h : sourceGrammar.Fails .spaced (.rule .attributeUse) s) :
    Unmarked leading s := by
  have hmarks : Unmarked (.many (.rule .attributeUse)) s := by
    intro items r hread
    rcases reads_many.1 hread with ⟨-, rfl, -⟩ | ⟨_, _, _, hone, -, -⟩
    · rfl
    · exact absurd h hone.accepts.not_fails
  exact hmarks.seq (by decide)

/-- A declaration with attributes starts with one. -/
theorem accepts_attribute_of_reads {s r : List Char} {t : Node} {d : Rule}
    (hd : d = .variableDecl ∨ d = .functionDecl)
    (h : Reads .spaced (.rule d) s [⟨d, default, .node t⟩] r) (hbare : t.isBareDeclaration = false) :
    ∃ r, sourceGrammar.Accepts .spaced (.rule .attributeUse) s r := by
  rcases accepts_or_fails .spaced (.rule .attributeUse) s rfl with haccepts | hfails
  · exact haccepts
  have hleading := unmarked_leading hfails
  obtain ⟨text, inner, part, -, hbody, hbuild, heq⟩ :=
    (reads_plain (by rcases hd with rfl | rfl <;> rfl) (by decide)).1 h
  simp only [List.cons.injEq, Item.mk.injEq, true_and, and_true] at heq
  subst heq
  rcases hd with rfl | rfl
  · have hunmarked : Unmarked (Rule.body .variableDecl) s :=
      (hleading.seq (by decide)).seq (by decide)
    rw [Rule.build, hunmarked inner r hbody] at hbuild
    split at hbuild
    · obtain rfl := Part.node.inj (Except.ok.inj hbuild)
      cases hbare
    · cases hbuild
  · have hunmarked : Unmarked (Rule.body .functionDecl) s :=
      ((((((hleading.seq (by decide)).seq (by decide)).seq (by decide)).seq (by decide)).seq
        (by decide)).seq (by decide)).seq (by decide)
    rw [Rule.build, hunmarked inner r hbody] at hbuild
    split at hbuild
    · obtain rfl := Part.node.inj (Except.ok.inj hbuild)
      cases hbare
    · cases hbuild

end SwiftMacro
