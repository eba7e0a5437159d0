import SwiftMacro.Proofs.Skipping
/-!
# Literals

Numbers and truth values are words. The text of a string literal is what its characters are escaped
to: `unescape_flatMap_escape` says that resolving the escapes gives the characters back, and
`reads_stringText` that the reader takes exactly this text, up to the quote or the interpolation
behind it.
-/

namespace SwiftMacro

open Peg

/-! ## Escaping and resolving escapes -/

namespace Text

theorem toNat_lt_of_isControl {c : Char} (h : isControl c = true) : c.toNat < 160 := by
  simp only [isControl, Bool.or_eq_true, Bool.and_eq_true, decide_eq_true_eq] at h
  omega

/-- The digits of a control character stand for it, and are few. -/
theorem hexDigits_control : ∀ n < 160, scalar? (hexDigits n) = some (Char.ofNat n) ∧
    hexDigits n ≠ [] ∧ (hexDigits n).length ≤ 8 ∧ ∀ d ∈ hexDigits n, Rule.isHexDigit d = true := by
  decide +kernel

theorem ne_brace_of_isHexDigit {d : Char} (h : Rule.isHexDigit d = true) : (d != '}') = true := by
  rcases Decidable.em (d = '}') with rfl | hd
  · cases h
  · simpa using hd

/-- The words behind a backslash. -/
def simpleEscapes : List String := ["\"", "\\", "n", "t", "r", "0", "'"]

/-- The ways in which a character is written: itself, behind a backslash, or by its number. -/
theorem escape_cases (c : Char) :
    (escape c = [c] ∧ c ≠ '"' ∧ c ≠ '\\' ∧ c ≠ '\n') ∨
    (∃ d, escape c = ['\\', d] ∧ simpleEscape? d = some c ∧
      String.singleton d ∈ simpleEscapes) ∨
    (escape c = '\\' :: 'u' :: '{' :: (hexDigits c.toNat ++ ['}']) ∧ c.toNat < 160) := by
  unfold escape
  split
  · next h => subst h; exact .inr (.inl ⟨'"', rfl, rfl, by decide⟩)
  split
  · next h => subst h; exact .inr (.inl ⟨'\\', rfl, rfl, by decide⟩)
  split
  · next h => subst h; exact .inr (.inl ⟨'n', rfl, rfl, by decide⟩)
  split
  · next h => subst h; exact .inr (.inl ⟨'t', rfl, rfl, by decide⟩)
  split
  · next h => subst h; exact .inr (.inl ⟨'r', rfl, rfl, by decide⟩)
  split
  · next h => subst h; exact .inr (.inl ⟨'0', rfl, rfl, by decide⟩)
  split
  · next h => exact .inr (.inr ⟨by simp, toNat_lt_of_isControl h⟩)
  · exact .inl ⟨rfl, by assumption, by assumption, by assumption⟩

theorem unescape_scalar (digits s : List Char) (h : ∀ d ∈ digits, (d != '}') = true) :
    unescape ('\\' :: 'u' :: '{' :: (digits ++ '}' :: s)) =
      match scalar? digits with
      | none => none
      | some c => (unescape s).map (c :: ·) := by
  have ht : (digits ++ '}' :: s).takeWhile (· != '}') = digits := by
    rw [List.takeWhile_append_of_pos h]
    simp
  have hd : (digits ++ '}' :: s).dropWhile (· != '}') = '}' :: s := by
    rw [List.dropWhile_append_of_pos h]
    simp
  rw [unescape, ht, hd]
  rfl

theorem unescape_simple {d c : Char} (h : simpleEscape? d = some c) (s : List Char) :
    unescape ('\\' :: d :: s) = (unescape s).map (c :: ·) := by
  rw [unescape]
  · rw [h]
  · rintro rest rfl -
    cases h

theorem unescape_plain {c : Char} (h : c ≠ '\\') (s : List Char) :
    unescape (c :: s) = (unescape s).map (c :: ·) := by
  rw [unescape]
  · rw [if_neg h]
  · intro rest hc
    exact absurd hc h
  · intro d rest hc
    exact absurd hc h

/-- An escaped character is resolved to the character. -/
theorem unescape_escape_append (c : Char) (s : List Char) :
    unescape (escape c ++ s) = (unescape s).map (c :: ·) := by
  rcases escape_cases c with ⟨h, -, hb, -⟩ | ⟨d, h, hd, -⟩ | ⟨h, hc⟩
  · rw [h]
    exact unescape_plain hb s
  · rw [h]
    exact unescape_simple hd s
  · obtain ⟨hs, -, -, hall⟩ := hexDigits_control c.toNat hc
    rw [h, List.cons_append, List.cons_append, List.cons_append, List.append_assoc]
    rw [List.singleton_append,
      unescape_scalar _ s fun d hd => ne_brace_of_isHexDigit (hall d hd), hs, Char.ofNat_toNat]

/-- Resolving the escapes of an escaped text gives the text. -/
theorem unescape_flatMap_escape (s : List Char) : unescape (s.flatMap escape) = some s := by
  induction s with
  | nil => rw [List.flatMap_nil, unescape_nil]
  | cons c s ih => rw [List.flatMap_cons, unescape_escape_append, ih]; rfl

theorem eq_nil_of_unescape {s : List Char} (h : unescape s = some []) : s = [] := by
  unfold unescape at h
  split at h
  · rfl
  · split at h
    · cases h
    · simp at h
  · split at h
    · cases h
    · simp at h
  · split at h
    · cases h
    · simp at h

end Text

/-! ## Numbers and truth values -/

/-- At least one digit. -/
def IsDigits (w : List Char) : Prop := w ≠ [] ∧ ∀ c ∈ w, c.isDigit = true

section Numbers

variable {s rest : List Char}

/-- The beginning of a fraction. -/
def fraction : Peg Rule := .lit "." ++ .one Char.isDigit

theorem accepts_integer : sourceGrammar.Accepts .hidden (Rule.body .integerLiteral) s rest ↔
    ∃ w, IsDigits w ∧ s = w ++ rest ∧ Stops Char.isDigit rest ∧
      sourceGrammar.Fails .hidden fraction rest := by
  change sourceGrammar.Accepts .hidden (plus (.one Char.isDigit) ++ .not fraction) s rest ↔ _
  rw [Grammar.accepts_seq]
  constructor
  · rintro ⟨r, hr, hnot⟩
    obtain ⟨w, hne, rfl, hw, hstop⟩ := accepts_plus_one.1 hr
    obtain ⟨hf, rfl⟩ := Grammar.accepts_not.1 hnot
    exact ⟨w, ⟨hne, hw⟩, rfl, hstop, hf⟩
  · rintro ⟨w, ⟨hne, hw⟩, rfl, hstop, hf⟩
    exact ⟨rest, accepts_plus_one.2 ⟨w, hne, rfl, hw, hstop⟩, Grammar.accepts_not.2 ⟨hf, rfl⟩⟩

theorem accepts_float : sourceGrammar.Accepts .hidden (Rule.body .floatLiteral) s rest ↔
    ∃ w v, IsDigits w ∧ IsDigits v ∧ s = w ++ '.' :: v ++ rest ∧ Stops Char.isDigit rest := by
  change sourceGrammar.Accepts .hidden
    (plus (.one Char.isDigit) ++ .lit "." ++ plus (.one Char.isDigit)) s rest ↔ _
  rw [Grammar.accepts_seq]
  constructor
  · rintro ⟨r, hr, hplus⟩
    obtain ⟨q, hq, hdot⟩ := Grammar.accepts_seq.1 hr
    obtain ⟨w, hne, rfl, hw, -⟩ := accepts_plus_one.1 hq
    have hq' : q = '.' :: r := Grammar.accepts_lit.1 hdot
    obtain ⟨v, hne', hv', hv, hstop⟩ := accepts_plus_one.1 hplus
    have hr' : r = v ++ rest := hv'
    exact ⟨w, v, ⟨hne, hw⟩, ⟨hne', hv⟩, by simp [hq', hr'], hstop⟩
  · rintro ⟨w, v, ⟨hne, hw⟩, ⟨hne', hv⟩, rfl, hstop⟩
    refine ⟨v ++ rest, Grammar.accepts_seq.2 ⟨'.' :: v ++ rest, ?_, Grammar.accepts_lit.2 rfl⟩,
      accepts_plus_one.2 ⟨v, hne', rfl, hv, hstop⟩⟩
    exact accepts_plus_one.2 ⟨w, hne, by simp, hw, stops_cons.2 rfl⟩

/-- Digits without a fraction are no `floatLiteral`. -/
theorem fails_float {layout : Layout} {w : List Char} (hw : IsDigits w)
    (hstop : Stops Char.isDigit rest) (hf : sourceGrammar.Fails .hidden fraction rest) :
    sourceGrammar.Fails layout (.rule .floatLiteral) (w ++ rest) := by
  refine Grammar.fails_rule.2 ?_
  change sourceGrammar.Fails .hidden (Rule.body .floatLiteral) (w ++ rest)
  refine fails_of_not_accepts (fun r hr => ?_) rfl
  obtain ⟨w', v, hw', hv, heq, -⟩ := accepts_float.1 hr
  rw [List.append_assoc] at heq
  obtain ⟨-, rfl⟩ := run_unique hw.2 hw'.2 hstop (stops_cons.2 rfl) heq
  cases v with
  | nil => exact hv.1 rfl
  | cons d v =>
    refine Grammar.Accepts.not_fails (Grammar.accepts_seq.2 ⟨d :: v ++ r, Grammar.accepts_lit.2 rfl,
      Grammar.accepts_one.2 ⟨d, rfl, hv.2 d List.mem_cons_self⟩⟩) hf

theorem accepts_boolean : sourceGrammar.Accepts .hidden (Rule.body .booleanLiteral) s rest ↔
    ∃ w ∈ ["true", "false"], s = w.toList ++ rest ∧ Stops Rule.isNameChar rest :=
  accepts_wholeWord (by decide)

theorem accepts_nil : sourceGrammar.Accepts .hidden (Rule.body .nilLiteral) s rest ↔
    ∃ w ∈ ["nil"], s = w.toList ++ rest ∧ Stops Rule.isNameChar rest := by
  have hws : PrefixFree ["nil"] := by decide
  exact accepts_wholeWord hws

end Numbers

/-! ## The text of string literals -/

/-- One character of a string literal, as it is written. -/
def stringUnit : Peg Rule :=
  .rule .escape / (.not (Rule.anyOf ["\"", "\\", "\n"]) ++ Rule.anyChar)

theorem accepts_upTo {p : Char → Bool} {rest : List Char} (n : Nat) {ds : List Char}
    (hne : ds ≠ []) (hlen : ds.length ≤ n + 1) (hall : ∀ d ∈ ds, p d = true)
    (hstop : Stops p rest) :
    sourceGrammar.Accepts .hidden (upTo (.one p) n) (ds ++ rest) rest := by
  induction n generalizing ds with
  | zero =>
    obtain ⟨d, rfl⟩ : ∃ d, ds = [d] := by
      match ds, hne, hlen with
      | [d], _, _ => exact ⟨d, rfl⟩
    exact Grammar.accepts_one.2 ⟨d, rfl, hall d List.mem_cons_self⟩
  | succ n ih =>
    cases ds with
    | nil => exact absurd rfl hne
    | cons d ds =>
      refine Grammar.accepts_seq.2 ⟨ds ++ rest,
        Grammar.accepts_one.2 ⟨d, rfl, hall d List.mem_cons_self⟩, ?_⟩
      cases ds with
      | nil =>
        refine Grammar.accepts_opt.2 (.inr ⟨?_, rfl⟩)
        cases n with
        | zero => exact Grammar.fails_one.2 hstop
        | succ n => exact Grammar.fails_seq.2 (.inl (Grammar.fails_one.2 hstop))
      | cons d' ds =>
        refine Grammar.accepts_opt.2 (.inl (ih (by simp) (by simpa using hlen) ?_))
        exact fun x hx => hall x (List.mem_cons_of_mem _ hx)

theorem accepts_stringUnit (c : Char) (s : List Char) :
    sourceGrammar.Accepts .hidden stringUnit (Text.escape c ++ s) s := by
  have hescape : ∀ t, sourceGrammar.Accepts .hidden (Rule.body .escape) t s →
      sourceGrammar.Accepts .hidden stringUnit t s := fun t ht =>
    Grammar.accepts_alt.2 (.inl (Grammar.accepts_rule.2 ht))
  rcases Text.escape_cases c with ⟨h, hq, hb, hn⟩ | ⟨d, h, -, hd⟩ | ⟨h, hc⟩
  · rw [h]
    refine Grammar.accepts_alt.2 (.inr ⟨?_, Grammar.accepts_seq.2 ⟨c :: s, ?_, ?_⟩⟩)
    · refine Grammar.fails_rule.2 (Grammar.fails_seq.2 (.inl (Grammar.fails_lit.2 ?_)))
      rintro ⟨t, ht⟩
      exact hb (List.cons.inj ht).1.symm
    · refine Grammar.accepts_not.2 ⟨fails_anyOf.2 ?_, rfl⟩
      simp only [List.mem_cons, List.not_mem_nil, or_false]
      rintro w (rfl | rfl | rfl) ⟨t, ht⟩
      · exact hq (List.cons.inj ht).1.symm
      · exact hb (List.cons.inj ht).1.symm
      · exact hn (List.cons.inj ht).1.symm
    · exact Grammar.accepts_one.2 ⟨c, rfl, rfl⟩
  · rw [h]
    refine hescape _ (Grammar.accepts_seq.2 ⟨d :: s, Grammar.accepts_lit.2 rfl, ?_⟩)
    have hws : PrefixFree Text.simpleEscapes := by decide
    have hword : sourceGrammar.Accepts .hidden (Rule.anyOf Text.simpleEscapes) _ s :=
      accepts_anyOf_of_mem hws hd s
    rw [String.toList_singleton] at hword
    exact Grammar.accepts_alt.2 (.inl hword)
  · obtain ⟨-, hne, hlen, hall⟩ := Text.hexDigits_control c.toNat hc
    rw [h]
    refine hescape _ (Grammar.accepts_seq.2 ⟨_, Grammar.accepts_lit.2 rfl, ?_⟩)
    refine Grammar.accepts_alt.2 (.inr ⟨fails_anyOf.2 ?_, ?_⟩)
    · simp only [List.mem_cons, List.not_mem_nil, or_false]
      rintro w (rfl | rfl | rfl | rfl | rfl | rfl | rfl) ⟨t, ht⟩ <;> cases (List.cons.inj ht).1
    · refine Grammar.accepts_seq.2 ⟨'}' :: s, Grammar.accepts_seq.2
        ⟨Text.hexDigits c.toNat ++ '}' :: s, Grammar.accepts_lit.2 ?_, ?_⟩, Grammar.accepts_lit.2 rfl⟩
      · simp [Grammar.gap]
      · exact accepts_upTo 7 hne hlen hall (stops_cons.2 rfl)

/-- Where the text of a string literal ends: at the quote, or at an interpolation. -/
def EndsText (s : List Char) : Prop := (∃ t, s = '"' :: t) ∨ ∃ t, s = '\\' :: '(' :: t

theorem fails_stringUnit {s : List Char} (hs : EndsText s) :
    sourceGrammar.Fails .hidden stringUnit s := by
  rcases hs with ⟨t, rfl⟩ | ⟨t, rfl⟩
  · refine Grammar.fails_alt.2 ⟨?_, Grammar.fails_seq.2 (.inl (Grammar.fails_not.2 ?_))⟩
    · exact fails_of_first t rfl rfl rfl rfl
    · exact ⟨t, accepts_anyOf.2 ⟨"\"", rfl, rfl⟩⟩
  · refine Grammar.fails_alt.2 ⟨?_, Grammar.fails_seq.2 (.inl (Grammar.fails_not.2 ?_))⟩
    · refine Grammar.fails_rule.2 (Grammar.fails_seq.2 (.inr ⟨'(' :: t, Grammar.accepts_lit.2 rfl, ?_⟩))
      exact fails_of_first t rfl rfl rfl rfl
    · exact ⟨'(' :: t, accepts_anyOf.2 ⟨"\\", rfl, rfl⟩⟩

theorem accepts_more_stringUnit (content : List Char) {s : List Char} (hs : EndsText s) :
    sourceGrammar.Accepts .hidden (.more stringUnit) (content.flatMap Text.escape ++ s) s := by
  induction content with
  | nil => exact Grammar.accepts_more.2 (.inl ⟨fails_stringUnit hs, rfl⟩)
  | cons c cs ih =>
    rw [List.flatMap_cons, List.append_assoc]
    exact Grammar.accepts_more.2 (.inr ⟨_, accepts_stringUnit c _, ih⟩)

/-- The text of a segment is read back as the segment. -/
theorem reads_stringText {content s : List Char} (hne : content ≠ []) (hs : EndsText s) :
    Reads .joined (.rule .stringText) (content.flatMap Text.escape ++ s)
      [wordItem .stringText content] s := by
  refine (reads_word rfl (by decide)).2 ⟨content.flatMap Text.escape, _, rfl, ?_, ?_, rfl⟩
  · cases content with
    | nil => exact absurd rfl hne
    | cons c cs =>
      rw [List.flatMap_cons, List.append_assoc]
      have hmore := accepts_more_stringUnit cs hs
      rw [Grammar.accepts_more] at hmore
      exact Grammar.accepts_seq.2 ⟨_, accepts_stringUnit c _, Grammar.accepts_many.2 hmore⟩
  · simp only [Rule.build, String.toList_ofList, Text.unescape_flatMap_escape]

/-- What is read as text is not empty, and no text follows it. -/
theorem stringText_of_reads {s rest : List Char} {items : List Item}
    (h : Reads .joined (.rule .stringText) s items rest) :
    (∃ content, content ≠ [] ∧ items = [wordItem .stringText content]) ∧
      sourceGrammar.Fails .joined (.rule .stringText) rest := by
  obtain ⟨text, part, rfl, haccepts, hpart, rfl⟩ := (reads_word rfl (by decide)).1 h
  obtain ⟨r, hunit, hmany⟩ := Grammar.accepts_seq.1 haccepts
  constructor
  · have htext : text ≠ [] := by
      rintro rfl
      obtain ⟨parts, hm⟩ := haccepts
      have := hm.length_lt sourceGrammar_blanksSplit sourceGrammar_ranked rfl
      simp at this
    simp only [Rule.build, String.toList_ofList] at hpart
    cases hu : Text.unescape text with
    | none => rw [hu] at hpart; cases hpart
    | some content =>
      rw [hu] at hpart
      obtain rfl := Except.ok.inj hpart
      refine ⟨content, ?_, rfl⟩
      rintro rfl
      exact htext (Text.eq_nil_of_unescape hu)
  · have hmore : sourceGrammar.Accepts .hidden (.more stringUnit) r rest := by
      rw [Grammar.accepts_more]
      exact Grammar.accepts_many.1 hmany
    exact Grammar.fails_rule.2 (Grammar.fails_seq.2 (.inl hmore.fails_of_more))

/-- The text of a segment starts no interpolation. -/
theorem fails_interpolation {layout : Layout} {content : List Char} (hne : content ≠ [])
    (s : List Char) :
    sourceGrammar.Fails layout (.rule .interpolation) (content.flatMap Text.escape ++ s) := by
  refine Grammar.fails_rule.2 (Grammar.fails_seq.2 (.inl (Grammar.fails_seq.2 (.inl ?_))))
  refine Grammar.fails_lit.2 ?_
  cases content with
  | nil => exact absurd rfl hne
  | cons c cs =>
    rw [List.flatMap_cons, List.append_assoc]
    rintro ⟨t, ht⟩
    rcases Text.escape_cases c with ⟨h, -, hb, -⟩ | ⟨d, h, hd, -⟩ | ⟨h, -⟩
    · rw [h] at ht
      exact hb (List.cons.inj ht).1.symm
    · rw [h] at ht
      obtain ⟨rfl, -⟩ := List.cons.inj (List.cons.inj ht).2
      cases hd
    · rw [h] at ht
      cases (List.cons.inj (List.cons.inj ht).2).1

end SwiftMacro
