import SwiftMacro.Proofs.Reading
/-!
# Words of the grammar

What each word rule matches, said with characters: runs of a class, the words of a list, names,
qualified names, numbers and operators. `Stops p rest` is the condition that no further character of
a class follows; the longest run is the only one that a repetition takes.
-/

namespace SwiftMacro

open Peg

/-! ## Blanks -/

namespace Trivia

theorem split_of_first_eq_none {s : List Char} (h : first s = none) : split s = ([], s) := by
  rw [split]
  split
  · rfl
  · next h' => rw [h] at h'; cases h'

theorem split_snd_of_first {s front rest : List Char} (h : first s = some (front, rest)) :
    (split s).2 = (split rest).2 := by
  rw [split]
  split
  · next h' => rw [h] at h'; cases h'
  · next h' =>
    rw [h] at h'
    obtain ⟨rfl, rfl⟩ := Prod.mk.inj (Option.some.inj h')
    rfl

theorem first_split (s : List Char) : first (split s).2 = none := by
  fun_induction split s with
  | case1 s h => exact h
  | case2 s front rest h more rest' hs ih => rw [hs] at ih; exact ih

end Trivia

/-- Where nothing can be skipped. -/
theorem after_of_first_eq_none {s : List Char} (h : Trivia.first s = none) :
    after .spaced s = s := by
  rw [after_spaced, Trivia.split_of_first_eq_none h]

theorem after_after (s : List Char) : after .spaced (after .spaced s) = after .spaced s :=
  after_of_first_eq_none (Trivia.first_split s)

theorem after_blank {c : Char} (h : Trivia.isBlank c = true) (s : List Char) :
    after .spaced (c :: s) = after .spaced s := by
  have hfirst : Trivia.first (c :: s) = some ([c], s) := by
    unfold Trivia.first
    split
    · next h' => obtain ⟨rfl, -⟩ := List.cons.inj h'; cases h
    · next h' => obtain ⟨rfl, -⟩ := List.cons.inj h'; cases h
    · next h' =>
      obtain ⟨rfl, rfl⟩ := List.cons.inj h'
      rw [if_pos h]
    · next h' => cases h'
  exact Trivia.split_snd_of_first hfirst

@[simp] theorem after_space (s : List Char) : after .spaced (' ' :: s) = after .spaced s :=
  after_blank rfl s

@[simp] theorem after_newline (s : List Char) : after .spaced ('\n' :: s) = after .spaced s :=
  after_blank rfl s

@[simp] theorem after_nil : after .spaced [] = [] := after_of_first_eq_none rfl

/-- The character starts no blank and no comment. -/
def isSolid (c : Char) : Bool := !(Trivia.isBlank c || c == '/')

theorem first_eq_none_of_isSolid {c : Char} (h : isSolid c = true) (s : List Char) :
    Trivia.first (c :: s) = none := by
  simp only [isSolid, Bool.not_eq_true', Bool.or_eq_false_iff, beq_eq_false_iff_ne] at h
  unfold Trivia.first
  split
  · next h' => exact absurd (List.cons.inj h').1 h.2
  · next h' => exact absurd (List.cons.inj h').1 h.2
  · next h' =>
    obtain ⟨rfl, rfl⟩ := List.cons.inj h'
    rw [if_neg (by rw [h.1]; simp)]
  · rfl

theorem after_solid {c : Char} (h : isSolid c = true) (s : List Char) :
    after .spaced (c :: s) = c :: s := after_of_first_eq_none (first_eq_none_of_isSolid h s)

/-! ## Runs of a class -/

/-- What is said of the characters of a list is decided by going through the list, and not through
every character there is. -/
instance decidableForallMem {p : Char → Prop} [DecidablePred p] (s : List Char) :
    Decidable (∀ c ∈ s, p c) := List.decidableBAll p s

/-- No character of the class stands at the start. -/
def Stops (p : Char → Bool) (s : List Char) : Prop := ∀ c, s.head? = some c → p c = false

theorem stops_nil (p : Char → Bool) : Stops p [] := by
  intro c h
  cases h

theorem stops_cons {p : Char → Bool} {c : Char} {s : List Char} : Stops p (c :: s) ↔ p c = false := by
  simp [Stops]

/-- Two longest runs at the start of a text are the same. -/
theorem run_unique {p : Char → Bool} {w v r q : List Char} (hw : ∀ c ∈ w, p c = true)
    (hv : ∀ c ∈ v, p c = true) (hr : Stops p r) (hq : Stops p q) (h : w ++ r = v ++ q) :
    w = v ∧ r = q := by
  induction w generalizing v with
  | nil =>
    cases v with
    | nil => exact ⟨rfl, h⟩
    | cons d v =>
      rw [List.nil_append] at h
      rw [h, List.cons_append, stops_cons, hv d List.mem_cons_self] at hr
      cases hr
  | cons c w ih =>
    cases v with
    | nil =>
      rw [List.nil_append] at h
      rw [← h, List.cons_append, stops_cons, hw c List.mem_cons_self] at hq
      cases hq
    | cons d v =>
      obtain ⟨rfl, h'⟩ := List.cons.inj h
      obtain ⟨rfl, rfl⟩ := ih (fun x hx => hw x (List.mem_cons_of_mem _ hx))
        (fun x hx => hv x (List.mem_cons_of_mem _ hx)) h'
      exact ⟨rfl, rfl⟩

theorem accepts_more_one {p : Char → Bool} {s rest : List Char} :
    sourceGrammar.Accepts .hidden (.more (.one p)) s rest ↔
      ∃ w, s = w ++ rest ∧ (∀ c ∈ w, p c = true) ∧ Stops p rest := by
  induction s with
  | nil =>
    rw [Grammar.accepts_more]
    constructor
    · rintro (⟨hf, rfl⟩ | ⟨r, hr, -⟩)
      · exact ⟨[], rfl, by simp, stops_nil p⟩
      · obtain ⟨c, hc, -⟩ := Grammar.accepts_one.1 hr
        cases hc
    · rintro ⟨w, hw, -, -⟩
      obtain ⟨rfl, rfl⟩ := List.append_eq_nil_iff.1 hw.symm
      exact .inl ⟨Grammar.fails_one.2 (stops_nil p), rfl⟩
  | cons c s ih =>
    rw [Grammar.accepts_more]
    constructor
    · rintro (⟨hf, rfl⟩ | ⟨r, hr, hmore⟩)
      · exact ⟨[], rfl, by simp, Grammar.fails_one.1 hf⟩
      · obtain ⟨d, hd, hp⟩ := Grammar.accepts_one.1 hr
        obtain ⟨rfl, rfl⟩ := List.cons.inj hd
        obtain ⟨w, rfl, hw, hstop⟩ := ih.1 hmore
        exact ⟨c :: w, rfl, by simpa [hp] using hw, hstop⟩
    · rintro ⟨w, hw, hall, hstop⟩
      cases w with
      | nil =>
        rw [List.nil_append] at hw
        exact .inl ⟨Grammar.fails_one.2 (by rw [← hw] at hstop; exact hstop), hw.symm⟩
      | cons d w =>
        obtain ⟨rfl, rfl⟩ := List.cons.inj hw
        refine .inr ⟨w ++ rest, Grammar.accepts_one.2 ⟨c, rfl, hall c List.mem_cons_self⟩, ?_⟩
        exact ih.2 ⟨w, rfl, fun x hx => hall x (List.mem_cons_of_mem _ hx), hstop⟩

/-- A repetition of a class takes the longest run. -/
theorem accepts_many_one {p : Char → Bool} {s rest : List Char} :
    sourceGrammar.Accepts .hidden (.many (.one p)) s rest ↔
      ∃ w, s = w ++ rest ∧ (∀ c ∈ w, p c = true) ∧ Stops p rest := by
  have h : sourceGrammar.Accepts .hidden (.many (.one p)) s rest ↔
      sourceGrammar.Accepts .hidden (.more (.one p)) s rest := by
    rw [Grammar.accepts_many, Grammar.accepts_more]
    rfl
  rw [h, accepts_more_one]

theorem accepts_plus_one {p : Char → Bool} {s rest : List Char} :
    sourceGrammar.Accepts .hidden (plus (.one p)) s rest ↔
      ∃ w, w ≠ [] ∧ s = w ++ rest ∧ (∀ c ∈ w, p c = true) ∧ Stops p rest := by
  rw [plus, Grammar.accepts_seq]
  constructor
  · rintro ⟨r, hr, hmany⟩
    obtain ⟨c, rfl, hp⟩ := Grammar.accepts_one.1 hr
    obtain ⟨w, hw, hall, hstop⟩ := accepts_many_one.1 hmany
    refine ⟨c :: w, by simp, ?_, by simpa [hp] using hall, hstop⟩
    exact congrArg (List.cons c) hw
  · rintro ⟨w, hne, rfl, hall, hstop⟩
    cases w with
    | nil => exact absurd rfl hne
    | cons c w =>
      refine ⟨w ++ rest, Grammar.accepts_one.2 ⟨c, rfl, hall c List.mem_cons_self⟩, ?_⟩
      exact accepts_many_one.2 ⟨w, rfl, fun x hx => hall x (List.mem_cons_of_mem _ hx), hstop⟩

/-! ## One word of a list -/

section AnyOf

variable {layout : Layout} {s rest : List Char} {ws : List String}

theorem fails_anyOf : sourceGrammar.Fails layout (Rule.anyOf ws) s ↔
    ∀ w ∈ ws, ¬ w.toList <+: s := by
  induction ws with
  | nil =>
    simp only [Rule.anyOf, List.not_mem_nil, false_implies, implies_true, iff_true]
    exact Grammar.fails_not.2 ⟨s, Grammar.accepts_empty.2 rfl⟩
  | cons w ws ih =>
    cases ws with
    | nil => simp [Rule.anyOf, Grammar.fails_lit]
    | cons v ws =>
      rw [Rule.anyOf, Grammar.fails_alt, ih, Grammar.fails_lit]
      · simp
      · simp

/-- Whether the word stands at the start of the text. -/
def standsAt (s : List Char) (w : String) : Bool := w.toList.isPrefixOf s

theorem standsAt_iff {w : String} : standsAt s w = true ↔ w.toList <+: s :=
  List.isPrefixOf_iff_prefix

/-- The first word of the list that stands there is taken. -/
theorem accepts_anyOf : sourceGrammar.Accepts layout (Rule.anyOf ws) s rest ↔
    ∃ w, ws.find? (standsAt s) = some w ∧ s = w.toList ++ rest := by
  induction ws with
  | nil =>
    simp only [List.find?_nil, reduceCtorEq, false_and, exists_const, iff_false]
    intro h
    exact h.not_fails (fails_anyOf.2 (by simp))
  | cons w ws ih =>
    by_cases hw : w.toList <+: s
    · rw [List.find?_cons_of_pos (standsAt_iff.2 hw)]
      have hlit : sourceGrammar.Accepts layout (Rule.anyOf (w :: ws)) s rest ↔ s = w.toList ++ rest := by
        cases ws with
        | nil => exact Grammar.accepts_lit
        | cons v ws =>
          rw [Rule.anyOf, Grammar.accepts_alt, Grammar.accepts_lit, Grammar.fails_lit]
          · simp [hw]
          · simp
      simp [hlit]
    · rw [List.find?_cons_of_neg fun h => hw (standsAt_iff.1 h), ← ih]
      have hlit : ¬ s = w.toList ++ rest := fun h => hw ⟨rest, h.symm⟩
      cases ws with
      | nil =>
        have hnone : ¬ sourceGrammar.Accepts layout (Rule.anyOf []) s rest := fun h =>
          h.not_fails (fails_anyOf.2 (by simp))
        exact iff_of_false (fun h => hlit (Grammar.accepts_lit.1 h)) hnone
      | cons v ws =>
        rw [Rule.anyOf, Grammar.accepts_alt, Grammar.accepts_lit, Grammar.fails_lit]
        · simp [hw, hlit]
        · simp

theorem mem_of_accepts_anyOf (h : sourceGrammar.Accepts layout (Rule.anyOf ws) s rest) :
    ∃ w ∈ ws, s = w.toList ++ rest := by
  obtain ⟨w, hw, hs⟩ := accepts_anyOf.1 h
  exact ⟨w, List.mem_of_find?_eq_some hw, hs⟩

/-- No word of the list is the beginning of another one. -/
def PrefixFree (ws : List String) : Prop :=
  ∀ v ∈ ws, ∀ w ∈ ws, v.toList <+: w.toList → v = w

instance : Decidable (PrefixFree ws) := by unfold PrefixFree; infer_instance

theorem accepts_anyOf_of_mem (hws : PrefixFree ws) {w : String} (hw : w ∈ ws) (rest : List Char) :
    sourceGrammar.Accepts layout (Rule.anyOf ws) (w.toList ++ rest) rest := by
  refine accepts_anyOf.2 ⟨w, ?_, rfl⟩
  cases hf : ws.find? (standsAt (w.toList ++ rest)) with
  | none => exact absurd (standsAt_iff.2 ⟨rest, rfl⟩) (List.find?_eq_none.1 hf w hw)
  | some v =>
    have hv := List.mem_of_find?_eq_some hf
    have hp : v.toList <+: w.toList ++ rest := standsAt_iff.1 (List.find?_some hf)
    rcases List.prefix_or_prefix_of_prefix hp ⟨rest, rfl⟩ with h | h
    · rw [hws v hv w hw h]
    · rw [hws w hw v hv h]

/-- A word of the list, and no further character of a name. -/
theorem accepts_wholeWord (hws : PrefixFree ws) :
    sourceGrammar.Accepts .hidden (Rule.anyOf ws ++ Rule.wordEnd) s rest ↔
      ∃ w ∈ ws, s = w.toList ++ rest ∧ Stops Rule.isNameChar rest := by
  rw [Grammar.accepts_seq]
  constructor
  · rintro ⟨r, hr, hend⟩
    obtain ⟨w, hw, rfl⟩ := mem_of_accepts_anyOf hr
    obtain ⟨hf, rfl⟩ := Grammar.accepts_not.1 hend
    exact ⟨w, hw, rfl, Grammar.fails_one.1 hf⟩
  · rintro ⟨w, hw, rfl, hstop⟩
    exact ⟨rest, accepts_anyOf_of_mem hws hw rest,
      Grammar.accepts_not.2 ⟨Grammar.fails_one.2 hstop, rfl⟩⟩

end AnyOf

/-! ## Names -/

/-- The characters of a name: no keyword, and no digit at the start. -/
structure IsName (w : List Char) : Prop where
  start : ∃ c cs, w = c :: cs ∧ Rule.isNameStart c = true
  chars : ∀ c ∈ w, Rule.isNameChar c = true
  notKeyword : ∀ k ∈ Rule.keywords, w ≠ k.toList

theorem isName_iff {w : List Char} : IsName w ↔ (w.head?.any Rule.isNameStart = true ∧
    (∀ c ∈ w, Rule.isNameChar c = true) ∧ ∀ k ∈ Rule.keywords, w ≠ k.toList) := by
  constructor
  · rintro ⟨⟨c, cs, rfl, hc⟩, hchars, hkeyword⟩
    exact ⟨hc, hchars, hkeyword⟩
  · rintro ⟨hstart, hchars, hkeyword⟩
    cases w with
    | nil => cases hstart
    | cons c cs => exact ⟨⟨c, cs, rfl, hstart⟩, hchars, hkeyword⟩

instance (w : List Char) : Decidable (IsName w) := decidable_of_iff _ isName_iff.symm

theorem isNameChar_of_isNameStart {c : Char} (h : Rule.isNameStart c = true) :
    Rule.isNameChar c = true := by
  simp only [Rule.isNameStart, Rule.isNameChar, Char.isAlphanum, Bool.or_eq_true] at h ⊢
  rcases h with h | h
  · exact .inl (.inl h)
  · exact .inr h

theorem keywords_prefixFree : PrefixFree Rule.keywords := by decide

theorem isNameChar_of_mem_keywords : ∀ k ∈ Rule.keywords, ∀ c ∈ k.toList, Rule.isNameChar c = true := by
  decide

theorem isNameStart_of_mem_keywords :
    ∀ k ∈ Rule.keywords, k.toList.head?.any Rule.isNameStart = true := by decide

theorem keyword_eq_cons {k : String} (hk : k ∈ Rule.keywords) :
    ∃ c t, k.toList = c :: t ∧ Rule.isNameStart c = true := by
  have hstart := isNameStart_of_mem_keywords k hk
  cases hw : k.toList with
  | nil => rw [hw] at hstart; cases hstart
  | cons c t => rw [hw] at hstart; exact ⟨c, t, rfl, hstart⟩

/-- A longest run of a name's characters that is no word of the list. -/
theorem fails_wholeWord {w rest : List Char} (hw : ∀ c ∈ w, Rule.isNameChar c = true)
    (hstop : Stops Rule.isNameChar rest) {ws : List String} (hne : ∀ v ∈ ws, w ≠ v.toList)
    (hfree : PrefixFree ws)
    (hws : ∀ v ∈ ws, ∀ c ∈ v.toList, Rule.isNameChar c = true)
    (hb : (Rule.anyOf ws ++ Rule.wordEnd).isBounded sourceRanks sourceGrammar.depth = true) :
    sourceGrammar.Fails .hidden (Rule.anyOf ws ++ Rule.wordEnd) (w ++ rest) := by
  refine fails_of_not_accepts (fun r hr => ?_) hb
  obtain ⟨v, hv, hs, hvstop⟩ := (accepts_wholeWord hfree).1 hr
  exact hne v hv (run_unique hw (hws v hv) hstop hvstop hs).1

/-- The word, as an item of its rule. -/
def wordItem (r : Rule) (w : List Char) : Item := ⟨r, default, .word (String.ofList w)⟩

/-- What is written as items is found among them. -/
theorem filterMap_map_eq_self {α : Type} {item : α → Item} {part? : Item → Option α}
    (h : ∀ a, part? (item a) = some a) (as : List α) : (as.map item).filterMap part? = as := by
  have hself : part? ∘ item = some := funext h
  rw [List.filterMap_map, hself, List.filterMap_some]

theorem filterMap_map_eq_nil {α β : Type} {item : α → Item} {part? : Item → Option β}
    (h : ∀ a, part? (item a) = none) (as : List α) : (as.map item).filterMap part? = [] := by
  rw [List.filterMap_map]
  exact List.filterMap_eq_nil_iff.2 fun a _ => h a

/-- A rule that stands for its own text. -/
theorem reads_spelled {layout : Layout} {s rest : List Char} {items : List Item} {r : Rule}
    (hr : r.style = .word) (hb : ∀ text, r.build default text [] = .ok (.word text))
    (hl : layout ≠ .hidden) :
    Reads layout (.rule r) s items rest ↔
      ∃ w, s = w ++ rest ∧ sourceGrammar.Accepts .hidden r.body s rest ∧ items = [wordItem r w] := by
  rw [reads_word hr hl]
  constructor
  · rintro ⟨w, part, hs, ha, hpart, rfl⟩
    rw [hb] at hpart
    obtain rfl := Except.ok.inj hpart
    exact ⟨w, hs, ha, rfl⟩
  · rintro ⟨w, hs, ha, rfl⟩
    exact ⟨w, _, hs, ha, hb _, rfl⟩

section Names

variable {layout : Layout} {s rest : List Char}

theorem accepts_identifier : sourceGrammar.Accepts layout (.rule .identifier) s rest ↔
    ∃ w, IsName w ∧ s = w ++ rest ∧ Stops Rule.isNameChar rest := by
  rw [Grammar.accepts_rule]
  change sourceGrammar.Accepts .hidden
    (.not (.rule .keyword) ++ .one Rule.isNameStart ++ .many (.one Rule.isNameChar)) s rest ↔ _
  have hkeyword : ∀ r, sourceGrammar.Accepts .hidden (.rule .keyword) s r ↔
      ∃ k ∈ Rule.keywords, s = k.toList ++ r ∧ Stops Rule.isNameChar r := fun r => by
    rw [Grammar.accepts_rule]
    exact accepts_wholeWord keywords_prefixFree
  rw [Grammar.accepts_seq]
  constructor
  · rintro ⟨r, hr, hmany⟩
    obtain ⟨q, hq, hone⟩ := Grammar.accepts_seq.1 hr
    obtain ⟨hf, hqs⟩ := Grammar.accepts_not.1 hq
    rw [hqs] at hone
    obtain ⟨c, hc, hstart⟩ := Grammar.accepts_one.1 hone
    obtain ⟨w, hw, hall, hstop⟩ := accepts_many_one.1 hmany
    have hs : s = c :: w ++ rest := hc.trans (congrArg (List.cons c) hw)
    have hchars : ∀ x ∈ c :: w, Rule.isNameChar x = true := by
      simpa [isNameChar_of_isNameStart hstart] using hall
    refine ⟨c :: w, ⟨⟨c, w, rfl, hstart⟩, hchars, ?_⟩, hs, hstop⟩
    rintro k hk hkw
    exact Grammar.Accepts.not_fails ((hkeyword rest).2 ⟨k, hk, hkw ▸ hs, hstop⟩) hf
  · rintro ⟨w, hw, hs, hstop⟩
    obtain ⟨c, cs, rfl, hstart⟩ := hw.start
    refine ⟨cs ++ rest, Grammar.accepts_seq.2 ⟨s, Grammar.accepts_not.2 ⟨?_, rfl⟩,
      Grammar.accepts_one.2 ⟨c, hs, hstart⟩⟩, accepts_many_one.2
        ⟨cs, rfl, fun x hx => hw.chars x (List.mem_cons_of_mem _ hx), hstop⟩⟩
    refine fails_of_not_accepts (fun r hr => ?_) rfl
    obtain ⟨k, hk, hkr, hkstop⟩ := (hkeyword r).1 hr
    exact hw.notKeyword k hk (run_unique hw.chars (isNameChar_of_mem_keywords k hk) hstop hkstop
      (hs.symm.trans hkr)).1

theorem reads_identifier {items : List Item} (hl : layout ≠ .hidden) :
    Reads layout (.rule .identifier) s items rest ↔
      ∃ w, IsName w ∧ s = w ++ rest ∧ Stops Rule.isNameChar rest ∧
        items = [wordItem .identifier w] := by
  rw [reads_spelled rfl (fun _ => rfl) hl]
  have hbody : sourceGrammar.Accepts .hidden (Rule.body .identifier) s rest ↔
      sourceGrammar.Accepts .hidden (.rule .identifier) s rest :=
    (Grammar.accepts_rule (g := sourceGrammar) (r := Rule.identifier)).symm
  rw [hbody, accepts_identifier]
  constructor
  · rintro ⟨w, hs, ⟨v, hv, hs', hstop⟩, rfl⟩
    obtain rfl := List.append_cancel_right (hs.symm.trans hs')
    exact ⟨w, hv, hs, hstop, rfl⟩
  · rintro ⟨w, hw, hs, hstop, rfl⟩
    exact ⟨w, hs, ⟨w, hw, hs, hstop⟩, rfl⟩

/-- A keyword is no name. -/
theorem fails_identifier_keyword {k : String} (hk : k ∈ Rule.keywords)
    (hstop : Stops Rule.isNameChar rest) :
    sourceGrammar.Fails layout (.rule .identifier) (k.toList ++ rest) := by
  refine fails_of_not_accepts (fun r hr => ?_) rfl
  obtain ⟨w, hw, hs, hwstop⟩ := accepts_identifier.1 hr
  exact hw.notKeyword k hk (run_unique hw.chars (isNameChar_of_mem_keywords k hk) hwstop hstop
    hs.symm).1

/-! ## Qualified names -/

/-- Names with dots between them. -/
def IsQualified (w : List Char) : Prop :=
  ∃ (n : List Char) (ns : List (List Char)),
    IsName n ∧ (∀ m ∈ ns, IsName m) ∧ w = n ++ ns.flatMap ('.' :: ·)

theorem accepts_dotName : sourceGrammar.Accepts .hidden (.lit "." ++ .rule .identifier) s rest ↔
    ∃ w, IsName w ∧ s = '.' :: w ++ rest ∧ Stops Rule.isNameChar rest := by
  rw [Grammar.accepts_seq]
  constructor
  · rintro ⟨r, hr, hid⟩
    obtain rfl := Grammar.accepts_lit.1 hr
    obtain ⟨w, hw, hs, hstop⟩ := accepts_identifier.1 hid
    exact ⟨w, hw, congrArg (List.cons '.') hs, hstop⟩
  · rintro ⟨w, hw, rfl, hstop⟩
    exact ⟨w ++ rest, Grammar.accepts_lit.2 rfl, accepts_identifier.2 ⟨w, hw, rfl, hstop⟩⟩

theorem isQualified_of_accepts_more {n : List Char} (hn : IsQualified n)
    (h : sourceGrammar.Accepts .hidden (.more (.lit "." ++ .rule .identifier)) s rest) :
    ∃ w, s = w ++ rest ∧ IsQualified (n ++ w) := by
  obtain ⟨parts, hm⟩ := h
  induction hm using Grammar.Matches.more_induct generalizing n with
  | stop => exact ⟨[], rfl, by simpa using hn⟩
  | @turn s _ r _ _ hdot _ ih =>
    obtain ⟨v, hv, hs, -⟩ := accepts_dotName.1 ⟨_, hdot⟩
    change s = '.' :: v ++ r at hs
    have hnv : IsQualified (n ++ '.' :: v) := by
      obtain ⟨n0, ns, h0, hns, rfl⟩ := hn
      refine ⟨n0, ns ++ [v], h0, ?_, by simp⟩
      intro x hx
      rcases List.mem_append.1 hx with hx | hx
      · exact hns x hx
      · rw [List.mem_singleton.1 hx]; exact hv
    obtain ⟨w, rfl, hw⟩ := ih hnv
    exact ⟨'.' :: v ++ w, by simpa using hs, by simpa using hw⟩

theorem isQualified_of_accepts
    (h : sourceGrammar.Accepts .hidden (Rule.body .qualifiedName) s rest) :
    ∃ w, s = w ++ rest ∧ IsQualified w := by
  obtain ⟨r, hr, hmany⟩ := Grammar.accepts_seq.1 h
  obtain ⟨n, hn, rfl, -⟩ := accepts_identifier.1 hr
  have hmore : sourceGrammar.Accepts .hidden (.more (.lit "." ++ .rule .identifier)) r rest := by
    rw [Grammar.accepts_more]
    exact Grammar.accepts_many.1 hmany
  have hq : IsQualified n := ⟨n, [], hn, by simp, by simp⟩
  obtain ⟨w, rfl, hw⟩ := isQualified_of_accepts_more hq hmore
  exact ⟨n ++ w, by simp, hw⟩

theorem accepts_more_dotNames {ns : List (List Char)} (hns : ∀ m ∈ ns, IsName m)
    (hstop : Stops Rule.isNameChar rest) (hdot : Stops (· == '.') rest) :
    sourceGrammar.Accepts .hidden (.more (.lit "." ++ .rule .identifier))
      (ns.flatMap ('.' :: ·) ++ rest) rest := by
  induction ns with
  | nil =>
    refine Grammar.accepts_more.2 (.inl ⟨?_, rfl⟩)
    refine Grammar.fails_seq.2 (.inl (Grammar.fails_lit.2 ?_))
    rintro ⟨t, rfl⟩
    simpa using hdot '.' rfl
  | cons m ns ih =>
    rw [List.flatMap_cons, List.append_assoc]
    refine Grammar.accepts_more.2 (.inr ⟨ns.flatMap ('.' :: ·) ++ rest, accepts_dotName.2
      ⟨m, hns m List.mem_cons_self, rfl, ?_⟩, ih fun x hx => hns x (List.mem_cons_of_mem _ hx)⟩)
    cases ns with
    | nil => exact hstop
    | cons m' ns => exact stops_cons.2 rfl

theorem accepts_qualifiedName {w : List Char} (hw : IsQualified w)
    (hstop : Stops Rule.isNameChar rest) (hdot : Stops (· == '.') rest) :
    sourceGrammar.Accepts .hidden (Rule.body .qualifiedName) (w ++ rest) rest := by
  obtain ⟨n, ns, hn, hns, rfl⟩ := hw
  have hmore := accepts_more_dotNames hns hstop hdot
  refine Grammar.accepts_seq.2 ⟨ns.flatMap ('.' :: ·) ++ rest, accepts_identifier.2
    ⟨n, hn, List.append_assoc .., ?_⟩, ?_⟩
  · cases ns with
    | nil => exact hstop
    | cons m ns => exact stops_cons.2 rfl
  · rw [Grammar.accepts_more] at hmore
    exact Grammar.accepts_many.2 hmore

end Names

end SwiftMacro
