import SwiftMacro.Proofs.Decided
import SwiftMacro.Proofs.Spans
/-!
# Reading without trees and spans

`Reads layout e s items rest` says that an expression over the rules of sources matches at the start
of a text, what it leaves, and which items are built from the match; spans are erased. The lemmas
here say for each kind of expression what it reads, so that neither trees nor offsets come up in
anything built on them. `Reads.all` is the way to show something of all items: it is enough that each
rule keeps it.
-/

namespace SwiftMacro

/-! ## Items of trees that stand side by side -/

theorem byteLength_append (s t : List Char) :
    byteLength (s ++ t) = byteLength s + byteLength t := by
  induction s with
  | nil => simp [byteLength]
  | cons c s ih => simp only [List.cons_append, byteLength, ih]; omega

namespace Tree

theorem itemsOf_append (offset : Nat) (ps qs : List (Tree Rule)) :
    itemsOf offset (ps ++ qs) = match itemsOf offset ps with
      | .error e => .error e
      | .ok front => match itemsOf (offset + byteLength (charsOf ps)) qs with
        | .error e => .error e
        | .ok back => .ok (front ++ back) := by
  induction ps generalizing offset with
  | nil =>
    simp only [List.nil_append, itemsOf, charsOf, byteLength, Nat.add_zero]
    cases itemsOf offset qs <;> rfl
  | cons t ts ih =>
    rw [List.cons_append, itemsOf, itemsOf, ih, charsOf, byteLength_append, ← Nat.add_assoc]
    cases items offset t with
    | error e => rfl
    | ok first =>
      cases itemsOf (offset + byteLength t.chars) ts with
      | error e => rfl
      | ok mid =>
        simp only
        cases itemsOf (offset + byteLength t.chars + byteLength (charsOf ts)) qs <;> simp

theorem items_node_eq_ok {offset : Nat} {r : Rule} {ps : List (Tree Rule)} {its : List Item} :
    items offset (.node r ps) = .ok its ↔
      ∃ inner part, itemsOf offset ps = .ok inner ∧
        r.build ⟨offset, offset + byteLength (charsOf ps)⟩ (String.ofList (charsOf ps)) inner =
          .ok part ∧ its = [⟨r, ⟨offset, offset + byteLength (charsOf ps)⟩, part⟩] := by
  rw [items]
  cases itemsOf offset ps with
  | error e => simp
  | ok inner =>
    cases hpart : r.build ⟨offset, offset + byteLength (charsOf ps)⟩ (String.ofList (charsOf ps)) inner with
    | error e => simp [hpart]
    | ok part => simp [hpart, eq_comm]

theorem itemsOf_cons_eq_ok {offset : Nat} {t : Tree Rule} {ts : List (Tree Rule)} {its : List Item} :
    itemsOf offset (t :: ts) = .ok its ↔
      ∃ front back, items offset t = .ok front ∧
        itemsOf (offset + byteLength t.chars) ts = .ok back ∧ its = front ++ back := by
  rw [itemsOf]
  cases items offset t with
  | error e => simp
  | ok front =>
    cases itemsOf (offset + byteLength t.chars) ts with
    | error e => simp
    | ok back => simp [eq_comm]

theorem itemsOf_append_eq_ok {offset : Nat} {ps qs : List (Tree Rule)} {its : List Item} :
    itemsOf offset (ps ++ qs) = .ok its ↔
      ∃ front back, itemsOf offset ps = .ok front ∧
        itemsOf (offset + byteLength (charsOf ps)) qs = .ok back ∧ its = front ++ back := by
  rw [itemsOf_append]
  cases itemsOf offset ps with
  | error e => simp
  | ok front =>
    cases itemsOf (offset + byteLength (charsOf ps)) qs with
    | error e => simp
    | ok back => simp [eq_comm]

mutual

/-- A tree further to the right makes the same items, moved. -/
theorem items_shift (k offset : Nat) : ∀ t : Tree Rule,
    items (offset + k) t =
      mapResult (Span.shift k) (List.map (Item.mapSpans (Span.shift k))) (items offset t)
  | text _ => rfl
  | node r parts => by
    rw [items, items, itemsOf_shift k offset parts]
    cases itemsOf offset parts with
    | error e => rfl
    | ok inner =>
      have hspan : (⟨offset + k, offset + k + byteLength (charsOf parts)⟩ : Span) =
          Span.shift k ⟨offset, offset + byteLength (charsOf parts)⟩ := by
        simp only [Span.shift, Span.mk.injEq, true_and]
        omega
      simp only [mapResult, hspan, build_mapSpans (respectsCover_shift k)]
      cases r.build ⟨offset, offset + byteLength (charsOf parts)⟩ (String.ofList (charsOf parts)) inner <;>
        rfl

/-- Trees further to the right make the same items, moved. -/
theorem itemsOf_shift (k offset : Nat) : ∀ ts : List (Tree Rule),
    itemsOf (offset + k) ts =
      mapResult (Span.shift k) (List.map (Item.mapSpans (Span.shift k))) (itemsOf offset ts)
  | [] => rfl
  | t :: ts => by
    rw [itemsOf, itemsOf, items_shift k offset t]
    cases items offset t with
    | error e => rfl
    | ok front =>
      have ho : offset + k + byteLength t.chars = offset + byteLength t.chars + k := by omega
      simp only [mapResult, ho, itemsOf_shift k _ ts]
      cases itemsOf (offset + byteLength t.chars) ts with
      | error e => rfl
      | ok back => simp

end

end Tree

/-! ## Items without spans -/

/-- The item without its spans. -/
def Item.bare : Item → Item := Item.mapSpans fun _ => default

/-- The part without its spans. -/
def Part.bare : Part → Part := Part.mapSpans fun _ => default

theorem Part.bare_shift (k : Nat) (p : Part) : (p.mapSpans (Span.shift k)).bare = p.bare := by
  have hn : ∀ n : Node, (n.mapSpans (Span.shift k)).mapSpans (fun _ => default) =
      n.mapSpans fun _ => default := Node.mapSpans_mapSpans _ _
  cases p <;> simp [Part.bare, Part.mapSpans, Argument.map, hn]

theorem Item.bare_shift (k : Nat) (i : Item) : (i.mapSpans (Span.shift k)).bare = i.bare :=
  congrArg (Item.mk i.rule default) (Part.bare_shift k i.part)

/-- The items that trees make, without their spans. -/
def Builds (parts : List (Tree Rule)) (items : List Item) : Prop :=
  ∃ its, Tree.itemsOf 0 parts = .ok its ∧ items = its.map Item.bare

theorem builds_of_itemsOf {offset : Nat} {parts : List (Tree Rule)} {its : List Item}
    (h : Tree.itemsOf offset parts = .ok its) : Builds parts (its.map Item.bare) := by
  rw [← Nat.zero_add offset, Tree.itemsOf_shift] at h
  cases h0 : Tree.itemsOf 0 parts with
  | error e => rw [h0] at h; cases h
  | ok its0 =>
    rw [h0] at h
    obtain rfl := Except.ok.inj h
    exact ⟨its0, h0, by simp [Function.comp_def, Item.bare_shift]⟩

theorem Builds.itemsOf {parts : List (Tree Rule)} {items : List Item} (h : Builds parts items)
    (offset : Nat) : ∃ its, Tree.itemsOf offset parts = .ok its ∧ items = its.map Item.bare := by
  obtain ⟨its, h0, rfl⟩ := h
  refine ⟨its.map (Item.mapSpans (Span.shift offset)), ?_, by simp [Function.comp_def, Item.bare_shift]⟩
  rw [← Nat.zero_add offset, Tree.itemsOf_shift, h0, Nat.zero_add]
  rfl

theorem builds_nil {items : List Item} : Builds [] items ↔ items = [] := by
  simp [Builds, Tree.itemsOf]

theorem builds_text {cs : List Char} {items : List Item} :
    Builds [.text cs] items ↔ items = [] := by
  simp [Builds, Tree.itemsOf, Tree.items]

theorem builds_append {ps qs : List (Tree Rule)} {items : List Item} :
    Builds (ps ++ qs) items ↔ ∃ front back, Builds ps front ∧ Builds qs back ∧
      items = front ++ back := by
  constructor
  · rintro ⟨its, h, rfl⟩
    obtain ⟨front, back, hf, hb, rfl⟩ := Tree.itemsOf_append_eq_ok.1 h
    exact ⟨_, _, ⟨front, hf, rfl⟩, builds_of_itemsOf hb, List.map_append⟩
  · rintro ⟨front, back, ⟨its, hf, rfl⟩, hb, rfl⟩
    obtain ⟨jts, hj, rfl⟩ := hb.itemsOf (0 + byteLength (Tree.charsOf ps))
    exact ⟨its ++ jts, Tree.itemsOf_append_eq_ok.2 ⟨its, jts, hf, hj, rfl⟩, List.map_append.symm⟩

theorem builds_node {r : Rule} {parts : List (Tree Rule)} {items : List Item} :
    Builds [.node r parts] items ↔ ∃ inner part, Builds parts inner ∧
      r.build default (String.ofList (Tree.charsOf parts)) inner = .ok part ∧
      items = [⟨r, default, part⟩] := by
  have hbare : ∀ (span : Span) (its : List Item),
      r.build default (String.ofList (Tree.charsOf parts)) (its.map Item.bare) =
        mapResult (fun _ => default) Part.bare
          (r.build span (String.ofList (Tree.charsOf parts)) its) := fun span its =>
    build_mapSpans respectsCover_default r span _ its
  simp only [Builds, Tree.itemsOf, Tree.items]
  cases h0 : Tree.itemsOf 0 parts with
  | error e => simp
  | ok its =>
    simp only [Except.ok.injEq]
    cases hb : r.build ⟨0, 0 + byteLength (Tree.charsOf parts)⟩
        (String.ofList (Tree.charsOf parts)) its with
    | error e =>
      simp only [reduceCtorEq, false_and, exists_const, false_iff]
      rintro ⟨inner, part, ⟨its', rfl, rfl⟩, hp, -⟩
      rw [hbare _ its, hb] at hp
      cases hp
    | ok part =>
      simp only [List.append_nil, Except.ok.injEq]
      constructor
      · rintro ⟨_, rfl, rfl⟩
        exact ⟨_, part.bare, ⟨its, rfl, rfl⟩, by rw [hbare _ its, hb]; rfl, rfl⟩
      · rintro ⟨inner, part', ⟨its', rfl, rfl⟩, hp, rfl⟩
        rw [hbare _ its, hb] at hp
        obtain rfl := Except.ok.inj hp
        exact ⟨_, rfl, rfl⟩

/-! ## Reading -/

/-- The text after the blanks, where the layout skips any. -/
def after (layout : Layout) (s : List Char) : List Char := (sourceGrammar.gap layout s).2

@[simp] theorem after_joined (s : List Char) : after .joined s = s := rfl

@[simp] theorem after_hidden (s : List Char) : after .hidden s = s := rfl

theorem after_spaced (s : List Char) : after .spaced s = (Trivia.split s).2 := rfl

theorem outside_ne_hidden {layout : Layout} (style : RuleStyle) (h : layout ≠ .hidden) :
    style.outside layout ≠ .hidden := by
  cases style <;> first | exact h | exact Layout.noConfusion

theorem inside_ne_hidden {layout : Layout} {style : RuleStyle} (h : style.outside layout ≠ .hidden)
    (hword : style ≠ .word) : style.inside layout ≠ .hidden := by
  cases style <;> first | exact h | exact Layout.noConfusion | exact absurd rfl hword

/-- The expression matches at the start of `s` and leaves `rest`; `items` are what is built from the
match, without spans. -/
def Reads (layout : Layout) (e : Peg Rule) (s : List Char) (items : List Item)
    (rest : List Char) : Prop :=
  ∃ parts, sourceGrammar.Matches layout e s parts rest ∧ Builds parts items

section Reads

variable {layout : Layout} {e a b : Peg Rule} {s rest : List Char} {items : List Item}

theorem Reads.accepts (h : Reads layout e s items rest) : sourceGrammar.Accepts layout e s rest := by
  obtain ⟨parts, hm, -⟩ := h
  exact ⟨parts, hm⟩

/-- Blanks make no items. -/
theorem itemsOf_gap (layout : Layout) (s : List Char) (offset : Nat) :
    Tree.itemsOf offset (sourceGrammar.gap layout s).1 = .ok [] := by
  cases layout <;> rfl

theorem builds_gap {layout : Layout} {s : List Char} {items : List Item} :
    Builds (sourceGrammar.gap layout s).1 items ↔ items = [] := by
  cases layout with
  | spaced => exact builds_text
  | joined | hidden => exact builds_nil

theorem reads_empty : Reads layout .empty s items rest ↔ items = [] ∧ rest = s := by
  constructor
  · rintro ⟨parts, hm, hb⟩
    obtain ⟨rfl, rfl⟩ := Grammar.matches_empty.1 hm
    exact ⟨builds_nil.1 hb, rfl⟩
  · rintro ⟨rfl, rfl⟩
    exact ⟨[], Grammar.matches_empty.2 ⟨rfl, rfl⟩, builds_nil.2 rfl⟩

theorem reads_lit {w : String} :
    Reads layout (.lit w) s items rest ↔ items = [] ∧ s = w.toList ++ rest := by
  constructor
  · rintro ⟨parts, hm, hb⟩
    obtain ⟨rfl, rfl⟩ := Grammar.matches_lit.1 hm
    exact ⟨builds_text.1 hb, rfl⟩
  · rintro ⟨rfl, rfl⟩
    exact ⟨_, Grammar.matches_lit.2 ⟨rfl, rfl⟩, builds_text.2 rfl⟩

theorem reads_seq : Reads layout (a ++ b) s items rest ↔
    ∃ front r back, Reads layout a s front r ∧ Reads layout b (after layout r) back rest ∧
      items = front ++ back := by
  constructor
  · rintro ⟨parts, hm, hb⟩
    obtain ⟨ps, r, qs, hp, hq, rfl⟩ := Grammar.matches_seq.1 hm
    obtain ⟨_, back, hf, hback, rfl⟩ := builds_append.1 hb
    obtain ⟨front, _, hfront, hgap, rfl⟩ := builds_append.1 hf
    obtain rfl := builds_gap.1 hgap
    exact ⟨front, r, back, ⟨ps, hp, hfront⟩, ⟨qs, hq, hback⟩, by simp⟩
  · rintro ⟨front, r, back, ⟨ps, hp, hfront⟩, ⟨qs, hq, hback⟩, rfl⟩
    refine ⟨_, Grammar.matches_seq.2 ⟨ps, r, qs, hp, hq, rfl⟩, ?_⟩
    exact builds_append.2 ⟨front, back,
      builds_append.2 ⟨front, [], hfront, builds_gap.2 rfl, by simp⟩, hback, rfl⟩

theorem reads_alt : Reads layout (a / b) s items rest ↔
    Reads layout a s items rest ∨
      sourceGrammar.Fails layout a s ∧ Reads layout b s items rest := by
  constructor
  · rintro ⟨parts, hm, hb⟩
    rcases Grammar.matches_alt.1 hm with hm | ⟨hf, hm⟩
    · exact .inl ⟨parts, hm, hb⟩
    · exact .inr ⟨hf, parts, hm, hb⟩
  · rintro (⟨parts, hm, hb⟩ | ⟨hf, parts, hm, hb⟩)
    · exact ⟨parts, Grammar.matches_alt.2 (.inl hm), hb⟩
    · exact ⟨parts, Grammar.matches_alt.2 (.inr ⟨hf, hm⟩), hb⟩

theorem reads_opt : Reads layout (.opt a) s items rest ↔
    Reads layout a s items rest ∨
      sourceGrammar.Fails layout a s ∧ items = [] ∧ rest = s := by
  constructor
  · rintro ⟨parts, hm, hb⟩
    rcases Grammar.matches_opt.1 hm with hm | ⟨hf, rfl, rfl⟩
    · exact .inl ⟨parts, hm, hb⟩
    · exact .inr ⟨hf, builds_nil.1 hb, rfl⟩
  · rintro (⟨parts, hm, hb⟩ | ⟨hf, rfl, rfl⟩)
    · exact ⟨parts, Grammar.matches_opt.2 (.inl hm), hb⟩
    · exact ⟨[], Grammar.matches_opt.2 (.inr ⟨hf, rfl, rfl⟩), builds_nil.2 rfl⟩

theorem reads_many : Reads layout (.many a) s items rest ↔
    (sourceGrammar.Fails layout a s ∧ items = [] ∧ rest = s) ∨
    ∃ front r back, Reads layout a s front r ∧ Reads layout (.more a) r back rest ∧
      items = front ++ back := by
  constructor
  · rintro ⟨parts, hm, hb⟩
    rcases Grammar.matches_many.1 hm with ⟨hf, rfl, rfl⟩ | ⟨ps, r, qs, hp, hq, rfl⟩
    · exact .inl ⟨hf, builds_nil.1 hb, rfl⟩
    · obtain ⟨front, back, hfront, hback, rfl⟩ := builds_append.1 hb
      exact .inr ⟨front, r, back, ⟨ps, hp, hfront⟩, ⟨qs, hq, hback⟩, rfl⟩
  · rintro (⟨hf, rfl, rfl⟩ | ⟨front, r, back, ⟨ps, hp, hfront⟩, ⟨qs, hq, hback⟩, rfl⟩)
    · exact ⟨[], Grammar.matches_many.2 (.inl ⟨hf, rfl, rfl⟩), builds_nil.2 rfl⟩
    · exact ⟨_, Grammar.matches_many.2 (.inr ⟨ps, r, qs, hp, hq, rfl⟩),
        builds_append.2 ⟨front, back, hfront, hback, rfl⟩⟩

theorem reads_more : Reads layout (.more a) s items rest ↔
    (sourceGrammar.Fails layout a (after layout s) ∧ items = [] ∧ rest = s) ∨
    ∃ front r back, Reads layout a (after layout s) front r ∧ Reads layout (.more a) r back rest ∧
      items = front ++ back := by
  constructor
  · rintro ⟨parts, hm, hb⟩
    rcases Grammar.matches_more.1 hm with ⟨hf, rfl, rfl⟩ | ⟨ps, r, qs, hp, hq, rfl⟩
    · exact .inl ⟨hf, builds_nil.1 hb, rfl⟩
    · obtain ⟨_, back, hf, hback, rfl⟩ := builds_append.1 hb
      obtain ⟨_, front, hgap, hfront, rfl⟩ := builds_append.1 hf
      obtain rfl := builds_gap.1 hgap
      exact .inr ⟨front, r, back, ⟨ps, hp, hfront⟩, ⟨qs, hq, hback⟩, by simp⟩
  · rintro (⟨hf, rfl, rfl⟩ | ⟨front, r, back, ⟨ps, hp, hfront⟩, ⟨qs, hq, hback⟩, rfl⟩)
    · exact ⟨[], Grammar.matches_more.2 (.inl ⟨hf, rfl, rfl⟩), builds_nil.2 rfl⟩
    · refine ⟨_, Grammar.matches_more.2 (.inr ⟨ps, r, qs, hp, hq, rfl⟩), ?_⟩
      exact builds_append.2 ⟨front, back,
        builds_append.2 ⟨[], front, builds_gap.2 rfl, hfront, by simp⟩, hback, rfl⟩

theorem reads_not : Reads layout (.not a) s items rest ↔
    sourceGrammar.Fails layout a s ∧ items = [] ∧ rest = s := by
  constructor
  · rintro ⟨parts, hm, hb⟩
    obtain ⟨hf, rfl, rfl⟩ := Grammar.matches_not.1 hm
    exact ⟨hf, builds_nil.1 hb, rfl⟩
  · rintro ⟨hf, rfl, rfl⟩
    exact ⟨[], Grammar.matches_not.2 ⟨hf, rfl, rfl⟩, builds_nil.2 rfl⟩

theorem Reads.text (h : Reads layout e s items rest) : ∃ text, s = text ++ rest := by
  obtain ⟨parts, hm, -⟩ := h
  exact ⟨_, (hm.text sourceGrammar_blanksSplit).symm⟩

/-- A rule that is visible makes one item of what its expression reads. -/
theorem reads_rule {r : Rule} (hr : r.style.outside layout ≠ .hidden) :
    Reads layout (.rule r) s items rest ↔
      ∃ text inner part, s = text ++ rest ∧ Reads (r.style.inside layout) r.body s inner rest ∧
        r.build default (String.ofList text) inner = .ok part ∧ items = [⟨r, default, part⟩] := by
  have hclose : ∀ parts, sourceGrammar.close r layout parts = [.node r parts] := fun parts =>
    if_neg hr
  constructor
  · rintro ⟨parts, hm, hb⟩
    obtain ⟨inner, hi, rfl⟩ := Grammar.matches_rule.1 hm
    rw [hclose] at hb
    obtain ⟨its, part, hits, hpart, rfl⟩ := builds_node.1 hb
    exact ⟨_, its, part, (hi.text sourceGrammar_blanksSplit).symm, ⟨inner, hi, hits⟩, hpart, rfl⟩
  · rintro ⟨text, its, part, rfl, ⟨inner, hi, hits⟩, hpart, rfl⟩
    refine ⟨_, Grammar.matches_rule.2 ⟨inner, hi, rfl⟩, ?_⟩
    rw [hclose]
    have htext : Tree.charsOf inner = text :=
      List.append_cancel_right (hi.text sourceGrammar_blanksSplit)
    exact builds_node.2 ⟨its, part, hits, by rw [htext]; exact hpart, rfl⟩

/-- The rules that stand in the expression itself. -/
def Peg.rules : Peg Rule → List Rule
  | .empty | .one _ | .lit _ => []
  | .seq a b | .alt a b => a.rules ++ b.rules
  | .opt a | .many a | .more a | .not a => a.rules
  | .rule r => [r]

/-- What holds of every item that a visible rule makes, if it holds of the items inside, holds of all
items that are read; and where rules are visible, the items are made by rules of the expression. -/
theorem Reads.all {P : Item → Prop}
    (step : ∀ (r : Rule) (layout : Layout) (text rest : List Char) (inner : List Item) (part : Part),
      r.style.outside layout ≠ .hidden →
      Reads (r.style.inside layout) r.body (text ++ rest) inner rest →
      (∀ i ∈ inner, P i ∧ (r.style.inside layout ≠ .hidden → i.rule ∈ r.body.rules)) →
      r.build default (String.ofList text) inner = .ok part → P ⟨r, default, part⟩)
    (h : Reads layout e s items rest) :
    ∀ i ∈ items, P i ∧ (layout ≠ .hidden → i.rule ∈ e.rules) := by
  obtain ⟨parts, hm, hb⟩ := h
  induction hm using Grammar.Matches.induct generalizing items with
  | empty | optNone | manyStop | moreStop | not => simp [builds_nil.1 hb]
  | one | lit => simp [builds_text.1 hb]
  | seq _ _ iha ihb =>
    obtain ⟨_, back, hf, hback, rfl⟩ := builds_append.1 hb
    obtain ⟨front, _, hfront, hgap, rfl⟩ := builds_append.1 hf
    obtain rfl := builds_gap.1 hgap
    intro i hi
    rw [List.append_nil, List.mem_append] at hi
    rcases hi with hi | hi
    · obtain ⟨hP, hrule⟩ := iha hfront i hi
      exact ⟨hP, fun hl => List.mem_append_left _ (hrule hl)⟩
    · obtain ⟨hP, hrule⟩ := ihb hback i hi
      exact ⟨hP, fun hl => List.mem_append_right _ (hrule hl)⟩
  | altFirst _ ih =>
    intro i hi
    obtain ⟨hP, hrule⟩ := ih hb i hi
    exact ⟨hP, fun hl => List.mem_append_left _ (hrule hl)⟩
  | altSecond _ _ ih =>
    intro i hi
    obtain ⟨hP, hrule⟩ := ih hb i hi
    exact ⟨hP, fun hl => List.mem_append_right _ (hrule hl)⟩
  | optSome _ ih => exact ih hb
  | manyTurn _ _ iha ihmore =>
    obtain ⟨front, back, hfront, hback, rfl⟩ := builds_append.1 hb
    intro i hi
    exact (List.mem_append.1 hi).elim (iha hfront i) (ihmore hback i)
  | moreTurn _ _ iha ihmore =>
    obtain ⟨_, back, hf, hback, rfl⟩ := builds_append.1 hb
    obtain ⟨_, front, hgap, hfront, rfl⟩ := builds_append.1 hf
    obtain rfl := builds_gap.1 hgap
    intro i hi
    rw [List.nil_append, List.mem_append] at hi
    exact hi.elim (iha hfront i) (ihmore hback i)
  | @rule layout r s inner rest hi ih =>
    intro i hitem
    by_cases hidden : r.style.outside layout = .hidden
    · have hclose : sourceGrammar.close r layout inner = inner := if_pos hidden
      rw [hclose] at hb
      exact ⟨(ih hb i hitem).1, fun hl => absurd hidden (outside_ne_hidden _ hl)⟩
    · have hclose : sourceGrammar.close r layout inner = [.node r inner] := if_neg hidden
      rw [hclose] at hb
      obtain ⟨its, part, hits, hpart, rfl⟩ := builds_node.1 hb
      have htext := hi.text sourceGrammar_blanksSplit
      rw [List.mem_singleton.1 hitem]
      exact ⟨step r layout _ rest its part hidden ⟨inner, by rw [htext]; exact hi, hits⟩ (ih hits)
        hpart, fun _ => List.mem_singleton.2 rfl⟩

/-- Where rules are visible, items are made by the rules of the expression. -/
theorem Reads.rule_mem (h : Reads layout e s items rest) (hl : layout ≠ .hidden) :
    ∀ i ∈ items, i.rule ∈ e.rules := fun i hi =>
  (h.all (P := fun _ => True) (fun _ _ _ _ _ _ _ _ _ _ => trivial) i hi).2 hl

/-- Induction over the turns of a repetition. -/
theorem Reads.more_induct {motive : List Char → List Item → List Char → Prop}
    (h : Reads layout (.more a) s items rest)
    (stop : ∀ s, sourceGrammar.Fails layout a (after layout s) → motive s [] s)
    (step : ∀ s front r back rest, Reads layout a (after layout s) front r →
      Reads layout (.more a) r back rest → motive r back rest → motive s (front ++ back) rest) :
    motive s items rest := by
  obtain ⟨parts, hm, hb⟩ := h
  induction hm using Grammar.Matches.more_induct generalizing items with
  | stop hf =>
    rw [builds_nil.1 hb]
    exact stop _ hf
  | turn ha hmore ih =>
    obtain ⟨_, back, hf, hback, rfl⟩ := builds_append.1 hb
    obtain ⟨_, front, hgap, hfront, rfl⟩ := builds_append.1 hf
    obtain rfl := builds_gap.1 hgap
    exact step _ front _ back _ ⟨_, ha, hfront⟩ ⟨_, hmore, hback⟩ (ih hback)

/-- Without blanks between the turns, a repetition is the same at its start as later. -/
theorem reads_many_iff_more (hl : layout ≠ .spaced) :
    Reads layout (.many a) s items rest ↔ Reads layout (.more a) s items rest := by
  have hafter : after layout s = s := by
    cases layout with
    | spaced => exact absurd rfl hl
    | joined | hidden => rfl
  rw [reads_many, reads_more, hafter]

/-! ## Words -/

/-- Whether all rules in the expression are words. -/
def Peg.isWordy : Peg Rule → Bool
  | .empty | .one _ | .lit _ => true
  | .seq a b | .alt a b => a.isWordy && b.isWordy
  | .opt a | .many a | .more a | .not a => a.isWordy
  | .rule r => r.style = .word

theorem isWordy_body {r : Rule} (h : r.style = .word) : Peg.isWordy r.body = true := by
  cases r <;> first | rfl | cases h

/-- Inside a word nothing is visible. -/
theorem builds_of_hidden {parts : List (Tree Rule)}
    (h : sourceGrammar.Matches .hidden e s parts rest) (he : e.isWordy = true) : Builds parts [] := by
  have hnil : ∀ {ps qs : List (Tree Rule)}, Builds ps [] → Builds qs [] → Builds (ps ++ qs) [] :=
    fun hp hq => builds_append.2 ⟨[], [], hp, hq, rfl⟩
  generalize hl : Layout.hidden = layout at h
  induction h using Grammar.Matches.induct with
  | empty | optNone | manyStop | moreStop | not => exact builds_nil.2 rfl
  | one | lit => exact builds_text.2 rfl
  | seq _ _ iha ihb =>
    simp only [Peg.isWordy, Bool.and_eq_true] at he
    exact hnil (hnil (iha he.1 hl) (builds_gap.2 rfl)) (ihb he.2 hl)
  | altFirst _ ih =>
    simp only [Peg.isWordy, Bool.and_eq_true] at he
    exact ih he.1 hl
  | altSecond _ _ ih =>
    simp only [Peg.isWordy, Bool.and_eq_true] at he
    exact ih he.2 hl
  | optSome _ ih => exact ih he hl
  | manyTurn _ _ iha ihmore => exact hnil (iha he hl) (ihmore he hl)
  | moreTurn _ _ iha ihmore => exact hnil (hnil (builds_gap.2 rfl) (iha he hl)) (ihmore he hl)
  | @rule _ r _ inner _ _ ih =>
    subst hl
    have hr : r.style = .word := of_decide_eq_true he
    have hstyle : sourceGrammar.style r = .word := hr
    have hclose : sourceGrammar.close r .hidden inner = inner := if_pos (by rw [hstyle]; rfl)
    rw [hclose]
    exact ih (isWordy_body hr) (by rw [hstyle]; rfl)

/-- A word that is visible makes one item of its text. -/
theorem reads_word {r : Rule} (hr : r.style = .word) (hl : layout ≠ .hidden) :
    Reads layout (.rule r) s items rest ↔
      ∃ text part, s = text ++ rest ∧ sourceGrammar.Accepts .hidden r.body s rest ∧
        r.build default (String.ofList text) [] = .ok part ∧ items = [⟨r, default, part⟩] := by
  rw [reads_rule (by rw [hr]; exact hl), hr]
  constructor
  · rintro ⟨text, inner, part, hs, ⟨parts, hm, hb⟩, hpart, rfl⟩
    have h0 := builds_of_hidden hm (isWordy_body hr)
    obtain rfl : inner = [] := by
      obtain ⟨its, hits, rfl⟩ := hb
      obtain ⟨its', hits', h'⟩ := h0
      rw [hits] at hits'
      obtain rfl := Except.ok.inj hits'
      exact h'.symm
    exact ⟨text, part, hs, ⟨parts, hm⟩, hpart, rfl⟩
  · rintro ⟨text, part, hs, ⟨parts, hm⟩, hpart, rfl⟩
    exact ⟨text, [], part, hs, ⟨parts, hm, builds_of_hidden hm (isWordy_body hr)⟩, hpart, rfl⟩

end Reads

/-! ## Entry points -/

/-- An entry reads the nodes among the items of the tree that it matches. -/
theorem readChars_eq_ok_iff_matches {entry : Entry} {s : List Char} {nodes : List Node} :
    readChars entry s = .ok nodes ↔
      ∃ trees rest items, sourceGrammar.Matches .spaced (.rule entry.rule) s trees rest ∧
        Tree.itemsOf 0 trees = .ok items ∧ nodes = genericsOf items := by
  unfold readChars
  constructor
  · intro h
    split at h
    · cases h
    next trees rest hparse =>
    split at h
    · cases h
    next items hitems => exact ⟨trees, rest, items, parse_eq_some.1 hparse, hitems, (Except.ok.inj h).symm⟩
  · rintro ⟨trees, rest, items, hmatch, hitems, rfl⟩
    rw [parse_eq_some.2 hmatch]
    simp only [hitems]

theorem reads_of_readChars {entry : Entry} {s : List Char} {nodes : List Node}
    (h : readChars entry s = .ok nodes) :
    ∃ items rest, Reads .spaced (.rule entry.rule) s items rest ∧
      genericsOf items = nodes.map Node.eraseSpans := by
  obtain ⟨trees, rest, items, hmatch, hitems, rfl⟩ := readChars_eq_ok_iff_matches.1 h
  exact ⟨_, rest, ⟨trees, hmatch, items, hitems, rfl⟩, genericsOf_mapSpans _ items⟩

/-- What an entry rule reads is what reading gives, up to spans. -/
theorem readChars_of_reads {entry : Entry} {s rest : List Char} {items : List Item}
    (h : Reads .spaced (.rule entry.rule) s items rest) :
    ∃ nodes, readChars entry s = .ok nodes ∧ nodes.map Node.eraseSpans = genericsOf items := by
  obtain ⟨trees, hmatch, items, hitems, rfl⟩ := h
  exact ⟨genericsOf items, readChars_eq_ok_iff_matches.2 ⟨trees, rest, items, hmatch, hitems, rfl⟩,
    (genericsOf_mapSpans _ items).symm⟩

end SwiftMacro
