import SwiftMacro.Proofs.Firsts
/-!
# Reading up to blanks

A sequence skips the blanks behind its parts, so what an expression leaves depends on how it ended.
`ReadsPast` leaves that open: it says what is left only up to blanks, which is all that the next part
of a sequence sees. The main lemma is `readsPast_commaSeparated`, on lists with commas between.
-/

namespace SwiftMacro

open Peg

/-- The expression reads the items at the start of `s`, and what it leaves is `rest`, up to blanks at
its start. -/
def ReadsPast (layout : Layout) (e : Peg Rule) (s : List Char) (items : List Item)
    (rest : List Char) : Prop :=
  ∃ r, Reads layout e s items r ∧ after layout r = after layout rest

section

variable {layout : Layout} {e a b : Peg Rule} {s r rest : List Char} {items front back : List Item}

theorem Reads.past (h : Reads layout e s items rest) : ReadsPast layout e s items rest :=
  ⟨rest, h, rfl⟩

/-- Where no blanks are skipped, nothing is left open. -/
theorem readsPast_joined : ReadsPast .joined e s items rest ↔ Reads .joined e s items rest := by
  constructor
  · rintro ⟨r, hr, rfl⟩
    exact hr
  · exact Reads.past

theorem ReadsPast.of_after {rest' : List Char} (h : ReadsPast layout e s items rest)
    (hr : after layout rest = after layout rest') : ReadsPast layout e s items rest' := by
  obtain ⟨r, hread, heq⟩ := h
  exact ⟨r, hread, heq.trans hr⟩

theorem readsPast_lit (w : String) : ReadsPast layout (.lit w) (w.toList ++ rest) [] rest :=
  Reads.past (reads_lit.2 ⟨rfl, rfl⟩)

theorem ReadsPast.seq (ha : ReadsPast layout a s front r)
    (hb : ReadsPast layout b (after layout r) back rest) :
    ReadsPast layout (a ++ b) s (front ++ back) rest := by
  obtain ⟨r', hr', heq⟩ := ha
  obtain ⟨q, hq, hrest⟩ := hb
  exact ⟨q, reads_seq.2 ⟨front, r', back, hr', heq ▸ hq, rfl⟩, hrest⟩

/-- The next part starts behind the blanks. -/
theorem ReadsPast.next {r' : List Char} (ha : ReadsPast layout a s front r)
    (hr : after layout r = r') (hb : ReadsPast layout b r' back rest) :
    ReadsPast layout (a ++ b) s (front ++ back) rest := by
  subst hr
  exact ha.seq hb

/-- A word at the end leaves nothing open. -/
theorem ReadsPast.seq_lit {w : String} (ha : ReadsPast layout a s items r)
    (hr : after layout r = w.toList ++ rest) : Reads layout (a ++ .lit w) s items rest := by
  obtain ⟨r', hr', heq⟩ := ha
  exact reads_seq.2 ⟨items, r', [], hr', reads_lit.2 ⟨rfl, heq.trans hr⟩, by simp⟩

theorem ReadsPast.alt_left (h : ReadsPast layout a s items rest) :
    ReadsPast layout (a / b) s items rest := by
  obtain ⟨r, hr, heq⟩ := h
  exact ⟨r, reads_alt.2 (.inl hr), heq⟩

theorem ReadsPast.alt_right (ha : sourceGrammar.Fails layout a s)
    (h : ReadsPast layout b s items rest) : ReadsPast layout (a / b) s items rest := by
  obtain ⟨r, hr, heq⟩ := h
  exact ⟨r, reads_alt.2 (.inr ⟨ha, hr⟩), heq⟩

theorem ReadsPast.opt (h : ReadsPast layout a s items rest) :
    ReadsPast layout (.opt a) s items rest := by
  obtain ⟨r, hr, heq⟩ := h
  exact ⟨r, reads_opt.2 (.inl hr), heq⟩

theorem readsPast_opt_none (h : sourceGrammar.Fails layout a s) :
    ReadsPast layout (.opt a) s [] s :=
  Reads.past (reads_opt.2 (.inr ⟨h, rfl, rfl⟩))

theorem readsPast_more_nil (h : sourceGrammar.Fails layout a (after layout s)) :
    ReadsPast layout (.more a) s [] s :=
  Reads.past (reads_more.2 (.inl ⟨h, rfl, rfl⟩))

theorem readsPast_many_nil (h : sourceGrammar.Fails layout a s) :
    ReadsPast layout (.many a) s [] s :=
  Reads.past (reads_many.2 (.inl ⟨h, rfl, rfl⟩))

/-- Blanks in front of the next turn make no difference. -/
theorem ReadsPast.more_of_after (h : ReadsPast layout (.more a) r items rest)
    (hr : after layout s = after layout r) : ReadsPast layout (.more a) s items rest := by
  obtain ⟨q, hq, heq⟩ := h
  rcases reads_more.1 hq with ⟨hf, rfl, rfl⟩ | ⟨front, r', back, hfront, hback, rfl⟩
  · exact ⟨s, reads_more.2 (.inl ⟨hr ▸ hf, rfl, rfl⟩), hr.trans heq⟩
  · exact ⟨q, reads_more.2 (.inr ⟨front, r', back, hr ▸ hfront, hback, rfl⟩), heq⟩

theorem ReadsPast.more_cons (ha : ReadsPast layout a (after layout s) front r)
    (h : ReadsPast layout (.more a) r back rest) :
    ReadsPast layout (.more a) s (front ++ back) rest := by
  obtain ⟨r', hr', heq⟩ := ha
  obtain ⟨q, hq, hrest⟩ := h.more_of_after heq
  exact ⟨q, reads_more.2 (.inr ⟨front, r', back, hr', hq, rfl⟩), hrest⟩

theorem after_after_layout (layout : Layout) (s : List Char) :
    after layout (after layout s) = after layout s := by
  cases layout with
  | spaced => exact after_after s
  | joined | hidden => rfl

/-- Once the blanks are skipped, a repetition is the same at its start as later. -/
theorem ReadsPast.many_of_more (h : ReadsPast layout (.more a) s items rest) :
    ReadsPast layout (.many a) (after layout s) items rest := by
  obtain ⟨q, hq, heq⟩ := h
  rcases reads_more.1 hq with ⟨hf, rfl, rfl⟩ | ⟨front, r', back, hfront, hback, rfl⟩
  · exact ⟨_, reads_many.2 (.inl ⟨hf, rfl, rfl⟩), (after_after_layout layout q).trans heq⟩
  · exact ⟨q, reads_many.2 (.inr ⟨front, r', back, hfront, hback, rfl⟩), heq⟩

/-- The other way round, a repetition behind blanks goes on from before them. -/
theorem ReadsPast.more_of_many (h : ReadsPast layout (.many a) (after layout s) items rest) :
    ReadsPast layout (.more a) s items rest := by
  obtain ⟨q, hq, heq⟩ := h
  rcases reads_many.1 hq with ⟨hf, rfl, rfl⟩ | ⟨front, r', back, hfront, hback, rfl⟩
  · exact ⟨s, reads_more.2 (.inl ⟨hf, rfl, rfl⟩), (after_after_layout layout s).symm.trans heq⟩
  · exact ⟨q, reads_more.2 (.inr ⟨front, r', back, hfront, hback, rfl⟩), heq⟩

/-- A rule that takes on the layout of its place of use. -/
theorem reads_plain {r : Rule} (hr : r.style = .plain) (hl : layout ≠ .hidden) :
    Reads layout (.rule r) s items rest ↔
      ∃ text inner part, s = text ++ rest ∧ Reads layout r.body s inner rest ∧
        r.build default (String.ofList text) inner = .ok part ∧ items = [⟨r, default, part⟩] := by
  rw [reads_rule (by rw [hr]; exact hl), hr]
  rfl

/-- A rule in the layout of its place of use. -/
theorem ReadsPast.plain {r : Rule} {part : Part} (hr : r.style = .plain) (hl : layout ≠ .hidden)
    (h : ReadsPast layout r.body s items rest)
    (hb : ∀ text, r.build default text items = .ok part) :
    ReadsPast layout (.rule r) s [⟨r, default, part⟩] rest := by
  obtain ⟨q, hq, heq⟩ := h
  obtain ⟨text, htext⟩ := hq.text
  exact ⟨q, (reads_plain hr hl).2 ⟨text, items, part, htext, hq, hb _, rfl⟩, heq⟩

/-- A rule whose items decide what it makes. -/
theorem Reads.rule {r : Rule} {part : Part} (hr : r.style.outside layout ≠ .hidden)
    (h : Reads (r.style.inside layout) r.body s items rest)
    (hb : ∀ text, r.build default text items = .ok part) :
    Reads layout (.rule r) s [⟨r, default, part⟩] rest := by
  obtain ⟨text, htext⟩ := h.text
  exact (reads_rule hr).2 ⟨text, items, part, htext, h, hb _, rfl⟩

end

/-! ## Repetitions -/

/-- Items one after the other, each with its blanks. -/
theorem readsPast_more_flatMap {α : Type} {item : Peg Rule} {text : α → List Char} {make : α → Item}
    {s : List Char} (xs : List α)
    (hread : ∀ x ∈ xs, ∀ s, ReadsPast .spaced item (after .spaced (text x ++ s)) [make x] s)
    (hs : sourceGrammar.Fails .spaced item (after .spaced s)) :
    ReadsPast .spaced (.more item) (xs.flatMap text ++ s) (xs.map make) s := by
  induction xs with
  | nil => exact readsPast_more_nil hs
  | cons x xs ih =>
    have hrest := ih fun y hy => hread y (List.mem_cons_of_mem _ hy)
    rw [List.flatMap_cons, List.append_assoc]
    exact (hread x List.mem_cons_self _).more_cons hrest

/-! ## Lists with commas -/

theorem toList_joinWith_cons (separator w : String) (ws : List String) :
    (joinWith separator (w :: ws)).toList =
      w.toList ++ ws.flatMap fun v => separator.toList ++ v.toList := by
  induction ws generalizing w with
  | nil => simp [joinWith]
  | cons v ws ih => simp [joinWith, ih]

theorem fails_lit_of_head {layout : Layout} {c : Char} {w : String} {s : List Char}
    (hw : w.toList.head? = some c) (h : Stops (· == c) s) : sourceGrammar.Fails layout (.lit w) s := by
  refine Grammar.fails_lit.2 ?_
  rintro ⟨t, rfl⟩
  have := h c (by simp [hw])
  simp at this

/-- One more item behind a comma. -/
theorem ReadsPast.comma {item : Peg Rule} {s rest : List Char} {i : Item}
    (hs : after .spaced s = s) (h : ReadsPast .spaced item s [i] rest) :
    ReadsPast .spaced (.lit "," ++ item) (after .spaced (',' :: ' ' :: s)) [i] rest := by
  have hblank : after .spaced (' ' :: s) = s := by rw [after_space, hs]
  rw [after_solid rfl]
  exact (readsPast_lit ",").next hblank h

theorem fails_comma {item : Peg Rule} {s : List Char} (h : Stops (· == ',') s) :
    sourceGrammar.Fails .spaced (.lit "," ++ item) s :=
  Grammar.fails_seq.2 (.inl (fails_lit_of_head (c := ',') rfl h))

section Comma

variable {α : Type} {item : Peg Rule} {text : α → List Char} {make : α → Item} {s : List Char}
  (Follows : List Char → Prop)

/-- The items behind the first one, and more of them. -/
theorem readsPast_more_comma (xs : List α)
    (hread : ∀ x ∈ xs, ∀ s, Follows s → ReadsPast .spaced item (text x ++ s) [make x] s)
    (hsolid : ∀ x ∈ xs, ∀ s, after .spaced (text x ++ s) = text x ++ s)
    (hcomma : ∀ s, Follows (',' :: s)) (hs : Follows s) {back : List Item} {rest : List Char}
    (hmore : ReadsPast .spaced (.more (.lit "," ++ item)) s back rest) :
    ReadsPast .spaced (.more (.lit "," ++ item))
      (xs.flatMap (fun x => ',' :: ' ' :: text x) ++ s) (xs.map make ++ back) rest := by
  induction xs with
  | nil => exact hmore
  | cons x xs ih =>
    have hrest := ih (fun y hy => hread y (List.mem_cons_of_mem _ hy))
      (fun y hy => hsolid y (List.mem_cons_of_mem _ hy))
    have hfollows : Follows (xs.flatMap (fun x => ',' :: ' ' :: text x) ++ s) := by
      cases xs with
      | nil => exact hs
      | cons y ys => exact hcomma _
    have hturn := (hread x List.mem_cons_self _ hfollows).comma (hsolid x List.mem_cons_self _)
    rw [List.flatMap_cons, List.append_assoc]
    exact hturn.more_cons hrest

/-- A list of at least one item with commas between. -/
theorem readsPast_commaSeparated (x : α) (xs : List α)
    (hread : ∀ y ∈ x :: xs, ∀ s, Follows s → ReadsPast .spaced item (text y ++ s) [make y] s)
    (hsolid : ∀ y ∈ x :: xs, ∀ s, after .spaced (text y ++ s) = text y ++ s)
    (hcomma : ∀ s, Follows (',' :: s)) (hs : Follows s)
    (hstop : Stops (· == ',') (after .spaced s)) :
    ReadsPast .spaced (Rule.commaSeparated item)
      (text x ++ xs.flatMap (fun y => ',' :: ' ' :: text y) ++ s) ((x :: xs).map make) s := by
  have hmore := readsPast_more_comma Follows xs (fun y hy => hread y (List.mem_cons_of_mem _ hy))
    (fun y hy => hsolid y (List.mem_cons_of_mem _ hy)) hcomma hs (readsPast_more_nil (fails_comma hstop))
  rw [List.append_nil] at hmore
  have hfollows : Follows (xs.flatMap (fun y => ',' :: ' ' :: text y) ++ s) := by
    cases xs with
    | nil => exact hs
    | cons y ys => exact hcomma _
  rw [List.append_assoc]
  exact (hread x List.mem_cons_self _ hfollows).seq hmore.many_of_more

end Comma

end SwiftMacro
