import SwiftMacro.Proofs.Chains
import SwiftMacro.Proofs.Placement
/-!
# The text of a node

The span of a node is exactly its source: reading the bytes that it covers, on their own, gives the
node again, moved to the start (`read_slices`). A node that a rule puts over its items covers what the
rule matched, and the match can be cut off there. An operand that grows over what follows it makes one
node for each step; each of these covers the beginning of a chain.
-/

namespace SwiftMacro

open Peg

/-! ## Where rules are tried -/

/-- Whether a rule whose nodes can be read on their own may stand at the very start. -/
def Peg.leads : Peg Rule → Bool
  | .seq a _ | .opt a | .many a => a.leads
  | .alt a b => a.leads || b.leads
  | .rule r => r.entry?.isSome
  | _ => false

/-- Whether the expression needs no blanks: its rules have a layout of their own, and only at its start
stands one whose nodes can be read on their own. -/
def Peg.isCompact : Peg Rule → Bool
  | .seq a b => a.isCompact && b.isCompact && !b.leads
  | .alt a b => a.isCompact && b.isCompact
  | .opt a => a.isCompact
  | .many a | .more a => a.isCompact && !a.leads
  | .rule r => r.style != .plain
  | _ => true

/-- A rule whose nodes can be read on their own is tried only where no blanks stand, and one without a
layout of its own only where blanks are skipped. -/
structure Tried (layout : Layout) (e : Peg Rule) (s : List Char) : Prop where
  settled : e.leads = true → after .spaced s = s
  compact : layout = .spaced ∨ e.isCompact = true

theorem leads_body {r : Rule} (h : r.entry? = none) : r.body.leads = false := by
  revert h
  cases r <;> decide

theorem isCompact_body {r : Rule} (h : r.style = .word ∨ r.style = .joined) :
    r.body.isCompact = true := by
  revert h
  cases r <;> decide

section Compact

variable {a b : Peg Rule}

theorem isCompact_seq : (Peg.seq a b).isCompact = true ↔
    a.isCompact = true ∧ b.isCompact = true ∧ b.leads = false := by
  simp [Peg.isCompact, and_assoc]

theorem isCompact_alt : (Peg.alt a b).isCompact = true ↔ a.isCompact = true ∧ b.isCompact = true := by
  simp [Peg.isCompact]

theorem isCompact_many : (Peg.many a).isCompact = true ↔ a.isCompact = true ∧ a.leads = false := by
  simp [Peg.isCompact]

end Compact

theorem Tried.spaced_of_plain {layout : Layout} {r : Rule} {s : List Char}
    (h : Tried layout (.rule r) s) (hr : r.style = .plain) : layout = .spaced := by
  have hplain : (Peg.rule r).isCompact = false := by simp [Peg.isCompact, hr]
  exact h.compact.resolve_right (by simp [hplain])

theorem handsDown_tried : HandsDown Tried where
  seq := by
    intro layout a b s h
    refine ⟨⟨h.settled, h.compact.imp_right fun hab => (isCompact_seq.1 hab).1⟩, fun t => ⟨fun hb => ?_,
      h.compact.imp_right fun hab => (isCompact_seq.1 hab).2.1⟩⟩
    -- The second part stands behind blanks that were skipped, or nothing in it is read on its own.
    rcases h.compact with rfl | hab
    · exact after_after t
    · rw [(isCompact_seq.1 hab).2.2] at hb
      cases hb
  alt := by
    intro layout a b s h
    refine ⟨⟨fun ha => h.settled ?_, ?_⟩, fun hb => h.settled ?_, ?_⟩
    · simp [Peg.leads, ha]
    · exact h.compact.imp_right fun hab => (isCompact_alt.1 hab).1
    · simp [Peg.leads, hb]
    · exact h.compact.imp_right fun hab => (isCompact_alt.1 hab).2
  opt h := ⟨h.settled, h.compact⟩
  many := by
    intro layout a s h
    refine ⟨⟨h.settled, ?_⟩, fun t => ⟨fun hlead => Bool.noConfusion hlead, h.compact⟩⟩
    exact h.compact.imp_right fun ha => (isCompact_many.1 ha).1
  more := by
    intro layout a s h
    refine ⟨⟨fun hlead => ?_, ?_⟩, fun t => ⟨fun hlead => Bool.noConfusion hlead, h.compact⟩⟩
    · rcases h.compact with rfl | ha
      · exact after_after s
      · rw [(isCompact_many.1 ha).2] at hlead
        cases hlead
    · exact h.compact.imp_right fun ha => (isCompact_many.1 ha).1
  rule := by
    intro layout r s h
    refine ⟨fun hbody => h.settled ?_, ?_⟩
    · cases hr : r.entry? with
      | none => rw [leads_body hr] at hbody; cases hbody
      | some entry => simp [Peg.leads, hr]
    · cases hstyle : r.style with
      | plain => exact .inl (h.spaced_of_plain hstyle)
      | word => exact .inr (isCompact_body (.inl hstyle))
      | joined => exact .inr (isCompact_body (.inr hstyle))
      | spaced => exact .inl rfl

/-- A rule without a layout of its own is matched where blanks are skipped. -/
theorem Tried.inside_eq {layout : Layout} {r : Rule} {s : List Char} (h : Tried layout (.rule r) s) :
    r.style.inside layout = r.style.inside .spaced := by
  cases hstyle : r.style with
  | plain => rw [h.spaced_of_plain hstyle]
  | word | joined | spaced => rfl

/-! ## Nodes and their text -/

/-- The node covers a part of the text, and what the entry for it reads from that part alone is the
same node, moved. -/
def Node.Sliced (text : List Char) (n : Node) : Prop :=
  ∃ before slice behind, text = before ++ slice ++ behind ∧
    n.span = ⟨byteLength before, byteLength before + byteLength slice⟩ ∧
    ∀ entry, n.kind.entry? = some entry →
      ∃ m, readChars entry slice = .ok [m] ∧ m.shift (byteLength before) = n

/-- The nodes of the item are sliced, with all that is below them, and cover the item, unless blanks may
stand behind them. -/
structure Item.Sliced (text : List Char) (i : Item) : Prop where
  nodes : ∀ n ∈ i.part.nodesIn, ∀ m ∈ n.preorder, m.Sliced text
  covers : i.rule.entry?.isSome = true → i.rule ≠ .expr → ∀ n ∈ i.part.nodesIn, n.span = i.span

/-- The item of a node ends where its text ends. -/
theorem itemsOf_node_span {c : Rule} {inner : List (Tree Rule)} {offset : Nat} {items : List Item}
    (h : Tree.itemsOf offset [.node c inner] = .ok items) :
    ∃ part, items = [⟨c, ⟨offset, offset + byteLength (Tree.charsOf [.node c inner])⟩, part⟩] ∧
      part.kind = c.partKind := by
  obtain ⟨front, back, hfront, hback, rfl⟩ := Tree.itemsOf_cons_eq_ok.1 h
  obtain ⟨_, part, -, hpart, rfl⟩ := Tree.items_node_eq_ok.1 hfront
  obtain rfl := Except.ok.inj hback
  exact ⟨part, by simp [Tree.charsOf, Tree.chars], kind_of_build hpart⟩

/-- A turn makes one item, which stands behind the blanks and ends where the turn does. -/
theorem itemsOf_turn {layout : Layout} {u : List Char} {c : Rule} {inner : List (Tree Rule)}
    {offset : Nat} {items : List Item}
    (h : Tree.itemsOf offset ((sourceGrammar.gap layout u).1 ++ [.node c inner]) = .ok items) :
    ∃ i, items = [i] ∧ i.rule = c ∧
      i.span.start = offset + byteLength (Tree.charsOf (sourceGrammar.gap layout u).1) ∧
      i.span.stop =
        offset + byteLength (Tree.charsOf ((sourceGrammar.gap layout u).1 ++ [.node c inner])) := by
  obtain ⟨blanks, last, hblanks, hlast, rfl⟩ := Tree.itemsOf_append_eq_ok.1 h
  rw [itemsOf_gap] at hblanks
  obtain rfl := Except.ok.inj hblanks
  obtain ⟨part, rfl, -⟩ := itemsOf_node_span hlast
  refine ⟨_, rfl, rfl, rfl, ?_⟩
  rw [Tree.charsOf_append, byteLength_append, ← Nat.add_assoc]

section Chain

variable {text : List Char} {d : Rule} {layout : Layout} {first turn : Peg Rule} {s y z : List Char}
  {ps qs : List (Tree Rule)}

/-- The items of a chain: one for its first part, and behind it those of its turns. -/
theorem IsChain.items_split (hchain : IsChain d layout first turn) {rest : List Char}
    (hmatch : sourceGrammar.Matches layout d.body s ps rest) {offset : Nat} {head : Item}
    {items : List Item} (hitems : Tree.itemsOf offset ps = .ok (head :: items)) :
    ∃ as z qs u back, sourceGrammar.Matches layout first s as z ∧ Turns layout turn z qs u ∧
      ps = as ++ qs ++ back ∧ (∃ t, back = [] ∨ back = (sourceGrammar.gap layout t).1) ∧
      Tree.itemsOf offset as = .ok [head] ∧
      Tree.itemsOf (offset + byteLength (Tree.charsOf as)) qs = .ok items := by
  obtain ⟨as, z, qs, u, back, hfirst, hturns, rfl, t, hback⟩ := hchain.split hmatch
  obtain ⟨c, trees, rfl, -⟩ := hchain.first hfirst
  obtain ⟨front, blanks, hfront, hblanks, heq⟩ := Tree.itemsOf_append_eq_ok.1 hitems
  obtain rfl : blanks = [] := by
    rcases hback with rfl | rfl
    · exact (Except.ok.inj hblanks).symm
    · rw [itemsOf_gap] at hblanks
      exact (Except.ok.inj hblanks).symm
  obtain rfl : head :: items = front := by rw [heq, List.append_nil]
  obtain ⟨heads, turns, hhead, hrest, heq⟩ := Tree.itemsOf_append_eq_ok.1 hfront
  obtain ⟨made, rfl, -⟩ := itemsOf_node_span hhead
  obtain ⟨rfl, rfl⟩ := List.cons.inj heq
  exact ⟨_, z, qs, u, back, hfirst, hturns, rfl, ⟨t, hback⟩, hhead, hrest⟩

/-- The operand that a chain starts from is a node that covers its item, or the leaf that the item
names. -/
theorem IsChain.sliced_base (hchain : IsChain d layout first turn) {entry : Entry}
    (hd : d.entry? = some entry) (hs : after .spaced s = s)
    (hfirst : sourceGrammar.Matches layout first s ps z)
    {before behind : List Char} (htext : text = before ++ Tree.charsOf ps ++ behind)
    {head : Item} (hhead : Tree.itemsOf (byteLength before) ps = .ok [head]) (hsliced : head.Sliced text)
    {base : Node} (hbase : Starts d head base)
    (hbuild : ∀ span text, d.build span text [head] = .ok (.node base)) :
    base.span = ⟨byteLength before, byteLength before + byteLength (Tree.charsOf ps)⟩ ∧
      ∀ m ∈ base.preorder, m.Sliced text := by
  obtain ⟨c, trees, rfl, hc⟩ := hchain.first hfirst
  obtain ⟨made, hmade, hkind⟩ := itemsOf_node_span hhead
  obtain rfl := (List.cons.inj hmade).1
  rcases hbase with rfl | ⟨-, hspan, hnone, hleaf⟩
  · obtain ⟨hread, hne⟩ := hc hkind.symm
    exact ⟨hsliced.covers hread hne base List.mem_cons_self, hsliced.nodes base List.mem_cons_self⟩
  · refine ⟨hspan, forall_preorder ⟨before, _, behind, htext, hspan, fun entry' hentry => ?_⟩
      (by simp [hnone])⟩
    rw [hleaf, hd] at hentry
    obtain rfl := Option.some.inj hentry
    have halone := hchain.alone hd hs hfirst (.nil z) (by rw [List.append_nil]; exact hhead) hbuild
    rwa [List.append_nil] at halone

/-- An operand that grows over the turns of a chain is sliced after each of them: it covers the beginning
of the chain up to there. -/
theorem IsChain.sliced_foldl (hchain : IsChain d layout first turn) {entry : Entry}
    (hd : d.entry? = some entry) (hs : after .spaced s = s)
    (hfirst : sourceGrammar.Matches layout first s ps z) (hturns : Turns layout turn z qs y)
    {before behind : List Char} (htext : text = before ++ Tree.charsOf (ps ++ qs) ++ behind)
    {head : Item} {rest : List Item} (hhead : Tree.itemsOf (byteLength before) ps = .ok [head])
    (hitems : Tree.itemsOf (byteLength before + byteLength (Tree.charsOf ps)) qs = .ok rest)
    {base : Node} {step : Node → Item → Node} (hstep : ∀ i ∈ rest, Grows d step i)
    (hbuild : ∀ front, front <+: rest → ∀ span text,
      d.build span text (head :: front) = .ok (.node (front.foldl step base)))
    (hspan : base.span = ⟨byteLength before, byteLength before + byteLength (Tree.charsOf ps)⟩)
    (hbase : ∀ m ∈ base.preorder, m.Sliced text) (hrest : ∀ i ∈ rest, i.Sliced text) :
    (rest.foldl step base).span =
        ⟨byteLength before, byteLength before + byteLength (Tree.charsOf (ps ++ qs))⟩ ∧
      ∀ m ∈ (rest.foldl step base).preorder, m.Sliced text := by
  induction hturns using Turns.snoc_induction generalizing behind rest with
  | nil =>
    obtain rfl := Except.ok.inj hitems
    rw [List.append_nil]
    exact ⟨hspan, hbase⟩
  | @snoc qs u ps' z' hdone hone ih =>
    obtain ⟨c, inner, rfl⟩ := hchain.turn hone
    have hall := Tree.itemsOf_append_eq_ok.2 ⟨[head], rest, hhead, hitems, rfl⟩
    obtain ⟨front, back, hfront, hback, rfl⟩ := Tree.itemsOf_append_eq_ok.1 hitems
    obtain ⟨i, rfl, -, hstart, hstop⟩ := itemsOf_turn hback
    have hlonger := hdone.snoc hone
    generalize (sourceGrammar.gap layout u).1 ++ [.node c inner] = ts at *
    have hmem : ∀ {j}, j ∈ front → j ∈ front ++ [i] := fun hj => List.mem_append_left _ hj
    have hearlier : text = before ++ Tree.charsOf (ps ++ qs) ++ (Tree.charsOf ts ++ behind) := by
      rw [htext]
      simp only [Tree.charsOf_append, List.append_assoc]
    obtain ⟨hspan, hsliced⟩ := ih hearlier hfront (fun j hj => hstep j (hmem hj))
      (fun f hf => hbuild f (hf.trans (List.prefix_append _ _))) fun j hj => hrest j (hmem hj)
    obtain ⟨hcover, hchildren, hkind, -⟩ := hstep i (by simp) (front.foldl step base)
    have hfold : (front ++ [i]).foldl step base = step (front.foldl step base) i := by simp
    have hnext : (step (front.foldl step base) i).span =
        ⟨byteLength before, byteLength before + byteLength (Tree.charsOf (ps ++ (qs ++ ts)))⟩ := by
      simp only [Tree.charsOf_append, byteLength_append] at hspan hstop ⊢
      rw [hcover, hspan]
      simp only [Span.cover, hstop, Span.mk.injEq]
      omega
    rw [hfold]
    -- Below the new node stand the operand before the turn and what the turn carries.
    refine ⟨hnext, forall_preorder ⟨before, _, behind, htext, hnext, fun entry' hentry => ?_⟩ ?_⟩
    · rw [hkind, hd] at hentry
      obtain rfl := Option.some.inj hentry
      refine hchain.alone hd hs hfirst hlonger hall fun span text => ?_
      rw [← hfold]
      exact hbuild _ (List.prefix_refl _) span text
    · rw [hchildren]
      intro m hm
      rcases List.mem_cons.1 hm with rfl | hm
      · exact hsliced
      · exact (hrest i (by simp)).nodes m hm

end Chain

/-! ## From the tree to the nodes -/

/-- What a rule makes a node of can be cut off behind it. -/
theorem cut_whole {r : Rule} {q rest : List Char} {parts : List (Tree Rule)}
    (hr : r.entry?.isSome = true) (hq : after .spaced q = q)
    (h : Within rest .spaced (.rule r) q parts []) :
    sourceGrammar.Matches .spaced (.rule r) q parts [] := by
  have hnil : EndsStatement rest [] := endsStatement_of_before before_nil
  have hlength : q.length ≤ q.length := Nat.le_refl _
  have hexpr : ∀ s parts y, s.length < q.length → Within rest .spaced (.rule .expr) s parts y →
      EndsExpr rest y → sourceGrammar.Matches .spaced (.rule .expr) s parts y := fun _ _ _ _ => cut_expr
  have hblock : ∀ s parts y, s.length < q.length → after .spaced s = s →
      Within rest .spaced Rule.statements s parts y → Before (· == '\x7d') y →
      sourceGrammar.Matches .spaced Rule.statements s parts y :=
    fun _ _ _ _ hs h hy => cut_statements h hs hy
  cases r with
  | integerLiteral | floatLiteral | booleanLiteral | nilLiteral => exact cut_word rfl rfl h
  | stringLiteral => exact cut_stringLiteral hexpr h hlength
  | macroUse => exact h.cut_rule fun _ hinner => cut_use hexpr hinner hlength hnil.clause
  | implicitMember => exact h.cut_rule fun _ hinner => cut_dotName hinner
  | tupleExpr => exact h.cut_rule fun _ hinner => cut_parenthesized hexpr hinner hlength
  | postfixExpr => exact cut_postfixExpr hexpr h hlength hnil.toEndsOperand
  | prefixExpr => exact cut_prefixExpr hexpr h hlength hnil.toEndsOperand
  | expr => exact cut_expr h hnil.toEndsExpr
  | typeReference => exact cut_typeReference h hnil.dot
  | typeExpr => exact cut_typeExpr h hnil.dot
  | accessor => exact cut_accessor hblock h hlength
  | variableDecl => exact cut_variableDecl hblock h hlength hq hnil.toEndsBinding hnil.comma
  | functionDecl => exact cut_functionDecl hblock h hlength hq
  | _ => cases hr

/-- Wherever the tree stands in the text, the nodes of its items are sliced. -/
def TreeSliced (text : List Char) (t : Tree Rule) : Prop :=
  ∀ before behind items, text = before ++ t.chars ++ behind →
    t.items (byteLength before) = .ok items → ∀ i ∈ items, i.Sliced text

/-- What all items of the trees have wherever these stand, the items of the trees in a row have. -/
theorem forall_itemsOf {text : List Char} {P : Item → Prop} {ts : List (Tree Rule)}
    (h : ∀ t ∈ ts, ∀ before behind items, text = before ++ t.chars ++ behind →
      t.items (byteLength before) = .ok items → ∀ i ∈ items, P i)
    {before behind : List Char} {items : List Item}
    (htext : text = before ++ Tree.charsOf ts ++ behind)
    (hitems : Tree.itemsOf (byteLength before) ts = .ok items) : ∀ i ∈ items, P i := by
  induction ts generalizing before items with
  | nil =>
    obtain rfl := Except.ok.inj hitems
    simp
  | cons t ts ih =>
    obtain ⟨front, back, hfront, hback, rfl⟩ := Tree.itemsOf_cons_eq_ok.1 hitems
    rw [← byteLength_append] at hback
    intro i hi
    rcases List.mem_append.1 hi with hi | hi
    · exact h t List.mem_cons_self before (Tree.charsOf ts ++ behind) front
        (by rw [htext]; simp [Tree.charsOf]) hfront i hi
    · exact ih (fun u hu => h u (List.mem_cons_of_mem _ hu))
        (by rw [htext]; simp [Tree.charsOf]) hback i hi

theorem sliced_itemsOf {text : List Char} {ts : List (Tree Rule)} (h : ∀ t ∈ ts, TreeSliced text t)
    {before behind : List Char} {items : List Item}
    (htext : text = before ++ Tree.charsOf ts ++ behind)
    (hitems : Tree.itemsOf (byteLength before) ts = .ok items) : ∀ i ∈ items, i.Sliced text :=
  forall_itemsOf h htext hitems

section Node

variable {text : List Char} {r : Rule} {layout : Layout} {ps : List (Tree Rule)}
  {rest before behind : List Char} {inner : List Item} {part : Part}

/-- A node over all items of a rule is read from what the rule matched. -/
theorem readChars_of_match (hr : r.entry?.isSome = true) {entry : Entry}
    (hentry : r.entry? = some entry)
    (htried : Tried layout (.rule r) (Tree.charsOf ps ++ rest))
    (hmatch : sourceGrammar.Matches (r.style.inside layout) r.body (Tree.charsOf ps ++ rest) ps rest)
    {offset : Nat} {place : Span} {n : Node}
    (hitems : Tree.items offset (.node r ps) = .ok [⟨r, place, .node n⟩]) :
    ∃ m, readChars entry (Tree.charsOf ps) = .ok [m] ∧ m.shift offset = n := by
  have hq : after .spaced (Tree.charsOf ps) = Tree.charsOf ps := after_cut (htried.settled hr)
  rw [htried.inside_eq] at hmatch
  have hwithin : Within rest .spaced (.rule r) (Tree.charsOf ps) [.node r ps] [] := matches_node hmatch
  obtain ⟨m, hwhole, hshift⟩ := exists_whole (cut_whole hr hq hwithin) hitems
  exact ⟨m, readChars_of_whole hentry hq hwhole, hshift⟩

/-- Without a sign, an operand covers all that its rule matched: no blanks stand in front of it. -/
theorem span_of_prefixExpr (htried : Tried layout (.rule .prefixExpr) (Tree.charsOf ps ++ rest))
    (hmatch : sourceGrammar.Matches (Rule.style .prefixExpr |>.inside layout) (Rule.body .prefixExpr)
      (Tree.charsOf ps ++ rest) ps rest)
    {offset : Nat} (hinner : Tree.itemsOf offset ps = .ok inner) (hbelow : ∀ i ∈ inner, i.Sliced text)
    {span : Span} (hspan : span = ⟨offset, offset + byteLength (Tree.charsOf ps)⟩) {source : String}
    (hpart : Rule.build .prefixExpr span source inner = .ok part) :
    ∀ n ∈ part.nodesIn, n.span = span := by
  rw [htried.inside_eq] at hmatch
  have hblank := gap_of_after (htried.settled rfl)
  obtain ⟨signs, z, operand, hsign, hoperand, hps⟩ := Grammar.matches_seq.1 hmatch
  obtain ⟨trees, rfl⟩ := eq_node_of_matches (by decide) hoperand
  rcases Grammar.matches_opt.1 hsign with hsign | ⟨-, rfl, rfl⟩
  · obtain ⟨sign, rfl⟩ := eq_node_of_matches (by decide) hsign
    have hrow := isRow_of_itemsOf hinner
    rw [hps, heads_append, heads_append, heads_gap] at hrow
    obtain ⟨_, operator, _, n, rfl⟩ := items_word_node hrow.2 hrow.1 rfl rfl
    obtain rfl := Except.ok.inj hpart
    simp [Part.nodesIn]
  · have hps : ps = [.text []] ++ [.node .postfixExpr trees] := hps.trans (congrArg (· ++ _) hblank)
    subst hps
    obtain ⟨front, back, hfront, hback, rfl⟩ := Tree.itemsOf_append_eq_ok.1 hinner
    obtain rfl := Except.ok.inj hfront
    obtain ⟨made, rfl, hkind⟩ := itemsOf_node_span hback
    cases made with
    | node n =>
      obtain rfl := Except.ok.inj hpart
      have hcovers := (hbelow _ List.mem_cons_self).covers rfl (by simp) n List.mem_cons_self
      intro m hm
      rw [List.mem_singleton.1 hm, hcovers, hspan]
      rfl
    | _ => cases hkind

/-- An operand that grows over the items of a chain. -/
theorem sliced_of_grows (hr : r ∈ chainRules)
    (htried : Tried layout (.rule r) (Tree.charsOf ps ++ rest))
    (hmatch : sourceGrammar.Matches (r.style.inside layout) r.body (Tree.charsOf ps ++ rest) ps rest)
    (htext : text = before ++ Tree.charsOf ps ++ behind)
    {head : Item} {items : List Item}
    (hinner : Tree.itemsOf (byteLength before) ps = .ok (head :: items))
    (hbelow : ∀ i ∈ head :: items, i.Sliced text)
    {base : Node} {step : Node → Item → Node} (hbase : Starts r head base)
    (hstep : ∀ i ∈ items, Grows r step i)
    (hbuild : ∀ front, front <+: items → ∀ span text,
      r.build span text (head :: front) = .ok (.node (front.foldl step base))) :
    (r ≠ .expr → (items.foldl step base).span =
        ⟨byteLength before, byteLength before + byteLength (Tree.charsOf ps)⟩) ∧
      ∀ m ∈ (items.foldl step base).preorder, m.Sliced text := by
  obtain ⟨layout', first, turn, hchain, hspaced⟩ := isChain_of_mem hr
  obtain ⟨entry, hentry⟩ : ∃ entry, r.entry? = some entry := by
    simp only [chainRules, List.mem_cons, List.not_mem_nil, or_false] at hr
    rcases hr with rfl | rfl | rfl <;> exact ⟨_, rfl⟩
  have hs := htried.settled (by simp [Peg.leads, hentry])
  rw [htried.inside_eq, hchain.inside] at hmatch
  obtain ⟨as, z, qs, u, back, hfirst, hturns, rfl, ⟨t, hback⟩, hhead, hrest⟩ :=
    hchain.items_split hmatch hinner
  have htext₁ : text = before ++ Tree.charsOf (as ++ qs) ++ (Tree.charsOf back ++ behind) := by
    rw [htext]
    simp only [Tree.charsOf_append, List.append_assoc]
  have htext₀ : text = before ++ Tree.charsOf as ++
      (Tree.charsOf qs ++ (Tree.charsOf back ++ behind)) := by
    rw [htext₁]
    simp only [Tree.charsOf_append, List.append_assoc]
  obtain ⟨hspan, hsliced⟩ := hchain.sliced_base hentry hs hfirst htext₀ hhead
    (hbelow _ List.mem_cons_self) hbase (hbuild [] List.nil_prefix)
  obtain ⟨hcover, hall⟩ := hchain.sliced_foldl hentry hs hfirst hturns htext₁ hhead hrest hstep hbuild
    hspan hsliced fun i hi => hbelow i (List.mem_cons_of_mem _ hi)
  refine ⟨fun hne => ?_, hall⟩
  -- Only a chain of operators may end in blanks, if no operator follows the operand.
  have hnone : back = [] := by
    rcases hback with rfl | rfl
    · rfl
    · cases layout' with
      | spaced => exact absurd (hspaced rfl) hne
      | joined | hidden => rfl
  rw [hcover, hnone, List.append_nil]

/-- Every node made by a rule is sliced, if those below are. -/
theorem treeSliced_node (htried : Tried layout (.rule r) (Tree.charsOf ps ++ rest))
    (hmatch : sourceGrammar.Matches (r.style.inside layout) r.body (Tree.charsOf ps ++ rest) ps rest)
    (hrow : r.style ≠ .word → r.body.Row (heads ps)) (h : ∀ t ∈ ps, TreeSliced text t) :
    TreeSliced text (.node r ps) := by
  intro before behind items htext hitems
  have hwhole := hitems
  obtain ⟨inner, part, hinner, hpart, rfl⟩ := Tree.items_node_eq_ok.1 hitems
  have hbelow : ∀ i ∈ inner, i.Sliced text := sliced_itemsOf h htext hinner
  have hcarried : ∀ n ∈ carried inner, ∀ m ∈ n.preorder, m.Sliced text := by
    intro n hn
    obtain ⟨i, hi, hn⟩ := List.mem_flatMap.1 hn
    exact (hbelow i hi).nodes n hn
  intro i hi
  obtain rfl := List.mem_singleton.1 hi
  cases makes_of_match hmatch hrow hinner hpart with
  | hands hr hnodes =>
    refine ⟨by rw [hnodes]; exact hcarried, fun hread _ => ?_⟩
    obtain rfl : r = .prefixExpr := hr.resolve_left fun hnone => by simp [hnone] at hread
    exact span_of_prefixExpr htried hmatch hinner hbelow rfl hpart
  | @wraps shape hkind _ hchildren =>
    refine ⟨fun n hn => ?_, fun _ _ n hn => ?_⟩
    · obtain rfl := List.mem_singleton.1 hn
      refine forall_preorder ⟨before, _, behind, htext, rfl, fun entry hentry => ?_⟩ ?_
      · have hread : r.entry? = some entry := hkind.symm.trans hentry
        exact readChars_of_match (by simp [hread]) hread htried hmatch hwhole
      · intro c hc
        exact hcarried c (hchildren ▸ hc)
    · obtain rfl := List.mem_singleton.1 hn
      rfl
  | @grows head rest base step hr hsplit hbase hstep hbuild =>
    subst hsplit
    obtain ⟨hspan, hsliced⟩ := sliced_of_grows hr htried hmatch htext hinner hbelow hbase hstep hbuild
    refine ⟨fun n hn => ?_, fun _ hne n hn => ?_⟩
    · obtain rfl := List.mem_singleton.1 hn
      exact hsliced
    · obtain rfl := List.mem_singleton.1 hn
      exact hspan hne

end Node

/-- What passes from the trees below a rule that was tried to its own tree holds of all trees of a text
that is read; and the nodes that are read are those of the trees. -/
theorem trees_of_read {entry : Entry} {text : String} {nodes : List Node}
    (h : read entry text = .ok nodes) {P : Tree Rule → Prop} (leaf : ∀ cs, P (.text cs))
    (node : ∀ (r : Rule) (layout : Layout) (ps : List (Tree Rule)) (rest : List Char),
      Tried layout (.rule r) (Tree.charsOf ps ++ rest) →
      sourceGrammar.Matches (r.style.inside layout) r.body (Tree.charsOf ps ++ rest) ps rest →
      (r.style ≠ .word → r.body.Row (heads ps)) → (∀ t ∈ ps, P t) → P (.node r ps)) :
    ∃ trees rest items, (∀ t ∈ trees, P t) ∧ text.toList = [] ++ Tree.charsOf trees ++ rest ∧
      Tree.itemsOf 0 trees = .ok items ∧ nodes = carried items := by
  obtain ⟨trees, rest, items, hmatch, hitems, rfl⟩ := readChars_eq_ok_iff_matches.1 h
  have hentry : (Peg.rule entry.rule).leads = false := by cases entry <;> rfl
  have htried : Tried .spaced (.rule entry.rule) text.toList := ⟨by simp [hentry], .inl rfl⟩
  exact ⟨trees, rest, items, (trees_of_attempt handsDown_tried leaf node htried hmatch).1,
    (hmatch.text sourceGrammar_blanksSplit).symm, hitems, genericsOf_eq_carried hmatch hitems⟩

theorem treeSliced_text (text cs : List Char) : TreeSliced text (.text cs) := by
  intro before behind items _ hitems
  obtain rfl := Except.ok.inj hitems
  simp

/-- Every node of what is read from a text is sliced. -/
theorem sliced_of_read {entry : Entry} {text : String} {nodes : List Node}
    (h : read entry text = .ok nodes) : ∀ n ∈ nodes, ∀ m ∈ n.preorder, m.Sliced text.toList := by
  obtain ⟨trees, rest, items, htrees, htext, hitems, rfl⟩ := trees_of_read h
    (treeSliced_text text.toList) fun _ _ _ _ => treeSliced_node
  intro m hm
  obtain ⟨i, hi, hm⟩ := List.mem_flatMap.1 hm
  exact (sliced_itemsOf htrees htext hitems i hi).nodes m hm

theorem readOne_of_readChars {entry : Entry} {s : List Char} {n : Node}
    (h : readChars entry s = .ok [n]) : readOne entry (String.ofList s) = .ok n := by
  unfold readOne read
  rw [String.toList_ofList, h]

/-- Reading the text as what the node is gives the node itself, but for its spans: they start from the
text, and not from where the node stands. Declarations are read as the only item of a source. -/
structure Node.IsReadFrom (n : Node) (slice : String) : Prop where
  expression : n.kind.isExpression = true →
    ∃ m, readExpression slice = .ok m ∧ m.shift n.span.start = n
  type : n.kind = .typeName ∨ n.kind = .optionalType →
    ∃ m, readType slice = .ok m ∧ m.shift n.span.start = n
  accessor : n.kind = .accessor → ∃ m, readAccessor slice = .ok m ∧ m.shift n.span.start = n
  declaration : n.kind = .variableDecl ∨ n.kind = .functionDecl →
    ∃ m, readSource slice = .ok [m] ∧ m.shift n.span.start = n

theorem Node.Sliced.isReadFrom {text : List Char} {n : Node} (h : n.Sliced text) :
    ∃ before slice behind, text = before ++ slice ++ behind ∧
      n.span = ⟨byteLength before, byteLength before + byteLength slice⟩ ∧
      n.IsReadFrom (String.ofList slice) := by
  obtain ⟨before, slice, behind, htext, hspan, hread⟩ := h
  have hread : ∀ {entry}, n.kind.entry? = some entry →
      ∃ m, readChars entry slice = .ok [m] ∧ m.shift n.span.start = n := by
    rw [hspan]
    exact fun hentry => hread _ hentry
  have hone : ∀ {entry}, n.kind.entry? = some entry →
      ∃ m, readOne entry (String.ofList slice) = .ok m ∧ m.shift n.span.start = n := by
    intro entry hentry
    obtain ⟨m, hm, hshift⟩ := hread hentry
    exact ⟨m, readOne_of_readChars hm, hshift⟩
  refine ⟨before, slice, behind, htext, hspan, fun hkind => hone ?_, fun hkind => hone ?_,
    fun hkind => hone ?_, fun hkind => ?_⟩
  · generalize n.kind = k at hkind
    cases k <;> first | rfl | cases hkind
  · rcases hkind with hkind | hkind <;> rw [hkind] <;> rfl
  · rw [hkind]
    rfl
  · have hsource : n.kind.entry? = some .source := by
      rcases hkind with hkind | hkind <;> rw [hkind] <;> rfl
    obtain ⟨m, hm, hshift⟩ := hread hsource
    exact ⟨m, by rw [readSource, read, String.toList_ofList]; exact hm, hshift⟩

/-- The span of a node is exactly its source: every node of a source, at any depth, covers a part of the
text, and is read from that part alone. -/
theorem read_slices {text : String} {items : List Node} (h : readSource text = .ok items) :
    ∀ item ∈ items, ∀ n ∈ item.preorder, ∃ before slice behind : String,
      text = before ++ slice ++ behind ∧
      n.span = ⟨before.utf8ByteSize, before.utf8ByteSize + slice.utf8ByteSize⟩ ∧
      n.IsReadFrom slice := by
  intro item hitem n hn
  obtain ⟨before, slice, behind, htext, hspan, hread⟩ := (sliced_of_read h item hitem n hn).isReadFrom
  refine ⟨String.ofList before, String.ofList slice, String.ofList behind, ?_, ?_, hread⟩
  · rw [← String.ofList_append, ← String.ofList_append, ← htext, String.ofList_toList]
  · rw [hspan, utf8ByteSize_ofList, utf8ByteSize_ofList]

theorem read_slices_trivia : ∃ items,
    readSource "@a var x /* é */ = -f(\"ü\\(y)\").z! as? T<U>? + 1 // c\nfunc g() \x7b \x7d" = .ok items ∧
      items.length = 2 ∧
      ∀ item ∈ items, ∀ n ∈ item.preorder, ∃ before slice behind : String,
        "@a var x /* é */ = -f(\"ü\\(y)\").z! as? T<U>? + 1 // c\nfunc g() \x7b \x7d" =
          before ++ slice ++ behind ∧
        n.span = ⟨before.utf8ByteSize, before.utf8ByteSize + slice.utf8ByteSize⟩ ∧
        n.IsReadFrom slice := by
  obtain ⟨items, hitems, hlength⟩ := exists_of_okAnd
    (by decide +kernel : okAnd (readSource
      "@a var x /* é */ = -f(\"ü\\(y)\").z! as? T<U>? + 1 // c\nfunc g() \x7b \x7d")
      (fun items => items.length == 2) = true)
  exact ⟨items, hitems, beq_iff_eq.1 hlength, read_slices hitems⟩

end SwiftMacro
