import SwiftMacro.Proofs.Slices
/-!
# Where the parts of an expression meet

A call, a member and an unwrapping mark touch their operand: the sign that makes them stands where the
operand ends. Between the operands of a chain stand an operator or a cast and nothing but blanks.
`Node.Joined` says both of one node, and `joined_of_read` of all nodes that are read.
-/

namespace SwiftMacro

open Peg

/-! ## Places in a text -/

/-- From byte `a` up to byte `b` the text is `w`. -/
def HasText (text : List Char) (a : Nat) (w : List Char) (b : Nat) : Prop :=
  ∃ before behind, text = before ++ w ++ behind ∧ a = byteLength before ∧ b = a + byteLength w

/-- At byte `a` the character stands in the text. -/
def HasChar (text : List Char) (a : Nat) (c : Char) : Prop :=
  ∃ before behind, text = before ++ c :: behind ∧ a = byteLength before

/-- All of the text is skipped between words. -/
def IsTrivia (w : List Char) : Prop := Trivia.split w = (w, [])

/-- From byte `a` up to byte `b` stands the word, and around it nothing but blanks. -/
def WordBetween (text : List Char) (a : Nat) (word : String) (b : Nat) : Prop :=
  ∃ front back, IsTrivia front ∧ IsTrivia back ∧ HasText text a (front ++ word.toList ++ back) b

theorem isTrivia_nil : IsTrivia [] := Trivia.split_of_first_eq_none rfl

/-- What is skipped in front of a text would be skipped on its own. -/
theorem isTrivia_split (s : List Char) : IsTrivia (Trivia.split s).1 := by
  refine Trivia.split_cut (r := (Trivia.split s).2) (z := []) ?_
  rw [Trivia.split_append]
  rfl

/-- The gap of a layout has blanks, or nothing where the layout skips none. -/
theorem isTrivia_gap (layout : Layout) (s : List Char) :
    IsTrivia (Tree.charsOf (sourceGrammar.gap layout s).1) := by
  cases layout with
  | spaced =>
    change IsTrivia ((Trivia.split s).1 ++ [])
    rw [List.append_nil]
    exact isTrivia_split s
  | joined | hidden => exact isTrivia_nil

theorem eq_of_byteLength_eq {s t u v : List Char} (h : s ++ t = u ++ v)
    (hlength : byteLength s = byteLength u) : s = u ∧ t = v := by
  have hnil : ∀ w, byteLength w = 0 → w = [] := fun w hw =>
    Classical.byContradiction fun hne => absurd (byteLength_pos hne) (by omega)
  rcases List.append_eq_append_iff.1 h with ⟨w, rfl, rfl⟩ | ⟨w, rfl, rfl⟩ <;>
    · rw [byteLength_append] at hlength
      rw [hnil w (by omega)]
      simp

theorem HasText.append {text v w : List Char} {a b c : Nat} (hv : HasText text a v b)
    (hw : HasText text b w c) : HasText text a (v ++ w) c := by
  obtain ⟨before, behind, htext, rfl, rfl⟩ := hv
  obtain ⟨before', behind', rfl, hb, rfl⟩ := hw
  have hfront : before' ++ (w ++ behind') = before ++ v ++ behind := by rw [← List.append_assoc, htext]
  obtain ⟨rfl, rfl⟩ := eq_of_byteLength_eq hfront (by rw [byteLength_append, hb])
  refine ⟨before, behind', by simp only [List.append_assoc], rfl, ?_⟩
  rw [byteLength_append]
  omega

theorem HasText.le {text w : List Char} {a b : Nat} (h : HasText text a w b) : a ≤ b := by
  obtain ⟨before, behind, -, -, rfl⟩ := h
  exact Nat.le_add_right a _

/-! ## Nodes and items -/

/-- The operand that something touches, and the sign that touches it. -/
def Shape.suffixed? {α : Type} : Shape α → Option (α × Char)
  | call callee _ => some (callee, '(')
  | memberAccess (some base) _ => some (base, '.')
  | forceUnwrap operand => some (operand, '!')
  | _ => none

/-- The operands of an operator or a cast, and the word between them. -/
def Shape.linked? {α : Type} : Shape α → Option (α × String × α)
  | binary lhs operator rhs => some (lhs, operator, rhs)
  | cast value kind target => some (value, Render.castWord kind, target)
  | _ => none

/-- The operand of the node ends where the text goes on with what makes the node of it. -/
structure Node.Joined (text : List Char) (n : Node) : Prop where
  touches : ∀ operand sign, n.shape.suffixed? = some (operand, sign) → HasChar text operand.span.stop sign
  links : ∀ lhs word rhs, n.shape.linked? = some (lhs, word, rhs) →
    n.span = ⟨lhs.span.start, rhs.span.stop⟩ ∧ WordBetween text lhs.span.stop word rhs.span.start

theorem Node.Joined.of_none {text : List Char} {n : Node} (hsuffix : n.shape.suffixed? = none)
    (hlink : n.shape.linked? = none) : n.Joined text where
  touches operand sign h := by rw [hsuffix] at h; cases h
  links lhs word rhs h := by rw [hlink] at h; cases h

theorem Node.Joined.of_suffixed {text : List Char} {n operand : Node} {sign : Char}
    (hshape : n.shape.suffixed? = some (operand, sign)) (hlink : n.shape.linked? = none)
    (h : HasChar text operand.span.stop sign) : n.Joined text where
  touches operand' sign' hshape' := by
    obtain ⟨rfl, rfl⟩ := Prod.mk.inj (Option.some.inj (hshape.symm.trans hshape'))
    exact h
  links lhs word rhs h := by rw [hlink] at h; cases h

theorem Node.Joined.of_linked {text : List Char} {n lhs rhs : Node} {word : String}
    (hshape : n.shape.linked? = some (lhs, word, rhs)) (hsuffix : n.shape.suffixed? = none)
    (hspan : n.span = ⟨lhs.span.start, rhs.span.stop⟩)
    (h : WordBetween text lhs.span.stop word rhs.span.start) : n.Joined text where
  touches operand sign h := by rw [hsuffix] at h; cases h
  links lhs' word' rhs' hshape' := by
    obtain ⟨rfl, hrest⟩ := Prod.mk.inj (Option.some.inj (hshape.symm.trans hshape'))
    obtain ⟨rfl, rfl⟩ := Prod.mk.inj hrest
    exact ⟨hspan, h⟩

/-- The sign that a rule behind an operand starts with. -/
def Rule.sign? : Rule → Option Char
  | argumentClause => some '('
  | memberSuffix => some '.'
  | forceUnwrap => some '!'
  | _ => none

/-- The word that stands in front of the operand of a part, and the operand. -/
def Part.link? : Part → Option (String × Node)
  | operation operator rhs => some (operator, rhs)
  | castTo kind target => some (Render.castWord kind, target)
  | _ => none

/-- The word and then, behind blanks, the node make up what the span covers. -/
structure Leads (text : List Char) (span : Span) (word : String) (n : Node) : Prop where
  front : ∃ blanks, IsTrivia blanks ∧ HasText text span.start (word.toList ++ blanks) n.span.start
  stop : n.span.stop = span.stop

/-- All nodes of the item are joined, and the item starts with its sign or its word. -/
structure Item.Joined (text : List Char) (i : Item) : Prop where
  nodes : ∀ n ∈ i.part.nodesIn, ∀ m ∈ n.preorder, m.Joined text
  sign : ∀ c, i.rule.sign? = some c → HasChar text i.span.start c
  link : ∀ word n, i.part.link? = some (word, n) → Leads text i.span word n

/-! ## Signs and words -/

section Match

variable {text : List Char} {r : Rule} {layout : Layout} {s rest : List Char} {ps : List (Tree Rule)}
  {before behind : List Char}

/-- A rule with a sign starts with it. -/
theorem hasChar_of_match {sign : Char} (hr : r.sign? = some sign)
    (h : sourceGrammar.Matches (r.style.inside layout) r.body s ps rest)
    (htext : text = before ++ Tree.charsOf ps ++ behind) : HasChar text (byteLength before) sign := by
  -- The sign is the first literal of the rule, and nothing is skipped in front of it.
  suffices hsign : ∃ back, ps = .text [sign] :: back by
    obtain ⟨back, rfl⟩ := hsign
    exact ⟨before, Tree.charsOf back ++ behind, by rw [htext]; simp [Tree.charsOf, Tree.chars], rfl⟩
  cases r with
  | argumentClause =>
    obtain rfl := Option.some.inj hr
    obtain ⟨_, _, back, hopen, rfl, -⟩ := h.front sourceGrammar_blanksSplit
    obtain ⟨_, _, _, hlit, rfl, -⟩ := hopen.front sourceGrammar_blanksSplit
    obtain ⟨-, rfl⟩ := Grammar.matches_lit.1 hlit
    exact ⟨_, rfl⟩
  | memberSuffix | forceUnwrap =>
    obtain rfl := Option.some.inj hr
    obtain ⟨_, _, back, hlit, rfl, -⟩ := h.front sourceGrammar_blanksSplit
    obtain ⟨-, rfl⟩ := Grammar.matches_lit.1 hlit
    exact ⟨_, rfl⟩
  | _ => cases hr

/-- A cast is spelled as it is written. -/
theorem castWord_of_match (h : sourceGrammar.Matches .hidden (Rule.body .castOperator) s ps rest) :
    Render.castWord (.ofSpelling (String.ofList (Tree.charsOf ps))) = String.ofList (Tree.charsOf ps) := by
  obtain ⟨t, hfront, hend⟩ := Grammar.accepts_seq.1 ⟨ps, h⟩
  obtain ⟨u, hword, hmark⟩ := Grammar.accepts_seq.1 hfront
  obtain ⟨-, rfl⟩ := Grammar.accepts_not.1 hend
  have hs : s = "as".toList ++ u := Grammar.accepts_lit.1 hword
  have htext : Tree.charsOf ps ++ rest = s := h.text sourceGrammar_blanksSplit
  change sourceGrammar.Accepts .hidden _ u rest at hmark
  rcases Grammar.accepts_opt.1 hmark with hmark | ⟨-, rfl⟩
  · obtain ⟨w, hw, rfl⟩ := accepts_anyOf.1 hmark
    have hmem := List.mem_of_find?_eq_some hw
    rw [hs, ← List.append_assoc] at htext
    rw [List.append_cancel_right htext]
    simp only [List.mem_cons, List.not_mem_nil, or_false] at hmem
    rcases hmem with rfl | rfl <;> rfl
  · rw [hs] at htext
    rw [List.append_cancel_right htext]
    rfl

/-- A word and a rule behind it: the word, the blanks and what the rule covers make up the text. -/
theorem items_of_match {w d : Rule} (hw : w.style = .word)
    (hword : ∀ span text, w.build span text [] = .ok (.word text))
    (h : sourceGrammar.Matches .spaced (.rule w ++ .rule d) s ps rest)
    (htext : text = before ++ Tree.charsOf ps ++ behind) {items : List Item}
    (hitems : Tree.itemsOf (byteLength before) ps = .ok items) :
    ∃ inner u place blanks place' part,
      sourceGrammar.Matches .hidden w.body s inner u ∧
      items = [⟨w, place, .word (String.ofList (Tree.charsOf inner))⟩, ⟨d, place', part⟩] ∧
      IsTrivia blanks ∧ HasText text (byteLength before) (Tree.charsOf inner ++ blanks) place'.start ∧
      place'.stop = byteLength before + byteLength (Tree.charsOf ps) := by
  obtain ⟨ts, u, us, hfirst, hback, rfl⟩ := Grammar.matches_seq.1 h
  obtain ⟨inner', rfl⟩ := eq_node_of_matches (by decide) hback
  obtain ⟨inner, hinner, rfl⟩ := Grammar.matches_rule.1 hfirst
  have hclose : sourceGrammar.close w .spaced inner = [.node w inner] :=
    if_neg (outside_ne_hidden _ (by decide))
  have hinside : w.style.inside .spaced = .hidden := by rw [hw]; rfl
  change sourceGrammar.Matches (w.style.inside .spaced) w.body s inner u at hinner
  rw [hclose, List.append_assoc] at hitems
  obtain ⟨front, back, hfront, hrest, rfl⟩ := Tree.itemsOf_append_eq_ok.1 hitems
  obtain ⟨front', none, hnode, hnone, rfl⟩ := Tree.itemsOf_cons_eq_ok.1 hfront
  obtain rfl := Except.ok.inj hnone
  obtain ⟨below, part, hbelow, hpart, rfl⟩ := Tree.items_node_eq_ok.1 hnode
  obtain rfl := itemsOf_word hw hinner hbelow
  rw [hword] at hpart
  obtain rfl := Except.ok.inj hpart
  obtain ⟨⟨d', place', part'⟩, rfl, hd, hstart, hstop⟩ := itemsOf_turn hrest
  obtain rfl : d' = d := hd
  rw [hinside] at hinner
  have hone : Tree.charsOf [.node w inner] = Tree.charsOf inner := by simp [Tree.charsOf, Tree.chars]
  rw [hone, Nat.add_assoc] at hstart hstop
  refine ⟨inner, u, _, Tree.charsOf (sourceGrammar.gap .spaced u).1, place', part', hinner, rfl,
    isTrivia_gap .spaced u, ⟨before, Tree.charsOf [.node d' inner'] ++ behind, ?_, rfl, ?_⟩, ?_⟩
  · rw [htext, hclose, Tree.charsOf_append, Tree.charsOf_append, hone]
    simp only [List.append_assoc]
  · rw [byteLength_append]
    exact hstart
  · rw [hclose, List.append_assoc, Tree.charsOf_append, hone, byteLength_append]
    exact hstop

end Match

/-! ## One step of a chain -/

/-- Between the two places is the gap of the layout. -/
def Meets (text : List Char) (layout : Layout) (a b : Nat) : Prop :=
  if layout = .spaced then ∃ blanks, IsTrivia blanks ∧ HasText text a blanks b else a = b

theorem meets_gap {text before behind : List Char} (layout : Layout) (u : List Char)
    (htext : text = before ++ Tree.charsOf (sourceGrammar.gap layout u).1 ++ behind) :
    Meets text layout (byteLength before)
      (byteLength before + byteLength (Tree.charsOf (sourceGrammar.gap layout u).1)) := by
  cases layout with
  | spaced => exact ⟨_, isTrivia_gap .spaced u, before, behind, htext, rfl, rfl⟩
  | joined | hidden => rfl

section Step

variable {text : List Char} {i : Item} {m : Node}

theorem joined_suffix (hfits : i.Fits)
    (hr : i.rule = .argumentClause ∨ i.rule = .memberSuffix ∨ i.rule = .forceUnwrap) (h : i.Joined text)
    (hmeets : m.span.stop = i.span.start) : (applySuffix m i).Joined text := by
  obtain ⟨r, place, part⟩ := i
  have hsign : ∀ c, r.sign? = some c → HasChar text m.span.stop c := by
    rw [hmeets]
    exact h.sign
  rcases hr with hr | hr | hr <;> obtain rfl : r = _ := hr
  · cases part with
    | arguments as => exact .of_suffixed rfl rfl (hsign _ rfl)
    | _ => cases hfits
  · cases part with
    | word member => exact .of_suffixed rfl rfl (hsign _ rfl)
    | _ => cases hfits
  · cases part with
    | word mark => exact .of_suffixed rfl rfl (hsign _ rfl)
    | _ => cases hfits

theorem joined_tail (hfits : i.Fits) (hr : i.rule = .castTail ∨ i.rule = .binaryTail) (h : i.Joined text)
    (hm : m.span.start ≤ m.span.stop) (hi : i.span.start ≤ i.span.stop)
    (hmeets : Meets text .spaced m.span.stop i.span.start) : (applyTail m i).Joined text := by
  obtain ⟨blanks, hblanks, hgap⟩ := hmeets
  have hlink : ∀ word n, i.part.link? = some (word, n) → m.span.cover i.span = ⟨m.span.start, n.span.stop⟩ ∧
      WordBetween text m.span.stop word n.span.start := by
    intro word n hpart
    obtain ⟨⟨back, hback, hfront⟩, hstop⟩ := h.link word n hpart
    have hle := hgap.le
    refine ⟨?_, blanks, back, hblanks, hback, ?_⟩
    · simp only [Span.cover, hstop, Span.mk.injEq]
      omega
    · rw [List.append_assoc]
      exact hgap.append hfront
  obtain ⟨r, place, part⟩ := i
  rcases hr with hr | hr <;> obtain rfl : r = _ := hr
  · cases part with
    | castTo kind target => exact .of_linked rfl rfl (hlink _ _ rfl).1 (hlink _ _ rfl).2
    | _ => cases hfits
  · cases part with
    | operation operator rhs => exact .of_linked rfl rfl (hlink _ _ rfl).1 (hlink _ _ rfl).2
    | _ => cases hfits

end Step

/-! ## Chains -/

/-- All nodes of an operand that grows over the turns of a chain are joined, if those are that it starts
with and those that the turns carry. -/
theorem joined_of_turns {d : Rule} {layout : Layout} {first turn : Peg Rule}
    (hchain : IsChain d layout first turn) {text z y : List Char} {qs : List (Tree Rule)}
    (hturns : Turns layout turn z qs y) {before behind : List Char}
    (htext : text = before ++ Tree.charsOf qs ++ behind) {items : List Item}
    (hitems : Tree.itemsOf (byteLength before) qs = .ok items) {base : Node} {step : Node → Item → Node}
    (hgrows : ∀ i ∈ items, Grows d step i)
    (hstep : ∀ i ∈ items, ∀ m : Node, m.span.start ≤ m.span.stop → i.span.start ≤ i.span.stop →
      Meets text layout m.span.stop i.span.start → (step m i).Joined text)
    (hcarried : ∀ i ∈ items, ∀ n ∈ i.part.nodesIn, ∀ m ∈ n.preorder, m.Joined text)
    (hle : base.span.start ≤ base.span.stop) (hstop : base.span.stop = byteLength before)
    (hbase : ∀ m ∈ base.preorder, m.Joined text) :
    ∀ m ∈ (items.foldl step base).preorder, m.Joined text := by
  -- What the operand has grown to ends where the text of the turns that are left starts.
  induction hturns generalizing before items base with
  | nil =>
    obtain rfl := Except.ok.inj hitems
    exact hbase
  | @cons u _ _ ps qs hone _ ih =>
    obtain ⟨c, inner, rfl⟩ := hchain.turn hone
    obtain ⟨front, back, hfront, hback, rfl⟩ := Tree.itemsOf_append_eq_ok.1 hitems
    obtain ⟨i, rfl, -, hstart, hend⟩ := itemsOf_turn hfront
    rw [List.singleton_append] at hgrows hstep hcarried ⊢
    rw [List.foldl_cons]
    have hi := List.mem_cons_self (a := i) (l := back)
    rw [Tree.charsOf_append] at htext
    have hmeets : Meets text layout base.span.stop i.span.start := by
      have hgap : text = before ++ Tree.charsOf (sourceGrammar.gap layout u).1 ++
          (Tree.charsOf [.node c inner] ++ Tree.charsOf qs ++ behind) := by
        rw [htext, Tree.charsOf_append]
        simp only [List.append_assoc]
      rw [hstop, hstart]
      exact meets_gap layout u hgap
    rw [Tree.charsOf_append, byteLength_append] at hend
    obtain ⟨hcover, hchildren, -⟩ := hgrows i hi base
    have hspan : (step base i).span = ⟨base.span.start, i.span.stop⟩ := by
      rw [hcover]
      simp only [Span.cover, Span.mk.injEq]
      omega
    have hbehind : text = before ++ Tree.charsOf ((sourceGrammar.gap layout u).1 ++ [.node c inner]) ++
        Tree.charsOf qs ++ behind := by
      rw [htext]
      simp only [List.append_assoc]
    rw [← byteLength_append] at hback
    refine ih hbehind hback (fun j hj => hgrows j (List.mem_cons_of_mem _ hj))
      (fun j hj => hstep j (List.mem_cons_of_mem _ hj)) (fun j hj => hcarried j (List.mem_cons_of_mem _ hj))
      ?_ ?_ ?_
    · rw [hspan]
      change base.span.start ≤ i.span.stop
      omega
    · rw [hspan, byteLength_append, Tree.charsOf_append, byteLength_append]
      exact hend
    · refine forall_preorder (hstep i hi base hle (by omega) hmeets) fun child hchild => ?_
      rw [hchildren] at hchild
      rcases List.mem_cons.1 hchild with rfl | hchild
      · exact hbase
      · exact hcarried i hi child hchild

/-! ## From the tree to the nodes -/

/-- Wherever the tree stands in the text, the nodes of its items are joined. -/
def TreeJoined (text : List Char) (t : Tree Rule) : Prop :=
  ∀ before behind items, text = before ++ t.chars ++ behind →
    t.items (byteLength before) = .ok items → ∀ i ∈ items, i.Joined text

theorem treeJoined_text (text cs : List Char) : TreeJoined text (.text cs) := by
  intro before behind items _ hitems
  obtain rfl := Except.ok.inj hitems
  simp

/-- A rule that is no chain hands a node on or makes one that needs nothing behind an operand. -/
theorem joint_of_build {r : Rule} (hr : r ∉ chainRules) {span : Span} {source : String}
    {items : List Item} {n : Node} (h : r.build span source items = .ok (.node n)) :
    n ∈ carried items ∨ n.shape.suffixed? = none ∧ n.shape.linked? = none := by
  have hpicked : ∀ {rules : List Rule}, n ∈ nodesOf rules items → n ∈ carried items := by
    intro rules hn
    obtain ⟨i, hi, hpart, -⟩ := mem_nodesOf hn
    exact List.mem_flatMap.2 ⟨i, hi, by rw [hpart]; exact List.mem_cons_self⟩
  cases r with
  | postfixExpr | expr | typeExpr => exact absurd (by decide) hr
  | integerLiteral | floatLiteral | booleanLiteral | nilLiteral | namePattern | wildcardPattern
  | tuplePattern | tupleExpr =>
    obtain rfl := Part.node.inj (Except.ok.inj h)
    exact .inr ⟨rfl, rfl⟩
  | interpolation | declaredType | initialValue =>
    simp only [Rule.build] at h
    split at h
    · next hnodes =>
      obtain rfl := Part.node.inj (Except.ok.inj h)
      exact .inl (hpicked (by rw [hnodes]; exact List.mem_cons_self))
    · cases h
  | attributeUse | macroUse | implicitMember | variableDecl | functionDecl | patternBinding | accessor
  | typeReference =>
    simp only [Rule.build] at h
    split at h
    · obtain rfl := Part.node.inj (Except.ok.inj h)
      exact .inr ⟨rfl, rfl⟩
    · cases h
  | stringLiteral =>
    simp only [Rule.build] at h
    split at h <;> obtain rfl := Part.node.inj (Except.ok.inj h) <;> exact .inr ⟨rfl, rfl⟩
  | prefixExpr =>
    simp only [Rule.build] at h
    split at h
    · next hnodes =>
      obtain rfl := Part.node.inj (Except.ok.inj h)
      exact .inl (hpicked (by rw [hnodes]; exact List.mem_cons_self))
    · obtain rfl := Part.node.inj (Except.ok.inj h)
      exact .inr ⟨rfl, rfl⟩
    · cases h
  | _ => cases kind_of_build h

section Node

variable {text : List Char} {r : Rule} {layout : Layout} {ps : List (Tree Rule)}
  {rest before behind : List Char} {inner : List Item} {part : Part}

/-- The nodes of an operand that grows are joined, if each step makes a joined node. -/
theorem joined_of_grows (hr : r ∈ chainRules)
    (htried : Tried layout (.rule r) (Tree.charsOf ps ++ rest))
    (hmatch : sourceGrammar.Matches (r.style.inside layout) r.body (Tree.charsOf ps ++ rest) ps rest)
    (htext : text = before ++ Tree.charsOf ps ++ behind) {head : Item} {items : List Item}
    (hinner : Tree.itemsOf (byteLength before) ps = .ok (head :: items)) (hsliced : head.Sliced text)
    (hbelow : ∀ i ∈ head :: items, i.Joined text) {base : Node} {step : Node → Item → Node}
    (hstart : head.part = .node base ∨ base.span = head.span)
    (hbase : ∀ m ∈ base.preorder, m.Joined text) (hgrows : ∀ i ∈ items, Grows r step i)
    (hstep : ∀ i ∈ items, ∀ m : Node, m.span.start ≤ m.span.stop → i.span.start ≤ i.span.stop →
      Meets text (r.style.inside .spaced) m.span.stop i.span.start → (step m i).Joined text) :
    ∀ m ∈ (items.foldl step base).preorder, m.Joined text := by
  obtain ⟨layout', first, turn, hchain, -⟩ := isChain_of_mem hr
  rw [hchain.inside] at hstep
  rw [htried.inside_eq, hchain.inside] at hmatch
  obtain ⟨as, z, qs, u, back, hfirst, hturns, rfl, -, hhead, hrest⟩ := hchain.items_split hmatch hinner
  obtain ⟨c, trees, rfl, hc⟩ := hchain.first hfirst
  obtain ⟨made, hmade, hkind⟩ := itemsOf_node_span hhead
  obtain rfl := (List.cons.inj hmade).1
  have hspan : base.span =
      ⟨byteLength before, byteLength before + byteLength (Tree.charsOf [.node c trees])⟩ := by
    rcases hstart with rfl | hspan
    · obtain ⟨hread, hne⟩ := hc hkind.symm
      exact hsliced.covers hread hne base List.mem_cons_self
    · exact hspan
  rw [← byteLength_append] at hrest
  have hbehind : text = before ++ Tree.charsOf [.node c trees] ++ Tree.charsOf qs ++
      (Tree.charsOf back ++ behind) := by
    rw [htext]
    simp only [Tree.charsOf_append, List.append_assoc]
  refine joined_of_turns hchain hturns hbehind hrest hgrows hstep
    (fun i hi => (hbelow i (List.mem_cons_of_mem _ hi)).nodes) ?_ ?_ hbase
  · rw [hspan]
    exact Nat.le_add_right _ _
  · rw [hspan, byteLength_append]

theorem joined_chain (hr : r ∈ chainRules)
    (htried : Tried layout (.rule r) (Tree.charsOf ps ++ rest))
    (hmatch : sourceGrammar.Matches (r.style.inside layout) r.body (Tree.charsOf ps ++ rest) ps rest)
    (hrow : r.body.Row (heads ps)) (htext : text = before ++ Tree.charsOf ps ++ behind)
    (hinner : Tree.itemsOf (byteLength before) ps = .ok inner) (hsliced : ∀ i ∈ inner, i.Sliced text)
    (hbelow : ∀ i ∈ inner, i.Joined text) {span : Span} {source : String}
    (hpart : r.build span source inner = .ok part) :
    ∀ n ∈ part.nodesIn, ∀ m ∈ n.preorder, m.Joined text := by
  obtain ⟨hrules, hfits⟩ := isRow_of_itemsOf hinner
  have hexpects := expects_of_row fun _ => hrow
  rw [← hrules] at hexpects
  have hmem := hr
  simp only [chainRules, List.mem_cons, List.not_mem_nil, or_false] at hmem
  rcases hmem with rfl | rfl | rfl
  · obtain ⟨first, suffixes, hrs, hfirst, hsuffixes⟩ := hexpects
    have hstep : ∀ {rest : List Item}, rest.map Item.rule = suffixes → (∀ i ∈ rest, i.Fits) →
        (∀ i ∈ rest, i.Joined text) → ∀ i ∈ rest, Grows .postfixExpr applySuffix i ∧
          ∀ m : Node, m.span.stop = i.span.start → (applySuffix m i).Joined text := by
      intro rest hrest hfits hjoined i hi
      have hrule : i.rule = .argumentClause ∨ i.rule = .memberSuffix ∨ i.rule = .forceUnwrap := by
        simpa using hsuffixes (hrest ▸ List.mem_map_of_mem hi)
      exact ⟨grows_suffix (hfits i hi) hrule, fun m => joined_suffix (hfits i hi) hrule (hjoined i hi)⟩
    rcases kind_of_mem_operandRules first hfirst with rfl | hfirst
    · obtain ⟨place, name, rest, rfl, hrest, hfits⟩ := items_word_cons hfits hrs rfl
      obtain rfl := Except.ok.inj hpart
      have hall := hstep hrest hfits fun i hi => hbelow i (List.mem_cons_of_mem _ hi)
      have hleaf : ∀ m ∈ (⟨.identifier name, place⟩ : Node).preorder, m.Joined text :=
        forall_preorder (.of_none rfl rfl) fun _ hc => absurd hc List.not_mem_nil
      intro n hn
      obtain rfl := List.mem_singleton.1 hn
      exact joined_of_grows hr htried hmatch htext hinner (hsliced _ List.mem_cons_self) hbelow (.inr rfl)
        hleaf (fun i hi => (hall i hi).1) fun i hi m _ _ hmeets => (hall i hi).2 m hmeets
    · obtain ⟨_, base, rest, rfl, hrest, hfits⟩ := items_node_cons hfits hrs hfirst
      obtain rfl := Except.ok.inj hpart
      have hall := hstep hrest hfits fun i hi => hbelow i (List.mem_cons_of_mem _ hi)
      intro n hn
      obtain rfl := List.mem_singleton.1 hn
      exact joined_of_grows hr htried hmatch htext hinner (hsliced _ List.mem_cons_self) hbelow (.inl rfl)
        ((hbelow _ List.mem_cons_self).nodes base List.mem_cons_self) (fun i hi => (hall i hi).1)
        fun i hi m _ _ hmeets => (hall i hi).2 m hmeets
  · obtain ⟨tails, hrs, htails⟩ := hexpects
    obtain ⟨_, base, rest, rfl, hrest, hfits⟩ := items_node_cons hfits hrs rfl
    obtain rfl := Except.ok.inj hpart
    have hrule : ∀ i ∈ rest, i.rule = .castTail ∨ i.rule = .binaryTail := fun i hi => by
      simpa using htails (hrest ▸ List.mem_map_of_mem hi)
    intro n hn
    obtain rfl := List.mem_singleton.1 hn
    exact joined_of_grows hr htried hmatch htext hinner (hsliced _ List.mem_cons_self) hbelow (.inl rfl)
      ((hbelow _ List.mem_cons_self).nodes base List.mem_cons_self)
      (fun i hi => grows_tail (hfits i hi) (hrule i hi))
      fun i hi m hm hi' hmeets =>
        joined_tail (hfits i hi) (hrule i hi) (hbelow i (List.mem_cons_of_mem _ hi)) hm hi' hmeets
  · obtain ⟨marks, hrs, hmarks⟩ := hexpects
    obtain ⟨_, base, rest, rfl, hrest, hfits⟩ := items_node_cons hfits hrs rfl
    have hmark : ∀ r ∈ rest.map Item.rule, r = .optionalMark := fun r hr =>
      List.mem_singleton.1 (hmarks (hrest ▸ hr))
    rw [build_typeExpr hmark] at hpart
    obtain rfl := Except.ok.inj hpart
    intro n hn
    obtain rfl := List.mem_singleton.1 hn
    exact joined_of_grows hr htried hmatch htext hinner (hsliced _ List.mem_cons_self) hbelow (.inl rfl)
      ((hbelow _ List.mem_cons_self).nodes base List.mem_cons_self)
      (fun i hi => grows_mark (hfits i hi) (hmark _ (List.mem_map_of_mem hi)))
      fun i hi m _ _ _ => .of_none rfl rfl

/-- The operand of an operator or a cast stands behind the word. -/
theorem leads_of_match (htried : Tried layout (.rule r) (Tree.charsOf ps ++ rest))
    (hmatch : sourceGrammar.Matches (r.style.inside layout) r.body (Tree.charsOf ps ++ rest) ps rest)
    (htext : text = before ++ Tree.charsOf ps ++ behind)
    (hinner : Tree.itemsOf (byteLength before) ps = .ok inner) (hsliced : ∀ i ∈ inner, i.Sliced text)
    {span : Span} {source : String} (hpart : r.build span source inner = .ok part) {word : String}
    {n : Node} (hlink : part.link? = some (word, n)) :
    Leads text ⟨byteLength before, byteLength before + byteLength (Tree.charsOf ps)⟩ word n := by
  have hkind : r.partKind = .operation ∨ r.partKind = .castTo := by
    rw [← kind_of_build hpart]
    cases part <;> first | exact .inl rfl | exact .inr rfl | cases hlink
  have hr : r = .binaryTail ∨ r = .castTail := by
    revert hkind
    cases r <;> decide
  rcases hr with rfl | rfl
  · obtain rfl := htried.spaced_of_plain rfl
    obtain ⟨w, u, place, blanks, place', made, -, rfl, hblanks, hfront, hstop⟩ :=
      items_of_match rfl (fun _ _ => rfl) hmatch htext hinner
    cases made with
    | node rhs =>
      obtain rfl := Except.ok.inj hpart
      obtain ⟨rfl, rfl⟩ := Prod.mk.inj (Option.some.inj hlink)
      have hspan : rhs.span = place' :=
        (hsliced _ (List.mem_cons_of_mem _ List.mem_cons_self)).covers rfl nofun rhs List.mem_cons_self
      rw [← String.toList_ofList (l := Tree.charsOf w), ← hspan] at hfront
      exact ⟨⟨blanks, hblanks, hfront⟩, hspan ▸ hstop⟩
    | _ => cases hpart
  · obtain rfl := htried.spaced_of_plain rfl
    obtain ⟨w, u, place, blanks, place', made, hword, rfl, hblanks, hfront, hstop⟩ :=
      items_of_match rfl (fun _ _ => rfl) hmatch htext hinner
    cases made with
    | node target =>
      obtain rfl := Except.ok.inj hpart
      obtain ⟨rfl, rfl⟩ := Prod.mk.inj (Option.some.inj hlink)
      have hspan : target.span = place' :=
        (hsliced _ (List.mem_cons_of_mem _ List.mem_cons_self)).covers rfl nofun target List.mem_cons_self
      rw [← String.toList_ofList (l := Tree.charsOf w), ← castWord_of_match hword, ← hspan] at hfront
      exact ⟨⟨blanks, hblanks, hfront⟩, hspan ▸ hstop⟩
    | _ => cases hpart

theorem treeJoined_node (htried : Tried layout (.rule r) (Tree.charsOf ps ++ rest))
    (hmatch : sourceGrammar.Matches (r.style.inside layout) r.body (Tree.charsOf ps ++ rest) ps rest)
    (hrow : r.style ≠ .word → r.body.Row (heads ps)) (hsliced : ∀ t ∈ ps, TreeSliced text t)
    (h : ∀ t ∈ ps, TreeJoined text t) : TreeJoined text (.node r ps) := by
  intro before behind items htext hitems
  obtain ⟨inner, part, hinner, hpart, rfl⟩ := Tree.items_node_eq_ok.1 hitems
  have hslices : ∀ i ∈ inner, i.Sliced text := sliced_itemsOf hsliced htext hinner
  have hbelow : ∀ i ∈ inner, i.Joined text := forall_itemsOf h htext hinner
  intro i hi
  obtain rfl := List.mem_singleton.1 hi
  refine ⟨?_, fun sign hsign => hasChar_of_match hsign hmatch htext,
    fun word n hlink => leads_of_match htried hmatch htext hinner hslices hpart hlink⟩
  have hcarried : ∀ n ∈ carried inner, ∀ m ∈ n.preorder, m.Joined text := by
    intro n hn
    obtain ⟨i, hi, hn⟩ := List.mem_flatMap.1 hn
    exact (hbelow i hi).nodes n hn
  by_cases hchain : r ∈ chainRules
  · have hstyle : ∀ d ∈ chainRules, d.style ≠ .word := by decide
    exact joined_chain hchain htried hmatch (hrow (hstyle r hchain)) htext hinner hslices hbelow hpart
  cases makes_of_match hmatch hrow hinner hpart with
  | hands _ hnodes => rwa [hnodes]
  | @wraps shape _ _ hchildren =>
    intro n hn
    obtain rfl := List.mem_singleton.1 hn
    rcases joint_of_build hchain hpart with hn | ⟨hsuffix, hlink⟩
    · exact hcarried _ hn
    · exact forall_preorder (.of_none hsuffix hlink) fun c hc => hcarried c (hchildren ▸ hc)
  | grows hr => exact absurd hr hchain

end Node

/-- Every node of what is read from a text is joined. -/
theorem joined_of_read {entry : Entry} {text : String} {nodes : List Node}
    (h : read entry text = .ok nodes) : ∀ n ∈ nodes, ∀ m ∈ n.preorder, m.Joined text.toList := by
  obtain ⟨trees, rest, items, htrees, htext, hitems, rfl⟩ := trees_of_read h
    (P := fun t => TreeSliced text.toList t ∧ TreeJoined text.toList t)
    (fun cs => ⟨treeSliced_text text.toList cs, treeJoined_text text.toList cs⟩)
    fun r layout ps rest htried hmatch hrow hps =>
      ⟨treeSliced_node htried hmatch hrow fun t ht => (hps t ht).1,
        treeJoined_node htried hmatch hrow (fun t ht => (hps t ht).1) fun t ht => (hps t ht).2⟩
  intro m hm
  obtain ⟨i, hi, hm⟩ := List.mem_flatMap.1 hm
  exact (forall_itemsOf (fun t ht => (htrees t ht).2) htext hitems i hi).nodes m hm

end SwiftMacro
