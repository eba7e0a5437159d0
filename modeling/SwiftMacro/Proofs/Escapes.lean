import SwiftMacro.Proofs.Literals
import SwiftMacro.Proofs.Rows
/-!
# Escapes that stand for no character

The grammar takes any hexadecimal number in an escape, but not every number is that of a character.
This is all that can go wrong once a text is matched. Every rule of the tree has the parts that it
expects, and `read_settles` says that building stops exactly at the first run of string text with such an
escape, and comes to an end if there is none.
-/

namespace SwiftMacro

namespace Text

/-! ## Runs of text, character by character -/

/-- The ways to write a character: itself, a letter behind a backslash, or its number. -/
inductive Spelling where
  | plain (c : Char)
  | letter (c : Char)
  | number (digits : List Char)

namespace Spelling

def chars : Spelling → List Char
  | plain c => [c]
  | letter c => ['\\', c]
  | number digits => '\\' :: 'u' :: '{' :: (digits ++ ['}'])

/-- What the grammar lets pass. -/
def Allowed : Spelling → Prop
  | plain c => c ≠ '\\'
  | letter c => (simpleEscape? c).isSome = true
  | number digits => digits ≠ [] ∧ ∀ d ∈ digits, Rule.isHexDigit d = true

/-- A number that no character has: that of a surrogate, or one above `10FFFF`. -/
def Bad : Spelling → Prop
  | number digits => ∃ n, hexFrom? 0 digits = some n ∧ (0xD800 ≤ n ∧ n ≤ 0xDFFF ∨ 0x10FFFF < n)
  | _ => False

/-- The character that a spelling stands for. -/
def value? : Spelling → Option Char
  | plain c => some c
  | letter c => simpleEscape? c
  | number digits => scalar? digits

end Spelling

/-- A text in which some character is spelled with a number that no character has. -/
def HasBadEscape (s : List Char) : Prop :=
  ∃ us : List Spelling, s = us.flatMap Spelling.chars ∧ (∀ u ∈ us, u.Allowed) ∧ ∃ u ∈ us, u.Bad

theorem hexDigit?_of_isHexDigit {d : Char} (h : Rule.isHexDigit d = true) : ∃ v, hexDigit? d = some v := by
  simp only [Rule.isHexDigit, Bool.or_eq_true, Bool.and_eq_true, decide_eq_true_eq] at h
  have hdigit : d.isDigit = true → '0' ≤ d ∧ d ≤ '9' := by
    intro hd
    simp only [Char.isDigit, Bool.and_eq_true, decide_eq_true_eq] at hd
    exact hd
  unfold hexDigit?
  split
  · exact ⟨_, rfl⟩
  next h0 =>
  split
  · exact ⟨_, rfl⟩
  next ha =>
  split
  · exact ⟨_, rfl⟩
  next hA =>
  rcases h with (h | h) | h
  · exact absurd (hdigit h) h0
  · exact absurd h ha
  · exact absurd h hA

theorem hexFrom?_of_isHexDigit {digits : List Char} (h : ∀ d ∈ digits, Rule.isHexDigit d = true)
    (n : Nat) : ∃ m, hexFrom? n digits = some m := by
  induction digits generalizing n with
  | nil => exact ⟨n, rfl⟩
  | cons d ds ih =>
    obtain ⟨v, hv⟩ := hexDigit?_of_isHexDigit (h d List.mem_cons_self)
    obtain ⟨m, hm⟩ := ih (fun x hx => h x (List.mem_cons_of_mem _ hx)) (16 * n + v)
    exact ⟨m, by simp [hexFrom?, hv, hm]⟩

namespace Spelling

/-- A spelling that is allowed stands for no character exactly if its number is bad. -/
theorem value?_eq_none_iff {u : Spelling} (h : u.Allowed) : u.value? = none ↔ u.Bad := by
  cases u with
  | plain c => simp [value?, Bad]
  | letter c =>
    have hsome : (simpleEscape? c).isSome = true := h
    simp [value?, Bad, Option.isSome_iff_ne_none.1 hsome]
  | number digits =>
    obtain ⟨hne, hall⟩ := h
    obtain ⟨n, hn⟩ := hexFrom?_of_isHexDigit hall 0
    have hempty : digits.isEmpty = false := by simpa using hne
    simp only [value?, scalar?, hempty, hn, Bad, Bool.false_eq_true, if_false, Option.bind_some,
      Option.some.injEq, exists_eq_left']
    unfold Nat.isValidChar
    split
    · simp only [reduceCtorEq, false_iff]
      omega
    · simp only [true_iff]
      omega

theorem unescape_append {u : Spelling} (h : u.Allowed) (s : List Char) :
    unescape (u.chars ++ s) = u.value?.bind fun c => (unescape s).map (c :: ·) := by
  cases u with
  | plain c => exact unescape_plain h s
  | letter c =>
    obtain ⟨d, hd⟩ := Option.isSome_iff_exists.1 h
    rw [value?, hd]
    exact unescape_simple hd s
  | number digits =>
    have htext : (number digits).chars ++ s = '\\' :: 'u' :: '{' :: (digits ++ '}' :: s) := by
      simp [chars]
    rw [htext, unescape_scalar _ _ fun d hd => ne_brace_of_isHexDigit (h.2 d hd), value?]
    cases scalar? digits <;> rfl

theorem unescape_eq_none_iff {us : List Spelling} (h : ∀ u ∈ us, u.Allowed) :
    unescape (us.flatMap chars) = none ↔ ∃ u ∈ us, u.Bad := by
  induction us with
  | nil => simp
  | cons u us ih =>
    have hu := h u List.mem_cons_self
    have hus := ih fun v hv => h v (List.mem_cons_of_mem _ hv)
    have hsplit : (∃ v ∈ u :: us, v.Bad) ↔ u.Bad ∨ ∃ v ∈ us, v.Bad := by simp
    rw [List.flatMap_cons, unescape_append hu, hsplit, ← value?_eq_none_iff hu, ← hus]
    cases u.value? <;> simp

end Spelling

theorem unescape_eq_none_of_hasBadEscape {s : List Char} (h : HasBadEscape s) : unescape s = none := by
  obtain ⟨us, rfl, hall, hbad⟩ := h
  exact (Spelling.unescape_eq_none_iff hall).2 hbad

end Text

/-! ## What the grammar takes as string text -/

section Grammar

open Text

variable {s rest : List Char}

theorem digits_of_accepts_upTo {p : Char → Bool} (n : Nat)
    (h : sourceGrammar.Accepts .hidden (Peg.upTo (.one p) n) s rest) :
    ∃ ds, ds ≠ [] ∧ (∀ d ∈ ds, p d = true) ∧ s = ds ++ rest := by
  induction n generalizing s with
  | zero =>
    obtain ⟨d, rfl, hd⟩ := Grammar.accepts_one.1 h
    exact ⟨[d], by simp, by simpa using hd, rfl⟩
  | succ n ih =>
    obtain ⟨r, hone, hopt⟩ := Grammar.accepts_seq.1 h
    obtain ⟨d, rfl, hd⟩ := Grammar.accepts_one.1 hone
    rcases Grammar.accepts_opt.1 hopt with hmore | ⟨-, rfl⟩
    · obtain ⟨ds, -, hds, hr⟩ := ih hmore
      refine ⟨d :: ds, by simp, ?_, congrArg (List.cons d) hr⟩
      simpa [hd] using hds
    · exact ⟨[d], by simp, by simpa using hd, rfl⟩

theorem spelling_of_accepts (h : sourceGrammar.Accepts .hidden stringUnit s rest) :
    ∃ u : Spelling, u.Allowed ∧ s = u.chars ++ rest := by
  rcases Grammar.accepts_alt.1 h with hescape | ⟨-, hplain⟩
  · obtain ⟨r, hslash, hbody⟩ := Grammar.accepts_seq.1 (Grammar.accepts_rule.1 hescape)
    obtain rfl := Grammar.accepts_lit.1 hslash
    rcases Grammar.accepts_alt.1 hbody with hletter | ⟨-, hnumber⟩
    · obtain ⟨w, hw, hr⟩ := mem_of_accepts_anyOf hletter
      change r = _ at hr
      subst hr
      simp only [List.mem_cons, List.not_mem_nil, or_false] at hw
      rcases hw with rfl | rfl | rfl | rfl | rfl | rfl | rfl
      · exact ⟨.letter '"', rfl, rfl⟩
      · exact ⟨.letter '\\', rfl, rfl⟩
      · exact ⟨.letter 'n', rfl, rfl⟩
      · exact ⟨.letter 't', rfl, rfl⟩
      · exact ⟨.letter 'r', rfl, rfl⟩
      · exact ⟨.letter '0', rfl, rfl⟩
      · exact ⟨.letter '\'', rfl, rfl⟩
    · obtain ⟨q, hfront, hclose⟩ := Grammar.accepts_seq.1 hnumber
      obtain ⟨t, hopen, hdigits⟩ := Grammar.accepts_seq.1 hfront
      have hr := Grammar.accepts_lit.1 hopen
      have hq := Grammar.accepts_lit.1 hclose
      obtain ⟨ds, hne, hall, ht⟩ := digits_of_accepts_upTo 7 hdigits
      change r = _ at hr
      change q = _ at hq
      change t = _ at ht
      subst hr ht hq
      exact ⟨.number ds, ⟨hne, hall⟩, by simp [Spelling.chars]⟩
  · obtain ⟨r, hnot, hany⟩ := Grammar.accepts_seq.1 hplain
    obtain ⟨hfails, rfl⟩ := Grammar.accepts_not.1 hnot
    obtain ⟨c, hs, -⟩ := Grammar.accepts_one.1 hany
    change r = _ at hs
    subst hs
    refine ⟨.plain c, ?_, rfl⟩
    rintro rfl
    exact fails_anyOf.1 hfails "\\" (by decide) ⟨rest, rfl⟩

theorem spellings_of_accepts_more (h : sourceGrammar.Accepts .hidden (.more stringUnit) s rest) :
    ∃ us : List Spelling, (∀ u ∈ us, u.Allowed) ∧ s = us.flatMap Spelling.chars ++ rest := by
  obtain ⟨parts, hm⟩ := h
  induction hm using Grammar.Matches.more_induct with
  | stop => exact ⟨[], by simp, rfl⟩
  | @turn s _ _ _ _ hunit _ ih =>
    obtain ⟨u, hu, hs⟩ := spelling_of_accepts ⟨_, hunit⟩
    obtain ⟨us, hus, rfl⟩ := ih
    change s = _ at hs
    refine ⟨u :: us, ?_, by simp [hs]⟩
    simpa [hu] using hus

/-- Every text of a string literal is spelled out in characters. -/
theorem spellings_of_stringText
    (h : sourceGrammar.Accepts .hidden (Rule.body .stringText) s rest) :
    ∃ us : List Spelling, (∀ u ∈ us, u.Allowed) ∧ s = us.flatMap Spelling.chars ++ rest := by
  obtain ⟨r, hunit, hmany⟩ := Grammar.accepts_seq.1 h
  have hmore : sourceGrammar.Accepts .hidden (.more stringUnit) r rest := by
    rw [Grammar.accepts_more]
    exact Grammar.accepts_many.1 hmany
  obtain ⟨u, hu, rfl⟩ := spelling_of_accepts hunit
  obtain ⟨us, hus, rfl⟩ := spellings_of_accepts_more hmore
  refine ⟨u :: us, ?_, by simp⟩
  simpa [hu] using hus

end Grammar

/-! ## The runs of a tree -/

/-- A run of text inside a string literal, and the bytes it covers. -/
structure Run where
  span : Span
  chars : List Char

/-- The run covers its own text in a source. -/
def Run.StandsIn (run : Run) (text : List Char) : Prop :=
  ∃ before behind, text = before ++ run.chars ++ behind ∧
    run.span = ⟨byteLength before, byteLength before + byteLength run.chars⟩

namespace Tree

mutual

/-- The runs of string text in a tree whose text starts at a byte offset, from left to right. -/
def runs (offset : Nat) : Tree Rule → List Run
  | text _ => []
  | node r parts =>
      if r = .stringText then
        [⟨⟨offset, offset + byteLength (charsOf parts)⟩, charsOf parts⟩]
      else runsOf offset parts

def runsOf (offset : Nat) : List (Tree Rule) → List Run
  | [] => []
  | t :: ts => runs offset t ++ runsOf (offset + byteLength t.chars) ts

end

mutual

theorem standsIn_of_mem_runs {text : List Char} (before behind : List Char) : ∀ {t : Tree Rule},
    text = before ++ t.chars ++ behind → ∀ run ∈ runs (byteLength before) t, run.StandsIn text
  | .text _, _, _, hrun => by cases hrun
  | .node r parts, htext, run, hrun => by
    rw [runs] at hrun
    split at hrun
    · rw [List.mem_singleton.1 hrun]
      exact ⟨before, behind, htext, rfl⟩
    · exact standsIn_of_mem_runsOf before behind htext run hrun

/-- The runs of a tree stand where their spans say. -/
theorem standsIn_of_mem_runsOf {text : List Char} (before behind : List Char) :
    ∀ {ts : List (Tree Rule)},
    text = before ++ charsOf ts ++ behind → ∀ run ∈ runsOf (byteLength before) ts, run.StandsIn text
  | [], _, _, hrun => by cases hrun
  | t :: ts, htext, run, hrun => by
    rw [runsOf, List.mem_append, ← byteLength_append] at hrun
    rcases hrun with hrun | hrun
    · refine standsIn_of_mem_runs before (charsOf ts ++ behind) ?_ run hrun
      simp [htext, charsOf]
    · refine standsIn_of_mem_runsOf (before ++ t.chars) behind ?_ run hrun
      simp [htext, charsOf]

end

end Tree

/-! ## Building up to the first bad escape -/

open Text

/-- Either there is a result and no run has a bad escape, or the first run that has one is the
error. -/
def Settles {α : Type} (runs : List Run) (result : Except ReadError α) (good : α → Prop) : Prop :=
  (∃ a, result = .ok a ∧ good a ∧ ∀ run ∈ runs, ¬ HasBadEscape run.chars) ∨
  ∃ front run back, runs = front ++ run :: back ∧ (∀ r ∈ front, ¬ HasBadEscape r.chars) ∧
    HasBadEscape run.chars ∧ result = .error (.malformed "escape sequence" run.span)

/-- The tree is built, or stops at its first bad escape, wherever it stands. -/
def TreeSettles (t : Tree Rule) : Prop :=
  ∀ offset, Settles (t.runs offset) (t.items offset) (IsRow t.rule?.toList)

theorem settles_itemsOf {ts : List (Tree Rule)} (h : ∀ t ∈ ts, TreeSettles t) (offset : Nat) :
    Settles (Tree.runsOf offset ts) (Tree.itemsOf offset ts) (IsRow (heads ts)) := by
  induction ts generalizing offset with
  | nil => exact .inl ⟨[], rfl, isRow_nil, by simp [Tree.runsOf]⟩
  | cons t ts ih =>
    rw [Tree.runsOf, Tree.itemsOf, heads_cons]
    rcases h t List.mem_cons_self offset with
      ⟨front, hfront, hrow, hclean⟩ | ⟨front, run, back, hruns, hclean, hbad, herror⟩
    · rw [hfront]
      rcases ih (fun u hu => h u (List.mem_cons_of_mem _ hu)) (offset + byteLength t.chars) with
        ⟨back, hback, hrow', hclean'⟩ | ⟨before, run, behind, hruns, hclean', hbad, herror⟩
      · refine .inl ⟨front ++ back, by rw [hback], hrow.append hrow', ?_⟩
        exact fun r hr => (List.mem_append.1 hr).elim (hclean r) (hclean' r)
      · refine .inr ⟨t.runs offset ++ before, run, behind, by simp [hruns], ?_, hbad, by rw [herror]⟩
        exact fun r hr => (List.mem_append.1 hr).elim (hclean r) (hclean' r)
    · rw [herror]
      exact .inr ⟨front, run, back ++ Tree.runsOf (offset + byteLength t.chars) ts,
        by simp [hruns], hclean, hbad, rfl⟩

/-- Where the trees below a node settle, the node does: only string text can add an error. -/
theorem treeSettles_node {r : Rule} {layout : Layout} {ps : List (Tree Rule)} {rest : List Char}
    (hmatch : sourceGrammar.Matches (r.style.inside layout) r.body (Tree.charsOf ps ++ rest) ps rest)
    (hrow : r.style ≠ .word → r.body.Row (heads ps)) (h : ∀ t ∈ ps, TreeSettles t) : TreeSettles (.node r ps) := by
  intro offset
  rw [Tree.runs, Tree.items]
  by_cases hr : r = .stringText
  · subst hr
    obtain ⟨its, hits, hnone⟩ := (builds_of_hidden hmatch rfl).itemsOf offset
    obtain ⟨us, hus, htext⟩ := spellings_of_stringText ⟨_, hmatch⟩
    have hchars : Tree.charsOf ps = us.flatMap Spelling.chars := List.append_cancel_right htext
    rw [if_pos rfl, hits]
    simp only [Rule.build, String.toList_ofList]
    cases hu : unescape (Tree.charsOf ps) with
    | some content =>
      refine .inl ⟨_, rfl, ⟨rfl, by simp [Item.Fits, Part.kind, Rule.partKind]⟩, ?_⟩
      simp only [List.mem_singleton]
      rintro _ rfl hbad
      rw [unescape_eq_none_of_hasBadEscape hbad] at hu
      cases hu
    | none =>
      have hbad : HasBadEscape (Tree.charsOf ps) := by
        rw [hchars] at hu
        exact ⟨us, hchars, hus, (Spelling.unescape_eq_none_iff hus).1 hu⟩
      exact .inr ⟨[], _, [], rfl, by simp, hbad, rfl⟩
  · rw [if_neg hr]
    rcases settles_itemsOf h offset with
      ⟨inner, hinner, ⟨hrules, hfits⟩, hclean⟩ | ⟨front, run, back, hruns, hclean, hbad, herror⟩
    · obtain ⟨part, hpart⟩ := build_ok hr hfits (hrules ▸ expects_of_row hrow)
        ⟨offset, offset + byteLength (Tree.charsOf ps)⟩ (String.ofList (Tree.charsOf ps))
      rw [hinner]
      simp only [hpart]
      refine .inl ⟨_, rfl, ⟨rfl, ?_⟩, hclean⟩
      simp only [List.mem_singleton]
      rintro _ rfl
      exact kind_of_build hpart
    · rw [herror]
      exact .inr ⟨front, run, back, hruns, hclean, hbad, rfl⟩

/-! ## Entry points -/

theorem treeSettles_of_matches {layout : Layout} {e : Peg Rule} {s rest : List Char}
    {parts : List (Tree Rule)} (h : sourceGrammar.Matches layout e s parts rest) :
    ∀ t ∈ parts, TreeSettles t :=
  (trees_of_matches (fun _ _ => .inl ⟨[], rfl, isRow_nil, by simp [Tree.runs]⟩)
    (fun _ _ _ _ hmatch hrow h => treeSettles_node hmatch hrow h) h).1

/-- The entries for one node expect it and the end of the text. -/
theorem expects_entry {entry : Entry} (hentry : entry ≠ .source) :
    ∃ d, d.partKind = .node ∧ (∀ rs, entry.rule.Expects rs → rs = [d, .endOfInput]) ∧
      ∀ span text items, entry.rule.build span text items = .ok (.nodes (nodesOf [d] items)) := by
  cases entry with
  | source => exact absurd rfl hentry
  | expression => exact ⟨.expr, rfl, fun _ => id, fun _ _ _ => rfl⟩
  | accessor => exact ⟨.accessor, rfl, fun _ => id, fun _ _ _ => rfl⟩
  | type => exact ⟨.typeExpr, rfl, fun _ => id, fun _ _ _ => rfl⟩

/-- The tree of a text that an entry matches. -/
theorem entry_tree {entry : Entry} {s rest : List Char} {trees : List (Tree Rule)}
    (h : sourceGrammar.Matches .spaced (.rule entry.rule) s trees rest) :
    ∃ ps, trees = [.node entry.rule ps] ∧ entry.rule.Expects (heads ps) := by
  obtain ⟨ps, -, hclose⟩ := Grammar.matches_rule.1 h
  have htrees : trees = [.node entry.rule ps] := by cases entry <;> exact hclose
  cases expected_of_matches h (.node entry.rule ps) (htrees ▸ List.mem_cons_self) with
  | node hr hts => exact ⟨ps, htrees, hr⟩

/-- One node is read by each entry but that of a whole source. -/
theorem exists_singleton_of_read {entry : Entry} (hentry : entry ≠ .source) {s : List Char}
    {nodes : List Node} (h : readChars entry s = .ok nodes) : ∃ n, nodes = [n] := by
  obtain ⟨trees, rest, items, hmatch, hitems, rfl⟩ := readChars_eq_ok_iff_matches.1 h
  obtain ⟨ps, rfl, hexpects⟩ := entry_tree hmatch
  obtain ⟨d, hd, honly, hbuild⟩ := expects_entry hentry
  obtain ⟨front, back, hfront, hback, rfl⟩ := Tree.itemsOf_cons_eq_ok.1 hitems
  obtain rfl := Except.ok.inj hback
  obtain ⟨inner, part, hinner, hpart, rfl⟩ := Tree.items_node_eq_ok.1 hfront
  obtain ⟨hrules, hfits⟩ := isRow_of_itemsOf hinner
  rw [honly _ hexpects] at hrules
  obtain ⟨place, n, rest, rfl, hrest, -⟩ := items_node_cons hfits hrules hd
  obtain rfl := Except.ok.inj ((hbuild _ _ _).symm.trans hpart)
  have hend : nodesOf [d] rest = [] := by
    refine nodesOf_eq_nil_of_forall fun r hr => ?_
    rw [hrest, List.mem_singleton] at hr
    rw [hr, List.mem_singleton]
    rintro rfl
    cases hd
  have hone : nodesOf [d] (⟨d, place, .node n⟩ :: rest) = n :: nodesOf [d] rest := by
    simp [nodesOf, Item.nodeOf?]
  exact ⟨n, by simp [genericsOf, hone, hend]⟩

/-- A text that the grammar matches has a tree in which every rule has the parts that it expects, and it
is read, unless a run of string text has an escape for a number that no character has. The error then
names the first such run, by the bytes it covers. -/
theorem read_settles {entry : Entry} {text : String} {trees : List (Tree Rule)} {rest : List Char}
    (h : sourceGrammar.parse entry.rule text.toList = some (trees, rest)) :
    (∀ t ∈ trees, t.Expected) ∧ (∀ run ∈ Tree.runsOf 0 trees, run.StandsIn text.toList) ∧
    Settles (Tree.runsOf 0 trees) (read entry text) (fun _ => True) ∧
    (entry ≠ .source → Settles (Tree.runsOf 0 trees) (readOne entry text) fun _ => True) := by
  have hmatch := parse_eq_some.1 h
  have htext := hmatch.text sourceGrammar_blanksSplit
  have hread : Settles (Tree.runsOf 0 trees) (read entry text) fun _ => True := by
    unfold read readChars
    rw [h]
    rcases settles_itemsOf (treeSettles_of_matches hmatch) 0 with
      ⟨its, hits, -, hclean⟩ | ⟨front, run, back, hruns, hclean, hbad, herror⟩
    · simp only [hits]
      exact .inl ⟨_, rfl, trivial, hclean⟩
    · simp only [herror]
      exact .inr ⟨front, run, back, hruns, hclean, hbad, rfl⟩
  refine ⟨expected_of_matches hmatch, Tree.standsIn_of_mem_runsOf [] rest htext.symm, hread, ?_⟩
  intro hentry
  unfold readOne
  rcases hread with ⟨nodes, hnodes, -, hclean⟩ | ⟨front, run, back, hruns, hclean, hbad, herror⟩
  · obtain ⟨n, rfl⟩ := exists_singleton_of_read hentry hnodes
    rw [hnodes]
    exact .inl ⟨n, rfl, trivial, hclean⟩
  · rw [herror]
    exact .inr ⟨front, run, back, hruns, hclean, hbad, rfl⟩

theorem read_settles_surrogate : ∃ trees rest run,
    sourceGrammar.parse .expressionEntry "f(\"a\", \"b\\u\x7bD800\x7d\")".toList = some (trees, rest) ∧
    run ∈ Tree.runsOf 0 trees ∧ HasBadEscape run.chars ∧
    readExpression "f(\"a\", \"b\\u\x7bD800\x7d\")" =
      .error (.malformed "escape sequence" run.span) := by
  obtain ⟨⟨trees, rest⟩, h⟩ := Option.isSome_iff_exists.1
    (by decide +kernel : (sourceGrammar.parse .expressionEntry
      "f(\"a\", \"b\\u\x7bD800\x7d\")".toList).isSome = true)
  have hfails : (readExpression "f(\"a\", \"b\\u\x7bD800\x7d\")").isOk = false := by decide +kernel
  rcases (@read_settles .expression _ _ _ h).2.2.2 (by decide) with
    ⟨n, hn, -, -⟩ | ⟨front, run, back, hruns, -, hbad, herror⟩
  · rw [readExpression, hn] at hfails
    cases hfails
  · exact ⟨trees, rest, run, h, by simp [hruns], hbad, herror⟩

end SwiftMacro
