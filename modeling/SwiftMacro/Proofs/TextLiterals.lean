import SwiftMacro.Node.Build
import SwiftMacro.Proofs.Slices
/-!
# The literal of a text

Every text can be written as a string literal. `text_literal_reads_back` says that the literal is read
back as one segment, the text, from the first byte to the last, whatever quotes, backslashes and control
characters the text has: escaping leaves one run of string text, in which no interpolation starts.
-/

namespace SwiftMacro

open Peg

variable {layout : Layout}

/-! ## Between the quotes -/

/-- No interpolation starts where a character of an escaped text is next, or the quote behind it. -/
theorem fails_interpolation_escaped (content s : List Char) :
    sourceGrammar.Fails layout (.rule .interpolation) (content.flatMap Text.escape ++ '"' :: s) := by
  by_cases hne : content = []
  · rw [hne]
    exact fails_of_first s rfl rfl rfl rfl
  · exact fails_interpolation hne _

/-- String text takes all of an escaped text, up to the quote. -/
theorem accepts_stringText {content : List Char} (hne : content ≠ []) (s : List Char) :
    sourceGrammar.Accepts .joined (.rule .stringText) (content.flatMap Text.escape ++ '"' :: s)
      ('"' :: s) :=
  (reads_stringText hne (.inl ⟨s, rfl⟩)).accepts

/-- The closing quote is no segment. -/
theorem fails_segment_quote (s : List Char) :
    sourceGrammar.Fails .joined (.rule .interpolation / .rule .stringText) ('"' :: s) := by
  refine Grammar.fails_alt.2 ⟨fails_of_first s rfl rfl rfl rfl, ?_⟩
  exact Grammar.fails_rule.2 (Grammar.fails_seq.2 (.inl (fails_stringUnit (.inl ⟨s, rfl⟩))))

/-- An escaped text makes one segment, or none where it is empty. -/
theorem readsAt_segments (o : Nat) (content s : List Char) :
    ∃ items, ReadsAt .joined o (.many (.rule .interpolation / .rule .stringText))
        (content.flatMap Text.escape ++ '"' :: s) items ('"' :: s) ∧
      items.filterMap Item.segment? =
        if content = [] then [] else [.text (String.ofList content)] := by
  by_cases hne : content = []
  · subst hne
    exact ⟨[], readsAt_many_nil (fails_segment_quote s), rfl⟩
  · have haccepts : sourceGrammar.Accepts .hidden (Rule.body .stringText) _ _ :=
      Grammar.accepts_rule.1 (accepts_stringText hne s)
    have hbuild : Rule.build .stringText ⟨o, o + byteLength (content.flatMap Text.escape)⟩
        (String.ofList (content.flatMap Text.escape)) [] = .ok (.word (String.ofList content)) := by
      simp only [Rule.build, String.toList_ofList, Text.unescape_flatMap_escape]
    have hrun : ReadsAt .joined o (.rule .stringText) _ _ _ :=
      readsAt_word rfl (by decide) haccepts hbuild
    refine ⟨_, (hrun.alt_right (fails_interpolation hne _)).once (fails_segment_quote s), ?_⟩
    rw [if_neg hne]
    rfl

/-! ## The literal -/

/-- A rule whose expression reads a whole text makes a node of it. -/
theorem ReadsAt.whole {d : Rule} {q : List Char} {items : List Item} {n : Node}
    (h : ReadsAt (d.style.inside .spaced) 0 d.body q items [])
    (hbuild : d.build ⟨0, byteLength q⟩ (String.ofList q) items = .ok (.node n)) : Whole d q n := by
  obtain ⟨parts, hmatch, hitems⟩ := h
  have htext := hmatch.text sourceGrammar_blanksSplit
  rw [List.append_nil] at htext
  rw [← htext, ← Nat.zero_add (byteLength _)] at hbuild
  exact ⟨parts, _, matches_node hmatch, Tree.items_node_eq_ok.2 ⟨items, _, hitems, hbuild, rfl⟩⟩

/-- An escaped text between quotes. -/
def quotedChars (content : List Char) : List Char := '"' :: (content.flatMap Text.escape ++ ['"'])

theorem toList_render_string (span : Span) (content : String) :
    (Node.string span content).render.toList = quotedChars content.toList := by
  have htext : (Node.string span content).render.toList = (Node.string span content).charsAt 0 := rfl
  rw [htext, Node.string, charsAt_string]
  simp [Segment.chars, quotedChars]

/-- A text between quotes is read as its literal, which covers the quotes. -/
theorem whole_quotedChars (content : List Char) : Whole .stringLiteral (quotedChars content)
    ⟨.stringLiteral [.text (String.ofList content)], ⟨0, byteLength (quotedChars content)⟩⟩ := by
  obtain ⟨items, hsegments, hitems⟩ := readsAt_segments 1 content []
  have hopen : ReadsAt .joined 0 (.lit "\"") (quotedChars content) []
      (content.flatMap Text.escape ++ ['"']) := readsAt_lit "\""
  have hclose : ReadsAt .joined (1 + byteLength (content.flatMap Text.escape)) (.lit "\"") ['"'] [] [] :=
    readsAt_lit "\""
  have hfront := hopen.seq rfl (Nat.zero_add _) hsegments
  have hlength : 0 + byteLength (quotedChars content) =
      1 + byteLength (content.flatMap Text.escape) + byteLength ['"'] := by
    rw [quotedChars, byteLength, byteLength_append, Nat.zero_add, Nat.add_assoc]
    rfl
  have hbody : ReadsAt (Rule.style .stringLiteral |>.inside .spaced) 0 (Rule.body .stringLiteral)
      (quotedChars content) ([] ++ items ++ []) [] := hfront.seq rfl hlength hclose
  refine hbody.whole ?_
  simp only [Rule.build, List.append_nil, List.nil_append, hitems]
  by_cases hne : content = []
  · rw [hne]
    rfl
  · rw [if_neg hne]

/-- A text that is written as a string literal is read back as the literal of this one text, from the
first byte to the last. Between the quotes stands the text with its escapes, which resolve to the text.
Unless the text is empty, this is one run of string text, and no interpolation starts before any
character of it or at the closing quote. -/
theorem text_literal_reads_back (span : Span) (content : String) :
    (Node.string span content).render.toList =
      '"' :: (content.toList.flatMap Text.escape ++ ['"']) ∧
    readExpression (Node.string span content).render =
      .ok ⟨.stringLiteral [.text content], ⟨0, (Node.string span content).render.utf8ByteSize⟩⟩ ∧
    Text.unescape (content.toList.flatMap Text.escape) = some content.toList ∧
    (content ≠ "" → sourceGrammar.Accepts .joined (.rule .stringText)
      (content.toList.flatMap Text.escape ++ ['"']) ['"']) ∧
    (∀ front back, content.toList = front ++ back → sourceGrammar.Fails .joined (.rule .interpolation)
      (back.flatMap Text.escape ++ ['"'])) := by
  have htext := toList_render_string span content
  refine ⟨htext, ?_, Text.unescape_flatMap_escape _, fun hne => accepts_stringText ?_ [],
    fun _ back _ => fails_interpolation_escaped back []⟩
  · have hwhole := whole_quotedChars content.toList
    rw [String.ofList_toList, ← htext, byteLength_toList] at hwhole
    have hsolid : after .spaced (Node.string span content).render.toList =
        (Node.string span content).render.toList := by
      rw [htext]
      exact after_solid rfl _
    have hread := readOne_of_readChars (readChars_of_whole rfl hsolid hwhole)
    rwa [String.ofList_toList] at hread
  · exact fun hnil => hne (String.toList_inj.1 hnil)

/-- What looks like an interpolation behind a backslash, and characters of each way to be written. -/
theorem text_literal_reads_back_backslashes : let content := "\\\\(x)\"\x00\x85💡"
    content ≠ "" ∧
    (Node.string default content).render = "\"\\\\\\\\(x)\\\"\\0\\u\x7b85\x7d💡\"" ∧
    readExpression "\"\\\\\\\\(x)\\\"\\0\\u\x7b85\x7d💡\"" =
      .ok ⟨.stringLiteral [.text content], ⟨0, 23⟩⟩ ∧
    content.toList = ['\\'] ++ "\\(x)\"\x00\x85💡".toList ∧
    sourceGrammar.Accepts .joined (.rule .stringText)
      (content.toList.flatMap Text.escape ++ ['"']) ['"'] ∧
    sourceGrammar.Fails .joined (.rule .interpolation)
      ("\\(x)\"\x00\x85💡".toList.flatMap Text.escape ++ ['"']) := by
  intro content
  obtain ⟨-, hread, -, hrun, hnone⟩ := text_literal_reads_back default content
  have hne : content ≠ "" := by decide
  have htext : (Node.string default content).render = "\"\\\\\\\\(x)\\\"\\0\\u\x7b85\x7d💡\"" := by
    decide +kernel
  have hsplit : content.toList = ['\\'] ++ "\\(x)\"\x00\x85💡".toList := by decide +kernel
  rw [htext] at hread
  exact ⟨hne, htext, hread, hsplit, hrun hne, hnone _ _ hsplit⟩

end SwiftMacro
