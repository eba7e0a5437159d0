import SwiftMacro.Config
/-!
# Texts of white space

YAML has its own blanks and line breaks, and not all white space is among them: a no-break space is the
text of a plain scalar. But a mapping needs a brace, a colon or a question mark, so a text of white space
holds none (`root_ne_mapping_of_isWhitespace`), and nothing is lost where such a text is not read at all.
-/

namespace SwiftMacro.Yaml

/-! ## Reading moves on in the text -/

namespace Cursor

theorem skip_suffix (c : Cursor) : c.skip.rest <:+ c.rest := by
  unfold skip
  split
  · exact List.suffix_rfl
  next x rest h => exact h ▸ List.suffix_cons x rest

theorem skipWhile_suffix (c : Cursor) (p : Char → Bool) : (c.skipWhile p).rest <:+ c.rest :=
  List.drop_suffix _ _

theorem skipComment_suffix (c : Cursor) : c.skipComment.rest <:+ c.rest := by
  unfold skipComment
  split
  · exact c.skipWhile_suffix _
  · exact List.suffix_rfl

theorem skipLine_suffix (c : Cursor) : c.skipLine.rest <:+ c.rest := by
  unfold skipLine
  split
  next rest h => exact h ▸ (List.suffix_cons _ rest).trans (List.suffix_cons _ _)
  next x rest _ h =>
    split
    · exact h ▸ List.suffix_cons x rest
    · exact List.suffix_rfl
  · exact List.suffix_rfl

end Cursor

theorem Gap.scan_suffix {limit : Nat} : ∀ {fuel : Nat} {g : Gap} {c : Cursor} {read : Scanned Gap},
    Gap.scan limit fuel g c = .ok read → read.after.rest <:+ c.rest := by
  intro fuel
  induction fuel with
  | zero =>
    rintro g c _ ⟨⟩
    exact List.suffix_rfl
  | succ fuel ih =>
    intro g c read h
    unfold Gap.scan at h
    split at h
    · cases h
      exact List.suffix_rfl
    split at h
    · split at h
      · exact (ih h).trans c.skip_suffix
      split at h
      · cases h
      · exact (ih h).trans c.skip_suffix
    split at h
    · exact (ih h).trans c.skipLine_suffix
    · cases h
      exact List.suffix_rfl

theorem Plain.scan_suffix {flow : Bool} {indent : Nat} {start : Mark} :
    ∀ {fuel : Nat} {p : Plain} {g : Gap} {c : Cursor} {read : Scanned Plain},
      Plain.scan flow indent start fuel p g c = .ok read → read.after.rest <:+ c.rest := by
  intro fuel
  induction fuel with
  | zero =>
    rintro p g c _ ⟨⟩
    exact List.suffix_rfl
  | succ fuel ih =>
    intro p g c read h
    unfold Plain.scan at h
    split at h
    · cases h
      exact List.suffix_rfl
    split at h
    · cases h
    · cases h
      exact List.suffix_rfl
    next word _ _ =>
      have hword : (c.skipMany word.length).rest <:+ c.rest := List.drop_suffix _ _
      simp only at h
      split at h
      · cases h
      next next behind hgap =>
        have hbehind := (Gap.scan_suffix hgap).trans hword
        split at h
        · cases h
          exact hbehind
        · exact (ih h).trans hbehind

theorem Scanner.toToken_suffix {flow : Bool} : ∀ (fuel : Nat) (allowed : Bool) (c : Cursor),
    (toToken flow fuel allowed c).2.rest <:+ c.rest := by
  intro fuel
  induction fuel with
  | zero => exact fun _ _ => List.suffix_rfl
  | succ fuel ih =>
    intro allowed c
    have hmark : (if c.mark.column == 0 && c.sees '\ufeff' then c.skip else c).rest <:+ c.rest := by
      split
      · exact c.skip_suffix
      · exact List.suffix_rfl
    unfold toToken
    simp only
    generalize (if c.mark.column == 0 && c.sees '\ufeff' then c.skip else c) = start at hmark ⊢
    have hskipped := fun p => (Cursor.skipComment_suffix _).trans ((start.skipWhile_suffix p).trans hmark)
    split
    · exact (ih _ _).trans ((Cursor.skipLine_suffix _).trans (hskipped _))
    · exact hskipped _

/-! ## Tokens -/

/-- Whether a token is a plain scalar or the end of a block collection. -/
def TokenKind.isPlain : TokenKind → Bool
  | scalar _ plain => plain
  | blockEnd => true
  | _ => false

namespace Scanner

variable {s s' : Scanner}

/-- White space is left, and nothing but plain scalars has been read. -/
structure Inert (s : Scanner) : Prop where
  white : ∀ x ∈ s.cursor.rest, Text.isWhitespace x = true
  plain : ∀ t ∈ s.tokens, t.kind.isPlain = true

theorem Inert.of_suffix (h : s.Inert) (hcursor : s'.cursor.rest <:+ s.cursor.rest)
    (htokens : s'.tokens = s.tokens) : s'.Inert :=
  ⟨fun x hx => h.white x (hcursor.mem hx), htokens ▸ h.plain⟩

theorem missStaleKeys_eq (h : s.missStaleKeys = .ok s') : s'.cursor = s.cursor ∧ s'.tokens = s.tokens := by
  unfold missStaleKeys at h
  cases houter : s.outerKeys.reverse.mapM (missStaleKey s.cursor) with
  | error e => rw [houter] at h; cases h
  | ok outer =>
    rw [houter] at h
    cases hinner : missStaleKey s.cursor s.keyStart with
    | error e => simp only [bind, Except.bind, hinner] at h; cases h
    | ok inner =>
      simp only [bind, Except.bind, hinner] at h
      cases h
      exact ⟨rfl, rfl⟩

theorem clearKey_eq (h : s.clearKey = .ok s') : s'.cursor = s.cursor ∧ s'.tokens = s.tokens := by
  unfold clearKey at h
  cases hkey : missKey s.cursor s.keyStart with
  | error e => rw [hkey] at h; cases h
  | ok key =>
    rw [hkey] at h
    cases h
    exact ⟨rfl, rfl⟩

theorem noteKey_eq (h : s.noteKey = .ok s') : s'.cursor = s.cursor ∧ s'.tokens = s.tokens := by
  unfold noteKey at h
  split at h
  · cases hclear : s.clearKey with
    | error e => rw [hclear] at h; cases h
    | ok cleared =>
      obtain ⟨hcursor, htokens⟩ := clearKey_eq hclear
      rw [hclear] at h
      cases h
      exact ⟨hcursor, htokens⟩
  · cases h
    exact ⟨rfl, rfl⟩

theorem Inert.closeBlocks (h : s.Inert) (column : Option Nat) : (s.closeBlocks column).Inert := by
  unfold Scanner.closeBlocks
  split
  · exact h
  · refine ⟨h.white, fun t ht => ?_⟩
    rcases List.mem_append.1 ht with ht | ht
    · obtain ⟨_, -, rfl⟩ := List.mem_map.1 ht
      rfl
    · exact h.plain t ht

theorem Inert.advance (h : s.Inert) (hadvance : s.advance = .ok s') : s'.Inert := by
  unfold Scanner.advance at hadvance
  have hsuffix := @toToken_suffix s.inFlow (s.cursor.rest.length + 1) s.keyAllowed s.cursor
  generalize toToken s.inFlow (s.cursor.rest.length + 1) s.keyAllowed s.cursor = moved at hsuffix hadvance
  obtain ⟨allowed, cursor⟩ := moved
  cases hmiss : missStaleKeys { s with cursor := cursor, keyAllowed := allowed } with
  | error e => simp only [bind, Except.bind, hmiss] at hadvance; cases hadvance
  | ok missed =>
    simp only [bind, Except.bind, hmiss] at hadvance
    cases hadvance
    obtain ⟨hcursor, htokens⟩ := missStaleKeys_eq hmiss
    have hmissed : missed.Inert := h.of_suffix (hcursor ▸ hsuffix) htokens
    exact hmissed.closeBlocks _

/-- White space starts no token but a plain scalar. -/
theorem token_of_isWhitespace {x : Char} {rest : List Char} (hrest : s.cursor.rest = x :: rest)
    (hx : Text.isWhitespace x = true) (htoken : s.token x = .ok s') : s.plain = .ok s' := by
  have hne : ∀ y, Text.isWhitespace y = false → x ≠ y := by
    rintro y hy rfl
    rw [hx] at hy
    cases hy
  have hmarker : ∀ y, Text.isWhitespace y = false → s.cursor.seesMarker y = false := by
    intro y hy
    simp [Cursor.seesMarker, hrest, hne y hy]
  unfold token at htoken
  simp only [hmarker '-' rfl, hmarker '.' rfl, beq_false_of_ne (hne '%' rfl), beq_false_of_ne (hne '[' rfl),
    beq_false_of_ne (hne '{' rfl), beq_false_of_ne (hne ']' rfl), beq_false_of_ne (hne '}' rfl),
    beq_false_of_ne (hne ',' rfl), beq_false_of_ne (hne '-' rfl), beq_false_of_ne (hne '?' rfl),
    beq_false_of_ne (hne ':' rfl), beq_false_of_ne (hne '*' rfl), beq_false_of_ne (hne '&' rfl),
    beq_false_of_ne (hne '!' rfl), beq_false_of_ne (hne '|' rfl), beq_false_of_ne (hne '>' rfl),
    beq_false_of_ne (hne '\'' rfl), beq_false_of_ne (hne '"' rfl), Bool.and_false, Bool.false_and,
    Bool.false_eq_true, if_false] at htoken
  split at htoken
  · exact htoken
  · cases htoken

theorem Inert.scalar (h : s.Inert) (hplain : s.plain = .ok s') : s'.Inert := by
  unfold Scanner.plain at hplain
  cases hnote : s.noteKey with
  | error e => rw [hnote] at hplain; cases hplain
  | ok noted =>
    obtain ⟨hcursor, htokens⟩ := noteKey_eq hnote
    simp only [bind, Except.bind, hnote] at hplain
    split at hplain
    · cases hplain
    next read hread =>
      cases hplain
      have hsuffix : read.after.rest <:+ noted.cursor.rest := Plain.scan_suffix hread
      refine ⟨fun x hx => h.white x ((hcursor ▸ hsuffix).mem hx), fun t ht => ?_⟩
      rcases List.mem_cons.1 ht with rfl | ht
      · rfl
      · exact h.plain t (htokens ▸ ht)

/-- At the end of the text, blocks are closed. -/
theorem Inert.plain_of_finish (h : s.Inert) {tokens : List Token} {mark : Mark}
    (hfinish : s.finish = .ok (tokens, mark)) : ∀ t ∈ tokens, t.kind.isPlain = true := by
  have hend : ∀ here, Inert { s with cursor := ⟨[], here⟩ } := fun here => ⟨nofun, h.plain⟩
  unfold Scanner.finish at hfinish
  simp only [bind, Except.bind] at hfinish
  split at hfinish
  · cases hfinish
  next cleared hclear =>
    cases hfinish
    intro t ht
    rw [(clearKey_eq hclear).2] at ht
    exact ((hend _).closeBlocks none).plain t (List.mem_reverse.1 ht)

end Scanner

/-! ## The first token -/

namespace Tokens

/-- Nothing but plain scalars stands first. -/
def StartsPlain : Tokens → Prop
  | cons t _ => t.kind.isPlain = true
  | _ => True

theorem startsPlain_append {front : List Token} {rest : Tokens} (hfront : ∀ t ∈ front, t.kind.isPlain = true)
    (hrest : rest.StartsPlain) : (append front rest).StartsPlain := by
  cases front with
  | nil => exact hrest
  | cons t ts => exact hfront t List.mem_cons_self

end Tokens

namespace Scanner

theorem startsPlain_scan : ∀ (fuel : Nat) (s : Scanner), s.Inert → (scan fuel s).StartsPlain := by
  intro fuel
  induction fuel with
  | zero =>
    exact fun s h => Tokens.startsPlain_append (fun t ht => h.plain t (List.mem_reverse.1 ht)) trivial
  | succ fuel ih =>
    intro s h
    have hstopped : ∀ {before : Scanner} (problem : Problem), before.Inert →
        (Tokens.append (before.tokens.reverse.take before.settled) (.broken problem)).StartsPlain :=
      fun _ hbefore => Tokens.startsPlain_append
        (fun t ht => hbefore.plain t (List.mem_reverse.1 (List.mem_of_mem_take ht))) trivial
    unfold scan
    simp only
    split
    · exact hstopped _ h
    next missed hmiss =>
    obtain ⟨hcursor, htokens⟩ := missStaleKeys_eq hmiss
    have hmissed : missed.Inert := h.of_suffix (hcursor ▸ List.suffix_rfl) htokens
    split
    · exact hstopped _ hmissed
    next here hadvance =>
    have hhere := hmissed.advance hadvance
    split
    next =>
      split
      · exact hstopped _ hmissed
      next tokens mark hfinish =>
        refine Tokens.startsPlain_append (hhere.plain_of_finish hfinish) trivial
    next x hnext =>
      split
      · exact hstopped _ hmissed
      next next htoken =>
        obtain ⟨rest, hrest⟩ := List.head?_eq_some_iff.1 hnext
        have hx := hhere.white x (hrest ▸ List.mem_cons_self)
        exact ih next (hhere.scalar (token_of_isWhitespace hrest hx htoken))

end Scanner

theorem startsPlain_ofText {text : String} (h : ∀ x ∈ text.toList, Text.isWhitespace x = true) :
    (Tokens.ofText text).StartsPlain := by
  unfold Tokens.ofText
  split
  · trivial
  · exact Scanner.startsPlain_scan _ _ ⟨h, nofun⟩

/-! ## The value -/

section
variable {s : Input} {token : Token} {rest : Tokens} {head : Head} {es : List (Value × Value)}

theorem Input.peek_of_cons (htokens : s.tokens = .cons token rest) : s.peek = .ok (some token) := by
  unfold peek
  rw [htokens]

theorem Properties.read_of_isPlain (fuel : Nat) (p : Properties) (htokens : s.tokens = .cons token rest)
    (htoken : token.kind.isPlain = true) : read fuel p s = .ok (p, s) := by
  cases fuel with
  | zero => rfl
  | succ fuel =>
    obtain ⟨kind, start, stop⟩ := token
    unfold read
    rw [Input.peek_of_cons htokens]
    cases kind <;> first | rfl | cases htoken

theorem content_ne_mapping (fuel : Nat) (p : Properties) (here : Head) (htokens : s.tokens = .cons token rest)
    (htoken : token.kind.isPlain = true) : (content fuel .block p here s).1 ≠ .mapping head es := by
  cases fuel with
  | zero => exact nofun
  | succ fuel =>
    obtain ⟨kind, start, stop⟩ := token
    unfold content
    rw [Input.peek_of_cons htokens]
    cases kind with
    | scalar text plain => exact nofun
    | blockEnd =>
      simp only [Option.map_some]
      split <;> exact nofun
    | _ => cases htoken

theorem node_ne_mapping (fuel : Nat) (htokens : s.tokens = .cons token rest)
    (htoken : token.kind.isPlain = true) : (node fuel .block s).1 ≠ .mapping head es := by
  cases fuel with
  | zero => exact nofun
  | succ fuel =>
    obtain ⟨kind, start, stop⟩ := token
    unfold node
    rw [Properties.read_of_isPlain 2 _ htokens htoken, Input.peek_of_cons htokens]
    cases kind with
    | scalar text plain => exact content_ne_mapping fuel _ ⟨s.mark, none⟩ htokens htoken
    | blockEnd => exact content_ne_mapping fuel _ ⟨s.mark, none⟩ htokens htoken
    | _ => cases htoken

end

/-- A text of white space holds no mapping. -/
theorem root_ne_mapping_of_isWhitespace {text : String} (h : ∀ x ∈ text.toList, Text.isWhitespace x = true)
    (head : Head) (es : List (Value × Value)) : (Document.ofText text).root ≠ some (.mapping head es) := by
  have hstart := startsPlain_ofText h
  unfold Document.ofText
  simp only
  generalize Tokens.ofText text = tokens at hstart ⊢
  cases tokens with
  | finished mark => exact nofun
  | broken problem => exact nofun
  | cons token rest =>
    have hroot : ∀ fuel, root? fuel ⟨.cons token rest, [], []⟩ =
        .ok (some (node fuel .block ⟨.cons token rest, [], standardHandles⟩)) := by
      intro fuel
      obtain ⟨kind, start, stop⟩ := token
      cases kind <;> first | rfl | cases hstart
    rw [hroot]
    have hnode : (node (8 * (Tokens.cons token rest).length + 8) .block
        ⟨.cons token rest, [], standardHandles⟩).1 ≠ .mapping head es := node_ne_mapping _ rfl hstart
    generalize node _ _ _ = built at hnode ⊢
    obtain ⟨root, left⟩ := built
    have hne : some root ≠ some (.mapping head es) := fun h => hnode (Option.some.inj h)
    cases left with
    | none => exact hne
    | some left =>
      simp only
      split <;> exact hne

end SwiftMacro.Yaml
