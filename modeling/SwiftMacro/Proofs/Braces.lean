import SwiftMacro.Proofs.Entries
import SwiftMacro.Proofs.Extending
/-!
# Blocks in texts that go on

What stands in braces that are closed is read in the same way when the text goes on
(`reaches_accessor`). A brace that is left open is a different matter: a function may end at the brace
that is put behind the text. So where a function has a head and no end, the statements are followed up
to the place where they stop, which is never the end of a block (`Stuck`).
-/

namespace SwiftMacro

open Peg

/-! ## Where statements stop -/

/-- Behind `z` the statements go on up to a place that is not the end of a block. -/
def Stuck (z : List Char) : Prop :=
  ∃ y w, sourceGrammar.Accepts .spaced (.opt (.lit ";")) (after .spaced z) y ∧
    sourceGrammar.Accepts .spaced (.more terminated) y w ∧ Stops (· == '\x7d') (after .spaced w)

section Stuck

variable {s t y z q : List Char}

theorem stuck_of_fails (hz : Stops (· == ';') (after .spaced z))
    (hf : sourceGrammar.Fails .spaced Rule.statement (after .spaced z))
    (hbrace : Stops (· == '\x7d') (after .spaced z)) : Stuck z := by
  refine ⟨after .spaced z, after .spaced z, ?_, ?_, by rwa [after_after]⟩
  · exact Grammar.accepts_opt.2 (.inr ⟨fails_lit_of_head (c := ';') rfl hz, rfl⟩)
  · refine Grammar.accepts_more.2 (.inl ⟨Grammar.fails_seq.2 (.inl ?_), rfl⟩)
    change sourceGrammar.Fails .spaced Rule.statement (after .spaced (after .spaced z))
    rwa [after_after]

/-- No statement starts with an opening brace. -/
theorem stuck_of_brace (h : after .spaced z = '\x7b' :: t) : Stuck z := by
  refine stuck_of_fails ?_ ?_ ?_
  · exact h ▸ stops_cons.2 rfl
  · exact h ▸ fails_of_first t rfl rfl rfl rfl
  · exact h ▸ stops_cons.2 rfl

theorem stops_of_not_stuck (h : ¬ Stuck z) : Stops (· == '\x7b') (after .spaced z) := by
  intro c hc
  refine beq_eq_false_iff_ne.2 ?_
  rintro rfl
  cases hz : after .spaced z with
  | nil => rw [hz] at hc; cases hc
  | cons d t =>
    rw [hz] at hc
    obtain rfl := Option.some.inj hc
    exact h (stuck_of_brace hz)

/-- What is stuck behind a statement is stuck in front of it. -/
theorem Stuck.before (hz : Stuck z)
    (h : sourceGrammar.Accepts .spaced Rule.statement (after .spaced s) z) : Stuck s := by
  obtain ⟨y, w, hsemicolon, hmore, hw⟩ := hz
  have hbefore : Before (· != ';') s := before_of_accepts h (fun c hc => by
    obtain rfl : c = ';' := by simpa using hc
    rfl) rfl rfl
  have hstops : Stops (· == ';') (after .spaced s) := hbefore.stops_after_eq rfl
  refine ⟨after .spaced s, w, ?_, Grammar.accepts_more.2 (.inr ⟨y, ?_, hmore⟩), hw⟩
  · exact Grammar.accepts_opt.2 (.inr ⟨fails_lit_of_head (c := ';') rfl hstops, rfl⟩)
  · change sourceGrammar.Accepts .spaced _ (after .spaced (after .spaced s)) y
    rw [after_after]
    exact Grammar.accepts_seq.2 ⟨z, h, hsemicolon⟩

theorem stuck_of_signature (h : sourceGrammar.Accepts .spaced signature (after .spaced z) y) :
    Stuck z := by
  obtain ⟨t, hstatement, hbrace⟩ := statement_of_signature (after_after z) h
  exact (stuck_of_brace hbrace).before hstatement

theorem head_behind_modifier {m : String} (hm : m ∈ Rule.modifiers) (ht : Stops Rule.isNameChar t)
    (h : sourceGrammar.Accepts .spaced functionHead (m.toList ++ t) q) :
    sourceGrammar.Accepts .spaced functionHead (after .spaced t) q ∧
      sourceGrammar.Fails .spaced (.rule .attributeUse) (after .spaced t) := by
  have hat : ∀ u, sourceGrammar.Fails .spaced (.lit "func") ('@' :: u) := fun u =>
    fails_of_first u rfl rfl rfl rfl
  obtain ⟨p, -, hfunc, -, -⟩ := signature_of_head h
  refine ⟨?_, (accepts_of_modifier hm ht hat hfunc).2⟩
  exact accepts_seq_mono (fun _ => accepts_seq_mono fun _ => accepts_seq_mono fun _ =>
    accepts_seq_mono fun _ hq => (accepts_of_modifier hm ht hat hq).1) h

/-- Where the head of a function stands and no function, an expression stops in front of what is left
of the head. -/
theorem stuck_of_unfinished (hs : after .spaced s = s)
    (hhead : sourceGrammar.Accepts .spaced functionHead s q)
    (hf : sourceGrammar.Fails .spaced (.rule .functionDecl) s)
    (h : sourceGrammar.Accepts .spaced (.rule .expr) s y) : Stuck y := by
  induction hn : s.length using Nat.strongRecOn generalizing s y with
  | ind n ih =>
  rcases word_or_sign_of_accepts_expr hs h with ⟨c, u, rfl, hopens⟩ |
    ⟨w, t, rfl, hstart, hchars, hstop, hkeyword, rule, hrule, hword⟩
  · have hnone : functionHead.opens c = false := by
      refine Bool.eq_false_iff.2 fun hc => Bool.eq_false_iff.1 hopens ?_
      have hbody : (Rule.body .functionDecl).opens c = true := by
        change (functionHead ++ Rule.statements ++ .lit "\x7d").opens c = true
        rw [opens_append, opens_append, hc]
        rfl
      change (_ || Rule.firsts .functionDecl c) = true
      rw [firsts_of_opens _ c hbody, Bool.or_true]
    exact absurd (fails_of_opens hs hnone rfl rfl) hhead.not_fails
  by_cases hmodifier : ∃ m ∈ Rule.modifiers, w = m.toList
  · -- The modifier is an expression of its own, and the same head stands behind it.
    obtain ⟨m, hm, rfl⟩ := hmodifier
    obtain ⟨hbehind, hbare⟩ := head_behind_modifier hm hstop hhead
    obtain ⟨p, -, hfunc, -, -⟩ := signature_of_head hbehind
    have hfunction : sourceGrammar.Fails .spaced (.rule .functionDecl) (after .spaced t) :=
      fails_of_not_accepts (fun x hx =>
        (accepts_with_modifier (by decide) hm hstop hbare hx).not_fails hf) rfl
    have hends := accepts_expr_of_leading (d := .functionDecl) (by decide) hs hrule hword hbare hfunc
    obtain rfl := h.unique hends
    have himport := fails_import_of_leading (d := .functionDecl) (by decide) (after_after t) hfunc
    have hnone : sourceGrammar.Fails .spaced declaration (after .spaced t) :=
      Grammar.fails_alt.2 ⟨Grammar.fails_alt.2 ⟨himport, fails_variable_of_leading hfunc⟩, hfunction⟩
    rcases accepts_or_fails .spaced (.rule .expr) (after .spaced t) rfl with ⟨z, hexpr⟩ | hexpr
    · have hlength : (after .spaced t).length < n := by
        obtain ⟨c, v, hv, -⟩ := modifier_eq_cons hm
        have hle := length_after_le .spaced t
        rw [← hn, hv, List.length_append, List.length_cons]
        omega
      refine (ih _ hlength (after_after t) hbehind hfunction hexpr rfl).before ?_
      rw [after_after]
      exact Grammar.accepts_alt.2 (.inr ⟨hnone, hexpr⟩)
    · have hstatement : sourceGrammar.Fails .spaced Rule.statement (after .spaced t) :=
        Grammar.fails_alt.2 ⟨hnone, hexpr⟩
      have hbefore : Before (fun c => c != ';' && c != '\x7d') t :=
        before_of_accepts hbehind (fun c hc => by
          have hcases : c = ';' ∨ c = '\x7d' := by simpa [Decidable.or_iff_not_imp_left] using hc
          rcases hcases with rfl | rfl <;> rfl) rfl rfl
      have hsettled := after_after t
      refine stuck_of_fails ?_ (by rwa [hsettled]) ?_
      · rw [hsettled]
        exact hbefore.stops_after_eq rfl
      · rw [hsettled]
        exact hbefore.stops_after_eq rfl
  · obtain ⟨-, hsignature⟩ := signature_of_word hstart hchars hstop
      (fun m hm hw => hmodifier ⟨m, hm, hw⟩) (hkeyword "func" (by decide)) hhead
    rcases brace_or_signature_of_expr hs hrule hword h hsignature with hbrace | hsignature
    · exact stuck_of_brace hbrace
    · exact stuck_of_signature hsignature

end Stuck

/-! ## What the longer text is matched up to -/

/-- The expression matches the text that goes on up to the place that is `y` in the shorter one. -/
def Reaches (e : Peg Rule) (s' y : List Char) : Prop :=
  ∃ y', sourceGrammar.Accepts .spaced e s' y' ∧ Extended y y'

section Reaches

variable {a b e : Peg Rule} {s s' t y z : List Char} {n : Nat}

theorem Reaches.seq (ha : Reaches a s' t)
    (hb : ∀ t', Extended t t' → Reaches b (after .spaced t') y) : Reaches (a ++ b) s' y := by
  obtain ⟨t', ht', hext⟩ := ha
  obtain ⟨y', hy', hext⟩ := hb t' hext
  exact ⟨y', Grammar.accepts_seq.2 ⟨t', ht', hy'⟩, hext⟩

theorem Reaches.mono (h : Reaches a s y)
    (hab : ∀ y', sourceGrammar.Accepts .spaced a s y' → sourceGrammar.Accepts .spaced b s' y') :
    Reaches b s' y := by
  obtain ⟨y', hy', hext⟩ := h
  exact ⟨y', hab y' hy', hext⟩

/-- A block that is closed in the shorter text is closed in both. -/
theorem Reaches.closed (h : Reaches a s' z) (hclose : after .spaced z = '\x7d' :: y) :
    Reaches (a ++ .lit "\x7d") s' y := by
  refine h.seq fun z' hz' => ?_
  have hext : Extended (after .spaced z) (after .spaced z') := hz'.after
  rw [hclose] at hext
  exact ⟨_, Grammar.accepts_lit.2 hext.cons, .text y⟩

/-- A repetition reaches its end if each of its turns does and the next one fails there in both texts. -/
theorem reaches_many
    (hend : ∀ z', Extended z z' → sourceGrammar.Fails .spaced e (after .spaced z) →
      sourceGrammar.Fails .spaced e (after .spaced z'))
    (hturn : ∀ s s' y, s.length ≤ n → after .spaced s = s → Extended s s' →
      sourceGrammar.Accepts .spaced e s y → sourceGrammar.Accepts .spaced (.more e) y z → Reaches e s' y)
    (hs : s.length ≤ n) (hext : Extended s s')
    (h : sourceGrammar.Accepts .spaced (.many e) (after .spaced s) z) :
    Reaches (.many e) (after .spaced s') z := by
  have hmore : ∀ {s : List Char}, sourceGrammar.Accepts .spaced (.more e) s z → s.length ≤ n →
      ∀ s', Extended s s' → Reaches (.more e) s' z := by
    intro s hmore
    refine hmore.more_induct (P := fun s => s.length ≤ n → ∀ s', Extended s s' → Reaches (.more e) s' z)
      (fun hf _ s' hext => ?_) fun s t hone hrest ih hs s' hext => ?_
    · exact ⟨s', Grammar.accepts_more.2 (.inl ⟨hend s' hext hf, rfl⟩), hext⟩
    · have hle := Nat.le_trans (length_after_le .spaced s) hs
      obtain ⟨t', ht', hext⟩ := hturn _ _ t hle (after_after s) hext.after hone hrest
      refine (ih (Nat.le_trans (length_le_of_accepts hone) hle) t' hext).mono fun y' hy' => ?_
      exact Grammar.accepts_more.2 (.inr ⟨t', ht', hy'⟩)
  have hle := Nat.le_trans (length_after_le .spaced s) hs
  rcases Grammar.accepts_many.1 h with ⟨hf, rfl⟩ | ⟨t, hone, hrest⟩
  · have hnone := hend _ hext.after (by rwa [after_after])
    rw [after_after] at hnone
    exact ⟨_, Grammar.accepts_many.2 (.inl ⟨hnone, rfl⟩), hext.after⟩
  · obtain ⟨t', ht', hext⟩ := hturn _ _ t hle (after_after s) hext.after hone hrest
    refine (hmore hrest (Nat.le_trans (length_le_of_accepts hone) hle) t' hext).mono fun y' hy' => ?_
    exact Grammar.accepts_many.2 (.inr ⟨t', ht', hy'⟩)

end Reaches

/-! ## Blocks inside -/

section Step

variable {n : Nat} (ih : ∀ s s' y u : List Char, s.length < n → Extended s s' →
  sourceGrammar.Accepts .spaced Rule.statements (after .spaced s) y → after .spaced y = '\x7d' :: u →
    Reaches Rule.statements (after .spaced s') y)
  {e : Peg Rule} {s s' y : List Char} {u : List Char}

include ih

/-- Statements in braces behind something without braces. -/
theorem reaches_braced (he : e.isBlunt = true) (hempty : e.mayBeEmpty sourceRanks = false)
    (hbounded : e.isBounded sourceRanks sourceGrammar.depth = true) (hs : s.length ≤ n) (hext : Extended s s')
    (h : sourceGrammar.Accepts .spaced (e ++ Rule.statements ++ .lit "\x7d") s y) :
    Reaches (e ++ Rule.statements ++ .lit "\x7d") s' y := by
  obtain ⟨z, hfront, hclose⟩ := Grammar.accepts_seq.1 h
  obtain ⟨t, hhead, hstatements⟩ := Grammar.accepts_seq.1 hfront
  have hclose : after .spaced z = '\x7d' :: y := Grammar.accepts_lit.1 hclose
  have hlt : t.length < n := by
    obtain ⟨parts, hm⟩ := hhead
    have := hm.length_lt sourceGrammar_blanksSplit sourceGrammar_ranked hempty
    omega
  have hreaches : Reaches (e ++ Rule.statements) s' z :=
    Reaches.seq ((mirrored he hbounded hext).accepts hhead) fun t' ht' => ih t t' z y hlt ht' hstatements hclose
  exact hreaches.closed hclose

theorem reaches_accessor_step (hs : s.length ≤ n) (hext : Extended s s')
    (h : sourceGrammar.Accepts .spaced (.rule .accessor) s y) : Reaches (.rule .accessor) s' y := by
  have hbody : sourceGrammar.Accepts .spaced
      (.rule .accessorKind ++ .lit "\x7b" ++ Rule.statements ++ .lit "\x7d") s y := Grammar.accepts_rule.1 h
  exact (reaches_braced ih rfl rfl rfl hs hext hbody).mono fun y' hy' => Grammar.accepts_rule.2 hy'

theorem reaches_accessorBlock (hs : s.length ≤ n) (hext : Extended s s')
    (h : sourceGrammar.Accepts .spaced accessorBlock s y) : Reaches accessorBlock s' y := by
  obtain ⟨z, hfront, hclose⟩ := Grammar.accepts_seq.1 h
  obtain ⟨t, hopen, haccessors⟩ := Grammar.accepts_seq.1 hfront
  have hclose : after .spaced z = '\x7d' :: y := Grammar.accepts_lit.1 hclose
  have hle := Nat.le_trans (length_le_of_accepts hopen) hs
  have hreaches : Reaches (.lit "\x7b" ++ .many (.rule .accessor)) s' z := by
    refine Reaches.seq ((mirrored rfl rfl hext).accepts hopen) fun t' ht' => ?_
    refine reaches_many (fun z' hz' _ => ?_) (fun s s' y hs _ hext h _ => ?_) hle ht' haccessors
    · have hbrace : Extended (after .spaced z) (after .spaced z') := hz'.after
      rw [hclose] at hbrace
      rw [hbrace.cons]
      exact fails_of_first _ rfl rfl rfl rfl
    · exact reaches_accessor_step ih hs hext h
  exact hreaches.closed hclose

/-- A binding may stop in front of a brace that is not closed; elsewhere it reaches its end. -/
theorem reaches_patternBinding (hs : s.length ≤ n) (hext : Extended s s')
    (h : sourceGrammar.Accepts .spaced (.rule .patternBinding) s y)
    (hy : Stops (· == '\x7b') (after .spaced y)) : Reaches (.rule .patternBinding) s' y := by
  have hbody : sourceGrammar.Accepts .spaced (Rule.pattern ++ .opt (.rule .declaredType) ++
      .opt (.rule .initialValue) ++ .opt accessorBlock) s y := Grammar.accepts_rule.1 h
  obtain ⟨t, hfront, hblock⟩ := Grammar.accepts_seq.1 hbody
  have hle := Nat.le_trans (length_after_le .spaced t) (Nat.le_trans (length_le_of_accepts hfront) hs)
  have hall : Reaches (Rule.pattern ++ .opt (.rule .declaredType) ++
      .opt (.rule .initialValue) ++ .opt accessorBlock) s' y := by
    refine Reaches.seq ((mirrored rfl rfl hext).accepts hfront) fun t' ht' => ?_
    rcases Grammar.accepts_opt.1 hblock with hblock | ⟨hnone, rfl⟩
    · exact (reaches_accessorBlock ih hle ht'.after hblock).mono fun y' hy' =>
        Grammar.accepts_opt.2 (.inl hy')
    · have hopen : sourceGrammar.Fails .spaced (.lit "\x7b") (after .spaced t) :=
        fails_lit_of_head (c := '\x7b') rfl (after_after t ▸ hy)
      refine ⟨_, Grammar.accepts_opt.2 (.inr ⟨?_, rfl⟩), ht'.after⟩
      exact Grammar.fails_seq.2 (.inl (Grammar.fails_seq.2 (.inl ((mirrored rfl rfl ht'.after).fails hopen))))
  exact hall.mono fun y' hy' => Grammar.accepts_rule.2 hy'

omit ih in
theorem fails_patternBinding (hext : Extended s s')
    (h : sourceGrammar.Fails .spaced (.rule .patternBinding) s) :
    sourceGrammar.Fails .spaced (.rule .patternBinding) s' := by
  have hbody : sourceGrammar.Fails .spaced (Rule.pattern ++ .opt (.rule .declaredType) ++
      .opt (.rule .initialValue) ++ .opt accessorBlock) s := Grammar.fails_rule.1 h
  rcases Grammar.fails_seq.1 hbody with hfront | ⟨t, -, hblock⟩
  · exact Grammar.fails_rule.2 (Grammar.fails_seq.2 (.inl ((mirrored rfl rfl hext).fails hfront)))
  · exact absurd hblock Grammar.not_fails_opt

omit ih in
/-- No further binding starts with a brace. -/
theorem stops_of_bindings {z : List Char} (hy : Stops (· == '\x7b') (after .spaced y))
    (h : after .spaced y = after .spaced z ∨
      ∃ t, sourceGrammar.Accepts .spaced (.lit "," ++ .rule .patternBinding) (after .spaced z) t) :
    Stops (· == '\x7b') (after .spaced z) := by
  rcases h with heq | ⟨t, h⟩
  · rwa [← heq]
  · obtain ⟨r, hcomma, -⟩ := Grammar.accepts_seq.1 h
    have hz : after .spaced z = ',' :: r := Grammar.accepts_lit.1 hcomma
    rw [hz]
    exact stops_cons.2 rfl

theorem reaches_variableDecl (hs : s.length ≤ n) (hext : Extended s s')
    (h : sourceGrammar.Accepts .spaced (.rule .variableDecl) s y)
    (hy : Stops (· == '\x7b') (after .spaced y)) : Reaches (.rule .variableDecl) s' y := by
  have hbody : sourceGrammar.Accepts .spaced (leading ++ .rule .bindingKeyword ++
      (.rule .patternBinding ++ .many (.lit "," ++ .rule .patternBinding))) s y :=
    Grammar.accepts_rule.1 h
  obtain ⟨t, hhead, hlist⟩ := Grammar.accepts_seq.1 hbody
  obtain ⟨z, hfirst, hmany⟩ := Grammar.accepts_seq.1 hlist
  have ht := Nat.le_trans (length_after_le .spaced t) (Nat.le_trans (length_le_of_accepts hhead) hs)
  have hz := Nat.le_trans (length_le_of_accepts hfirst) ht
  have hlist : ∀ t', Extended t t' → Reaches (.rule .patternBinding ++
      .many (.lit "," ++ .rule .patternBinding)) (after .spaced t') y := by
    intro t' ht'
    have hstops : Stops (· == '\x7b') (after .spaced z) := by
      refine stops_of_bindings hy ?_
      rcases Grammar.accepts_many.1 hmany with ⟨-, rfl⟩ | ⟨r, hone, -⟩
      · exact .inl (after_after z)
      · exact .inr ⟨r, hone⟩
    refine Reaches.seq (reaches_patternBinding ih ht ht'.after hfirst hstops) fun z' hz' => ?_
    refine reaches_many (n := n) (fun y' hy' hf => ?_)
      (fun s s' r hs hsettled hext hone hmore => ?_) hz hz' hmany
    · rcases Grammar.fails_seq.1 hf with hcomma | ⟨r, hcomma, hbinding⟩
      · exact Grammar.fails_seq.2 (.inl ((mirrored rfl rfl hy'.after).fails hcomma))
      · obtain ⟨r', hr', hext⟩ := (mirrored rfl rfl hy'.after).accepts hcomma
        exact Grammar.fails_seq.2 (.inr ⟨r', hr', fails_patternBinding hext.after hbinding⟩)
    · obtain ⟨q, hcomma, hbinding⟩ := Grammar.accepts_seq.1 hone
      have hq := Nat.le_trans (length_after_le .spaced q) (Nat.le_trans (length_le_of_accepts hcomma) hs)
      -- Behind a binding that is not the last one there is a comma.
      have hstops : Stops (· == '\x7b') (after .spaced r) := by
        refine stops_of_bindings hy ?_
        rcases Grammar.accepts_more.1 hmore with ⟨-, rfl⟩ | ⟨r, hone, -⟩
        · exact .inl rfl
        · exact .inr ⟨r, hone⟩
      exact Reaches.seq ((mirrored rfl rfl hext).accepts hcomma) fun q' hq' =>
        reaches_patternBinding ih hq hq'.after hbinding hstops
  exact (Reaches.seq ((mirrored rfl rfl hext).accepts hhead) hlist).mono fun y' hy' =>
    Grammar.accepts_rule.2 hy'

omit ih in
theorem fails_variableDecl (hext : Extended s s')
    (h : sourceGrammar.Fails .spaced (.rule .variableDecl) s) :
    sourceGrammar.Fails .spaced (.rule .variableDecl) s' := by
  have hbody : sourceGrammar.Fails .spaced (leading ++ .rule .bindingKeyword ++
      (.rule .patternBinding ++ .many (.lit "," ++ .rule .patternBinding))) s :=
    Grammar.fails_rule.1 h
  refine Grammar.fails_rule.2 (Grammar.fails_seq.2 ?_)
  rcases Grammar.fails_seq.1 hbody with hhead | ⟨t, hhead, hlist⟩
  · exact .inl ((mirrored rfl rfl hext).fails hhead)
  · obtain ⟨t', ht', hext⟩ := (mirrored rfl rfl hext).accepts hhead
    rcases Grammar.fails_seq.1 hlist with hfirst | ⟨z, -, hmany⟩
    · exact .inr ⟨t', ht', Grammar.fails_seq.2 (.inl (fails_patternBinding hext.after hfirst))⟩
    · exact absurd hmany Grammar.not_fails_many

/-- A statement from which the statements go on to the end of a block. -/
theorem reaches_statement (hs : s.length ≤ n) (hsettled : after .spaced s = s) (hext : Extended s s')
    (h : sourceGrammar.Accepts .spaced Rule.statement s y) (hy : ¬ Stuck y) :
    Reaches Rule.statement s' y := by
  have hfront : sourceGrammar.Fails .spaced (.rule .importDecl / .rule .variableDecl) s →
      sourceGrammar.Fails .spaced (.rule .importDecl / .rule .variableDecl) s' := fun hf =>
    Grammar.fails_alt.2 ⟨(mirrored rfl rfl hext).fails (Grammar.fails_alt.1 hf).1,
      fails_variableDecl hext (Grammar.fails_alt.1 hf).2⟩
  rcases Grammar.accepts_alt.1 h with h | ⟨hf, hexpr⟩
  · rcases Grammar.accepts_alt.1 h with h | ⟨hf, hfunction⟩
    · rcases Grammar.accepts_alt.1 h with himport | ⟨hf, hvariable⟩
      · have hreaches : Reaches (.rule .importDecl) s' y := (mirrored rfl rfl hext).accepts himport
        exact hreaches.mono fun y' hy' => Grammar.accepts_alt.2 (.inl (Grammar.accepts_alt.2
          (.inl (Grammar.accepts_alt.2 (.inl hy')))))
      · refine (reaches_variableDecl ih hs hext hvariable (stops_of_not_stuck hy)).mono fun y' hy' => ?_
        exact Grammar.accepts_alt.2 (.inl (Grammar.accepts_alt.2
          (.inl (Grammar.accepts_alt.2 (.inr ⟨(mirrored rfl rfl hext).fails hf, hy'⟩)))))
    · have hbody : sourceGrammar.Accepts .spaced (functionHead ++ Rule.statements ++ .lit "\x7d") s y :=
        Grammar.accepts_rule.1 hfunction
      refine (reaches_braced ih rfl rfl rfl hs hext hbody).mono fun y' hy' => ?_
      exact Grammar.accepts_alt.2 (.inl (Grammar.accepts_alt.2
        (.inr ⟨hfront hf, Grammar.accepts_rule.2 hy'⟩)))
  · obtain ⟨hf, hfunction⟩ := Grammar.fails_alt.1 hf
    have hreaches : Reaches (.rule .expr) s' y := (mirrored rfl rfl hext).accepts hexpr
    -- A function that fails has no head here, so it fails in the longer text as well.
    have hhead : sourceGrammar.Fails .spaced functionHead s := fails_of_not_accepts (fun q hq =>
      hy (stuck_of_unfinished hsettled hq hfunction hexpr)) rfl
    have hfunction : sourceGrammar.Fails .spaced (.rule .functionDecl) s' :=
      Grammar.fails_rule.2 (Grammar.fails_seq.2 (.inl (Grammar.fails_seq.2
        (.inl ((mirrored rfl rfl hext).fails hhead)))))
    exact hreaches.mono fun y' hy' => Grammar.accepts_alt.2
      (.inr ⟨Grammar.fails_alt.2 ⟨hfront hf, hfunction⟩, hy'⟩)

end Step

/-- The statements of a block that is closed. -/
theorem reaches_statements {s s' y u : List Char} (hext : Extended s s')
    (h : sourceGrammar.Accepts .spaced Rule.statements (after .spaced s) y)
    (hy : after .spaced y = '\x7d' :: u) : Reaches Rule.statements (after .spaced s') y := by
  induction hn : s.length using Nat.strongRecOn generalizing s s' y u with
  | ind n ih =>
    have hblocks : ∀ s s' y u : List Char, s.length < n → Extended s s' →
        sourceGrammar.Accepts .spaced Rule.statements (after .spaced s) y →
        after .spaced y = '\x7d' :: u → Reaches Rule.statements (after .spaced s') y :=
      fun s _ _ _ hs hext h hy => ih s.length hs hext h hy rfl
    refine reaches_many (n := n) (e := terminated) (fun y' hext _ => ?_)
      (fun s s' t hs hsettled hext hone hmore => ?_) (Nat.le_of_eq hn) hext h
    · have hbrace : Extended (after .spaced y) (after .spaced y') := hext.after
      rw [hy] at hbrace
      rw [hbrace.cons]
      exact fails_of_first _ rfl rfl rfl rfl
    · obtain ⟨z, hstatement, hsemicolon⟩ := Grammar.accepts_seq.1 hone
      -- The grammar leaves one way to go on behind `z`, and that one comes to the end of the block.
      have hz : ¬ Stuck z := by
        rintro ⟨t', w, ht', hw, hstops⟩
        obtain rfl := hsemicolon.unique ht'
        obtain rfl := hmore.unique hw
        rw [hy] at hstops
        cases stops_cons.1 hstops
      exact Reaches.seq (reaches_statement hblocks hs hsettled hext hstatement hz) fun z' hz' =>
        (mirrored rfl rfl hz'.after).accepts hsemicolon

/-- An accessor is read in the same way when the text goes on. -/
theorem reaches_accessor {s s' y : List Char} (hext : Extended s s')
    (h : sourceGrammar.Accepts .spaced (.rule .accessor) s y) : Reaches (.rule .accessor) s' y :=
  reaches_accessor_step (fun _ _ _ _ _ hext h hy => reaches_statements hext h hy) (Nat.le_refl s.length)
    hext h

end SwiftMacro
