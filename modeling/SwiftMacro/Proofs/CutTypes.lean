import SwiftMacro.Proofs.Continuations
import SwiftMacro.Proofs.Cutting
/-!
# Names and types that are cut off

A name ends where its characters do, whatever follows. A list of type arguments is closed by its
bracket, so it can be cut off behind it (`cut_genericClause`), and more text behind it changes nothing
(`accepts_genericClause_append`). With both, a type can be cut off where no member follows
(`cut_typeExpr`).
-/

namespace SwiftMacro

open Peg

/-! ## What follows behind blanks -/

/-- Behind blanks, the text ends or goes on with a character of the class. -/
def Before (p : Char → Bool) (s : List Char) : Prop := Stops (fun c => !p c) (after .spaced s)

section Before

variable {p q : Char → Bool} {s : List Char}

theorem before_nil : Before p [] := by
  unfold Before
  rw [after_nil]
  exact stops_nil _

theorem before_of_after {c : Char} {t : List Char} (h : after .spaced s = c :: t) (hc : p c = true) :
    Before p s := by
  unfold Before
  rw [h]
  exact stops_cons.2 (by simp [hc])

theorem before_after : Before p (after .spaced s) ↔ Before p s := by
  unfold Before
  rw [after_after]

theorem Before.mono (h : Before p s) (hpq : ∀ c, p c = true → q c = true) : Before q s := by
  intro c hc
  have hp : p c = true := by simpa using h c hc
  simp [hpq c hp]

theorem Before.of_eq {d : Char} (h : Before (· == d) s) (hd : q d = true) : Before q s :=
  h.mono fun c hc => by rw [beq_iff_eq.1 hc]; exact hd

theorem Leaves.after_eq {r y : List Char} (h : Leaves r .spaced s y) :
    after .spaced s = after .spaced y := by
  rcases h with rfl | ⟨rfl, -⟩
  · rfl
  · exact (after_after s).symm

/-- What holds behind the blanks at the end of a repetition holds in front of them. -/
theorem Before.of_leaves {r y : List Char} (h : Before p y) (hs : Leaves r .spaced s y) :
    Before p s := by
  unfold Before
  rw [hs.after_eq]
  exact h

/-- The characters of another class do not stand there, neither behind the blanks nor in front. -/
theorem Before.stops_after (h : Before p s) (hq : ∀ c, q c = true → p c = false) :
    Stops q (after .spaced s) := by
  intro c hc
  have hp := h c hc
  cases hqc : q c with
  | false => rfl
  | true => simp [hq c hqc] at hp

theorem Before.stops (h : Before p s) (hq : ∀ c, q c = true → p c = false ∧ isSolid c = true) :
    Stops q s := by
  rcases after_eq_or_head .spaced s with hs | ⟨c, t, rfl, hc⟩
  · rw [← hs]
    exact h.stops_after fun c hc => (hq c hc).1
  · refine stops_cons.2 (Bool.eq_false_iff.2 fun hqc => ?_)
    rw [(hq c hqc).2] at hc
    cases hc

theorem Before.stops_after_eq (h : Before p s) {d : Char} (hd : p d = false) :
    Stops (· == d) (after .spaced s) :=
  h.stops_after fun c hc => by rw [beq_iff_eq.1 hc]; exact hd

theorem Before.stops_eq (h : Before p s) {d : Char} (hd : p d = false ∧ isSolid d = true) :
    Stops (· == d) s :=
  h.stops fun c hc => by rw [beq_iff_eq.1 hc]; exact hd

end Before

/-! ## Names -/

section Names

variable {r : List Char} {layout : Layout} {s y : List Char} {parts : List (Tree Rule)}

theorem cut_identifier (h : Within r layout (.rule .identifier) s parts y) :
    sourceGrammar.Matches layout (.rule .identifier) s parts y := by
  -- No keyword stands there, since the same name is still read when the text is cut.
  have hkeyword : sourceGrammar.Fails .hidden (.rule .keyword) s := by
    obtain ⟨w, hw, hs, hstop⟩ := accepts_identifier.1 h.accepts
    rw [← List.append_assoc] at hs
    have hname : sourceGrammar.Accepts .hidden (.rule .identifier) s y :=
      accepts_identifier.2 ⟨w, hw, List.append_cancel_right hs, hstop.cut⟩
    obtain ⟨_, hbody, -⟩ := Grammar.accepts_seq.1 (Grammar.accepts_rule.1 hname)
    obtain ⟨_, hnot, -⟩ := Grammar.accepts_seq.1 hbody
    exact (Grammar.accepts_not.1 hnot).1
  refine h.cut_rule fun inner hinner => ?_
  obtain ⟨ps, z, qs, hfront, hmany, -, rfl⟩ := Within.seq hinner
  obtain ⟨ps, z', qs', hnot, hone, -, rfl⟩ := Within.seq hfront
  obtain ⟨-, rfl, rfl⟩ := hnot.not
  have hnot : sourceGrammar.Matches .hidden (.not (.rule .keyword)) z' [] z' :=
    Grammar.matches_not.2 ⟨hkeyword, rfl, rfl⟩
  exact Grammar.matches_seq.2 ⟨_, z, qs, Grammar.matches_seq.2 ⟨[], z', qs', hnot, hone.one, rfl⟩,
    cut_of_isLocal rfl hmany, rfl⟩

/-- A name behind a dot. -/
def dotName : Peg Rule := .lit "." ++ .rule .identifier

theorem fails_dotName {layout : Layout} (h : Stops (· == '.') s) :
    sourceGrammar.Fails layout dotName s :=
  Grammar.fails_seq.2 (.inl (fails_lit_of_head rfl h))

theorem cut_dotName (h : Within r layout dotName s parts y) :
    sourceGrammar.Matches layout dotName s parts y := by
  obtain ⟨ps, z, qs, hdot, hname, -, rfl⟩ := Within.seq h
  exact Grammar.matches_seq.2 ⟨ps, z, qs, hdot.lit, cut_identifier hname, rfl⟩

theorem cut_qualifiedName (h : Within r layout (.rule .qualifiedName) s parts y)
    (hy : Keeps r .hidden dotName y) :
    sourceGrammar.Matches layout (.rule .qualifiedName) s parts y := by
  refine h.cut_rule fun inner hinner => ?_
  have hcuts : CutsTurns r .hidden dotName s.length fun _ => True :=
    ⟨fun _ _ _ _ _ h _ => cut_dotName h, fun _ _ _ _ _ _ _ _ => trivial⟩
  refine hcuts.chain hinner (Nat.le_refl _) (fun ps z hname _ => cut_identifier hname) ?_
  rintro z (rfl | ⟨rfl, -⟩) hf
  · exact ⟨trivial, hy hf⟩
  · exact ⟨trivial, hy hf⟩

end Names

/-! ## More text behind a list of types -/

/-- The character is no blank, no slash, no comma and no closing bracket. -/
def isUnsealed (c : Char) : Bool := isSolid c && c != ',' && c != '>'

/-- The text goes on with a blank, a comment, a comma or a closing bracket. -/
def Sealed (s : List Char) : Prop := ∃ c t, s = c :: t ∧ isUnsealed c = false

section Append

variable {s y : List Char} {layout : Layout} (r : List Char)

theorem Sealed.append (h : Sealed s) : Sealed (s ++ r) := by
  obtain ⟨c, t, rfl, hc⟩ := h
  exact ⟨c, t ++ r, rfl, hc⟩

theorem Sealed.stops (h : Sealed s) {p : Char → Bool} (hp : ∀ c, p c = true → isUnsealed c = true) :
    Stops p s := by
  obtain ⟨c, t, rfl, hc⟩ := h
  refine stops_cons.2 (Bool.eq_false_iff.2 fun hpc => ?_)
  rw [hp c hpc] at hc
  cases hc

theorem Sealed.stops_eq (h : Sealed s) {d : Char} (hd : isUnsealed d = true) : Stops (· == d) s :=
  h.stops fun c hc => by rw [beq_iff_eq.1 hc]; exact hd

theorem isUnsealed_of_isNameChar {c : Char} (h : Rule.isNameChar c = true) : isUnsealed c = true := by
  have hcomma : (c != ',') = true := bne_iff_ne.2 (by rintro rfl; cases h)
  have hbracket : (c != '>') = true := bne_iff_ne.2 (by rintro rfl; cases h)
  simp [isUnsealed, isSolid_of_isNameChar h, hcomma, hbracket]

theorem sealed_of_after {c : Char} {t : List Char} (h : after .spaced s = c :: t)
    (hc : isUnsealed c = false) : Sealed s := by
  rcases after_eq_or_head .spaced s with hs | ⟨d, u, rfl, hd⟩
  · exact ⟨c, t, hs ▸ h, hc⟩
  · exact ⟨d, u, rfl, by simp [isUnsealed, hd]⟩

theorem fails_optionalMark (h : Stops (· == '?') s) :
    sourceGrammar.Fails layout (.rule .optionalMark) s := fails_rule_of_stops rfl rfl h

theorem accepts_optionalMark : sourceGrammar.Accepts layout (.rule .optionalMark) s y ↔
    s = '?' :: y := by
  rw [Grammar.accepts_rule]
  exact Grammar.accepts_lit

theorem accepts_marks_append (h : sourceGrammar.Accepts .joined (.more (.rule .optionalMark)) s y)
    (hy : Sealed y) :
    sourceGrammar.Accepts .joined (.more (.rule .optionalMark)) (s ++ r) (y ++ r) ∧
      (s = y ∨ ∃ t, s = '?' :: t) := by
  obtain ⟨parts, hparts⟩ := h
  obtain ⟨hturns, -⟩ := matches_more_iff_turns.1 hparts
  induction hturns with
  | nil s =>
    refine ⟨Grammar.accepts_more.2 (.inl ⟨?_, rfl⟩), .inl rfl⟩
    exact fails_optionalMark ((hy.append r).stops_eq (by decide))
  | @cons s z y ps qs hone hrest ih =>
    obtain ⟨-, hf⟩ := matches_more_iff_turns.1 hparts
    obtain rfl : s = '?' :: z := accepts_optionalMark.1 ⟨ps, hone⟩
    obtain ⟨hmore, -⟩ := ih hy (matches_more_iff_turns.2 ⟨hrest, hf⟩)
    exact ⟨Grammar.accepts_more.2 (.inr ⟨z ++ r, accepts_optionalMark.2 rfl, hmore⟩), .inr ⟨z, rfl⟩⟩

/-- Blanks in front of a character that is none are skipped in the same way in a longer text. -/
theorem after_append {c : Char} {t : List Char} (h : after .spaced s = c :: t) (hc : isSolid c = true) :
    after .spaced (s ++ r) = c :: t ++ r :=
  congrArg Prod.snd (Trivia.split_extend r hc (Prod.ext rfl h))

theorem eq_cons_of_accepts_typeExpr (h : sourceGrammar.Accepts layout (.rule .typeExpr) s y) :
    ∃ c t, s = c :: t ∧ Rule.isNameStart c = true := by
  have hbody : sourceGrammar.Accepts .joined (Rule.body .typeExpr) s y := Grammar.accepts_rule.1 h
  obtain ⟨_, href, -⟩ := Grammar.accepts_seq.1 hbody
  have href : sourceGrammar.Accepts .joined (Rule.body .typeReference) s _ :=
    Grammar.accepts_rule.1 href
  obtain ⟨_, hname, -⟩ := Grammar.accepts_seq.1 href
  obtain ⟨w, rfl, hw⟩ := isQualified_of_accepts (Grammar.accepts_rule.1 hname)
  obtain ⟨n, ns, hn, -, rfl⟩ := hw
  obtain ⟨c, t, rfl, hc⟩ := hn.start
  exact ⟨c, _, rfl, hc⟩

theorem after_of_accepts_typeExpr
    (h : sourceGrammar.Accepts layout (.rule .typeExpr) (after .spaced s) y) :
    after .spaced (s ++ r) = after .spaced s ++ r := by
  obtain ⟨c, t, ht, hc⟩ := eq_cons_of_accepts_typeExpr h
  rw [after_append r ht (isSolid_of_isNameChar (isNameChar_of_isNameStart hc)), ht]

/-- One more type behind a comma. -/
def commaType : Peg Rule := .lit "," ++ .rule .typeExpr

section Step

variable {n : Nat} (ih : ∀ s y, s.length < n → sourceGrammar.Accepts .spaced (.rule .typeExpr) s y →
  Sealed y → sourceGrammar.Accepts .spaced (.rule .typeExpr) (s ++ r) (y ++ r))

include ih

theorem accepts_commaType_append (h : sourceGrammar.Accepts .spaced commaType s y) (hs : s.length ≤ n)
    (hy : Sealed y) : sourceGrammar.Accepts .spaced commaType (s ++ r) (y ++ r) := by
  obtain ⟨u, hlit, htype⟩ := Grammar.accepts_seq.1 h
  obtain rfl : s = ',' :: u := Grammar.accepts_lit.1 hlit
  change sourceGrammar.Accepts .spaced _ (after .spaced u) y at htype
  have hlength := length_after_le .spaced u
  rw [List.length_cons] at hs
  refine Grammar.accepts_seq.2 ⟨u ++ r, Grammar.accepts_lit.2 rfl, ?_⟩
  change sourceGrammar.Accepts .spaced _ (after .spaced (u ++ r)) (y ++ r)
  rw [after_of_accepts_typeExpr r htype]
  exact ih _ _ (by omega) htype hy

/-- The types up to the bracket. In front of each stands a comma, behind the last one the bracket. -/
theorem accepts_commaTypes_append {parts : List (Tree Rule)} {t : List Char}
    (h : Turns .spaced commaType s parts y) (hs : s.length ≤ n) (hy : after .spaced y = '>' :: t) :
    sourceGrammar.Accepts .spaced (.more commaType) (s ++ r) (y ++ r) ∧
      ∃ c u, after .spaced s = c :: u ∧ isSolid c = true ∧ isUnsealed c = false := by
  induction h with
  | nil s =>
    refine ⟨Grammar.accepts_more.2 (.inl ⟨?_, rfl⟩), '>', t, hy, rfl, rfl⟩
    change sourceGrammar.Fails .spaced commaType (after .spaced (s ++ r))
    rw [after_append r hy rfl]
    exact fails_comma (stops_cons.2 rfl)
  | @cons s z y ps qs hone hrest ihturns =>
    have hone : sourceGrammar.Accepts .spaced commaType (after .spaced s) z := ⟨ps, hone⟩
    obtain ⟨u, hlit, -⟩ := Grammar.accepts_seq.1 hone
    have hcomma : after .spaced s = ',' :: u := Grammar.accepts_lit.1 hlit
    have hlength := length_after_le .spaced s
    have hle := length_le_of_accepts hone
    obtain ⟨hmore, d, v, hd, -, hsealed⟩ := ihturns (by omega) hy
    have hnext := accepts_commaType_append r ih hone (by omega) (sealed_of_after hd hsealed)
    refine ⟨Grammar.accepts_more.2 (.inr ⟨z ++ r, ?_, hmore⟩), ',', u, hcomma, rfl, rfl⟩
    change sourceGrammar.Accepts .spaced commaType (after .spaced (s ++ r)) (z ++ r)
    rw [after_append r hcomma rfl, ← hcomma]
    exact hnext

theorem accepts_genericClause_step (h : sourceGrammar.Accepts layout (.rule .genericClause) s y)
    (hs : s.length ≤ n) : sourceGrammar.Accepts layout (.rule .genericClause) (s ++ r) (y ++ r) := by
  have hbody : sourceGrammar.Accepts .spaced (Rule.body .genericClause) s y := Grammar.accepts_rule.1 h
  obtain ⟨z, hfront, hclose⟩ := Grammar.accepts_seq.1 hbody
  obtain ⟨t, hopen, htypes⟩ := Grammar.accepts_seq.1 hfront
  obtain rfl : s = '<' :: t := Grammar.accepts_lit.1 hopen
  have hclose : after .spaced z = '>' :: y := Grammar.accepts_lit.1 hclose
  obtain ⟨x, htype, hmany⟩ := Grammar.accepts_seq.1 htypes
  change sourceGrammar.Accepts .spaced _ (after .spaced t) x at htype
  change sourceGrammar.Accepts .spaced (.many commaType) (after .spaced x) z at hmany
  have hlength := length_after_le .spaced t
  have hle := length_le_of_accepts htype
  have hbelow := length_after_le .spaced x
  rw [List.length_cons] at hs
  -- Behind the first type stands a comma or the bracket, and the repetition is read as before.
  obtain ⟨hmany, c, u, hc, hsolid, hsealed⟩ : sourceGrammar.Accepts .spaced (.many commaType)
      (after .spaced x ++ r) (z ++ r) ∧
        ∃ c u, after .spaced x = c :: u ∧ isSolid c = true ∧ isUnsealed c = false := by
    rcases Grammar.accepts_many.1 hmany with ⟨-, rfl⟩ | ⟨v, hone, parts, hparts⟩
    · rw [after_after] at hclose
      refine ⟨Grammar.accepts_many.2 (.inl ⟨?_, rfl⟩), '>', y, hclose, rfl, rfl⟩
      rw [hclose]
      exact fails_comma (stops_cons.2 rfl)
    · have hle' := length_le_of_accepts hone
      obtain ⟨w, hlit, -⟩ := Grammar.accepts_seq.1 hone
      obtain ⟨hmore, d, w', hd, -, hsealed⟩ :=
        accepts_commaTypes_append r ih (matches_more_iff_turns.1 hparts).1 (by omega) hclose
      have hturn := accepts_commaType_append r ih hone (by omega) (sealed_of_after hd hsealed)
      exact ⟨Grammar.accepts_many.2 (.inr ⟨v ++ r, hturn, hmore⟩), ',', w, Grammar.accepts_lit.1 hlit,
        rfl, rfl⟩
  have hfirst := ih _ _ (by omega) htype (sealed_of_after hc hsealed)
  refine Grammar.accepts_rule.2 (Grammar.accepts_seq.2 ⟨z ++ r, ?_, ?_⟩)
  · refine Grammar.accepts_seq.2 ⟨t ++ r, Grammar.accepts_lit.2 rfl, ?_⟩
    change sourceGrammar.Accepts .spaced _ (after .spaced (t ++ r)) (z ++ r)
    rw [after_of_accepts_typeExpr r htype]
    refine Grammar.accepts_seq.2 ⟨x ++ r, hfirst, ?_⟩
    change sourceGrammar.Accepts .spaced _ (after .spaced (x ++ r)) (z ++ r)
    rw [after_append r hc hsolid, ← hc]
    exact hmany
  · change sourceGrammar.Accepts .spaced _ (after .spaced (z ++ r)) (y ++ r)
    rw [after_append r hclose rfl]
    exact Grammar.accepts_lit.2 rfl

/-- A name with its types in front of a mark, or of what seals it. -/
theorem accepts_typeReference_step {z : List Char}
    (h : sourceGrammar.Accepts .joined (.rule .typeReference) s z) (hs : s.length ≤ n)
    (hz : Sealed z ∨ ∃ t, z = '?' :: t) :
    sourceGrammar.Accepts .joined (.rule .typeReference) (s ++ r) (z ++ r) := by
  have hbody : sourceGrammar.Accepts .joined (Rule.body .typeReference) s z := Grammar.accepts_rule.1 h
  obtain ⟨x, hname, hgeneric⟩ := Grammar.accepts_seq.1 hbody
  have hle := length_le_of_accepts hname
  obtain ⟨w, rfl, hw⟩ := isQualified_of_accepts (Grammar.accepts_rule.1 hname)
  have hqualified : ∀ {x}, Stops Rule.isNameChar (x ++ r) → Stops (· == '.') (x ++ r) →
      sourceGrammar.Accepts .joined (.rule .qualifiedName) (w ++ x ++ r) (x ++ r) := by
    intro x hstop hdot
    rw [List.append_assoc]
    exact Grammar.accepts_rule.2 (accepts_qualifiedName hw hstop hdot)
  refine Grammar.accepts_rule.2 ?_
  rcases Grammar.accepts_opt.1 hgeneric with hgeneric | ⟨-, rfl⟩
  · obtain ⟨t, rfl⟩ := eq_cons_of_sign (c := '<') rfl rfl hgeneric
    refine Grammar.accepts_seq.2 ⟨_, hqualified (stops_cons.2 rfl) (stops_cons.2 rfl), ?_⟩
    exact Grammar.accepts_opt.2 (.inl (accepts_genericClause_step r ih hgeneric (by omega)))
  · have hstops : ∀ {p : Char → Bool}, (∀ c, p c = true → isUnsealed c = true) → p '?' = false →
        Stops p (z ++ r) := by
      intro p hp hmark
      rcases hz with hz | ⟨t, rfl⟩
      · exact (hz.append r).stops hp
      · exact stops_cons.2 hmark
    have hstops_eq : ∀ {d : Char}, isUnsealed d = true → ('?' == d) = false →
        Stops (· == d) (z ++ r) :=
      fun {d} hd => hstops (p := (· == d)) fun c hc => by rw [beq_iff_eq.1 hc]; exact hd
    -- The name ends there in the longer text too: no dot goes on with it and no list of types starts.
    have hname := hqualified (hstops (fun _ => isUnsealed_of_isNameChar) rfl) (hstops_eq rfl rfl)
    refine Grammar.accepts_seq.2 ⟨_, hname, Grammar.accepts_opt.2 (.inr ⟨?_, rfl⟩)⟩
    exact fails_rule_of_stops rfl rfl (hstops_eq (d := '<') rfl rfl)

end Step

/-- A type in front of a comma or a bracket is the same in a longer text. -/
theorem accepts_typeExpr_append (h : sourceGrammar.Accepts .spaced (.rule .typeExpr) s y)
    (hy : Sealed y) : sourceGrammar.Accepts .spaced (.rule .typeExpr) (s ++ r) (y ++ r) := by
  -- The types of a list are shorter than the type that carries the list.
  induction hn : s.length using Nat.strongRecOn generalizing s y with
  | ind n ih =>
    have hbody : sourceGrammar.Accepts .joined (Rule.body .typeExpr) s y := Grammar.accepts_rule.1 h
    obtain ⟨z, href, hmarks⟩ := Grammar.accepts_seq.1 hbody
    have hmarks : sourceGrammar.Accepts .joined (.more (.rule .optionalMark)) z y := by
      rw [Grammar.accepts_more]
      exact Grammar.accepts_many.1 hmarks
    obtain ⟨hmarks, hz⟩ := accepts_marks_append r hmarks hy
    have hmany : sourceGrammar.Accepts .joined (.many (.rule .optionalMark)) (z ++ r) (y ++ r) := by
      rw [Grammar.accepts_more] at hmarks
      exact Grammar.accepts_many.2 hmarks
    have href := accepts_typeReference_step r (fun t x ht h hx => ih t.length ht h hx rfl) href
      (Nat.le_of_eq hn) (hz.imp_left (by rintro rfl; exact hy))
    exact Grammar.accepts_rule.2 (Grammar.accepts_seq.2 ⟨z ++ r, href, hmany⟩)

theorem accepts_genericClause_append (h : sourceGrammar.Accepts layout (.rule .genericClause) s y) :
    sourceGrammar.Accepts layout (.rule .genericClause) (s ++ r) (y ++ r) :=
  accepts_genericClause_step r (fun _ _ _ => accepts_typeExpr_append r) h (Nat.le_refl _)

/-- Where a list of types fails, it does not because of what stands further behind. -/
theorem fails_genericClause_cut {r : List Char}
    (h : sourceGrammar.Fails layout (.rule .genericClause) (s ++ r)) :
    sourceGrammar.Fails layout (.rule .genericClause) s :=
  fails_of_not_accepts (fun _ hy => (accepts_genericClause_append r hy).not_fails h) rfl

end Append

/-! ## Types that are cut off -/

section Types

variable {r : List Char} {layout : Layout} {s y : List Char} {parts : List (Tree Rule)} {n : Nat}

theorem keepsDot_of_stops (h : Stops (· == '.') y) : Keeps r .hidden dotName y :=
  fun _ => fails_dotName h

theorem keepsDot_of_before {p : Char → Bool} (h : Before p y) (hp : p '.' = false) :
    Keeps r .hidden dotName y :=
  keepsDot_of_stops (h.stops_eq ⟨hp, rfl⟩)

/-- The marks of a type can be cut off one by one. -/
theorem cutsTurns_marks : CutsTurns r .joined (.rule .optionalMark) n (Keeps r .hidden dotName) where
  turn _ _ _ _ _ h _ := cut_word rfl rfl h
  next s parts y _ _ _ h _ := by
    obtain ⟨t, ht⟩ := eq_cons_of_sign (c := '?') rfl rfl ⟨parts, h⟩
    change s = '?' :: t at ht
    subst ht
    exact keepsDot_of_stops (stops_cons.2 rfl)

section Step

variable (hgeneric : ∀ t parts x, t.length ≤ n → Within r .joined (.rule .genericClause) t parts x →
  sourceGrammar.Matches .joined (.rule .genericClause) t parts x)

include hgeneric

theorem cut_typeReference_step (h : Within r layout (.rule .typeReference) s parts y)
    (hs : s.length ≤ n) (hy : Keeps r .hidden dotName y) :
    sourceGrammar.Matches layout (.rule .typeReference) s parts y := by
  refine h.cut_rule fun inner hinner => ?_
  obtain ⟨ps, z, qs, hname, hopt, -, rfl⟩ := Within.seq hinner
  have hle := hname.length_le
  rcases hopt.opt with htypes | ⟨hf, rfl, rfl⟩
  · have htypes : sourceGrammar.Matches .joined (.rule .genericClause) z qs y :=
      hgeneric _ _ _ (Nat.le_trans hle hs) htypes
    obtain ⟨t, rfl⟩ := eq_cons_of_sign (c := '<') rfl rfl ⟨qs, htypes⟩
    have hdot : Keeps r .hidden dotName ('<' :: t) := keepsDot_of_stops (stops_cons.2 rfl)
    exact Grammar.matches_seq.2 ⟨ps, _, qs, cut_qualifiedName hname hdot,
      Grammar.matches_opt.2 (.inl htypes), rfl⟩
  · exact Grammar.matches_seq.2 ⟨ps, _, [], cut_qualifiedName hname hy,
      Grammar.matches_opt.2 (.inr ⟨fails_genericClause_cut hf, rfl, rfl⟩), rfl⟩

theorem cut_typeExpr_step (h : Within r layout (.rule .typeExpr) s parts y) (hs : s.length ≤ n)
    (hy : Keeps r .hidden dotName y) : sourceGrammar.Matches layout (.rule .typeExpr) s parts y := by
  refine h.cut_rule fun inner hinner => ?_
  refine cutsTurns_marks.chain hinner hs
    (fun ps z href hz => cut_typeReference_step hgeneric href hs hz) ?_
  rintro z hz hf
  obtain rfl : y = z := hz.elim id And.left
  exact ⟨hy, Grammar.fails_rule.2 (fails_lit_cut (Grammar.fails_rule.1 hf))⟩

/-- The types behind commas, up to the bracket. -/
theorem cutsTurns_types : CutsTurns r .spaced commaType n (Before fun c => c == ',' || c == '>') where
  turn s parts y hs _ h hy := by
    obtain ⟨ps, z, qs, hcomma, htype, -, rfl⟩ := Within.seq h
    have hle := hcomma.length_le
    have hlength := length_after_le .spaced z
    have htype := cut_typeExpr_step hgeneric htype (by omega) (keepsDot_of_before hy rfl)
    exact Grammar.matches_seq.2 ⟨ps, z, qs, hcomma.lit, htype, rfl⟩
  next s parts y _ _ _ h _ := by
    obtain ⟨u, hlit, -⟩ := Grammar.accepts_seq.1 ⟨parts, h⟩
    exact before_of_after (Grammar.accepts_lit.1 hlit) rfl

end Step

/-- A list of types is closed by its bracket: whatever stands behind it can be cut off. -/
theorem cut_genericClause (h : Within r layout (.rule .genericClause) s parts y) :
    sourceGrammar.Matches layout (.rule .genericClause) s parts y := by
  induction hn : s.length using Nat.strongRecOn generalizing layout s parts y with
  | ind n ih =>
    subst hn
    refine h.cut_rule fun inner hinner => ?_
    obtain ⟨_, z, qs, hfront, hclose, -, rfl⟩ := Within.seq hinner
    obtain ⟨ps, t, qs', hopen, htypes, -, rfl⟩ := Within.seq hfront
    obtain ⟨rfl, rfl⟩ := Grammar.matches_lit.1 hopen.lit
    have hbracket : Before (· == '>') z := before_of_after (Grammar.matches_lit.1 hclose.lit).1 rfl
    have hlength := length_after_le .spaced t
    have hgeneric : ∀ u parts x, u.length ≤ t.length →
        Within r .joined (.rule .genericClause) u parts x →
        sourceGrammar.Matches .joined (.rule .genericClause) u parts x :=
      fun u parts x hu h => ih u.length (Nat.lt_succ_of_le hu) h rfl
    have htypes : sourceGrammar.Matches .spaced (Rule.commaSeparated (.rule .typeExpr))
        (after .spaced t) qs' z := by
      refine (cutsTurns_types hgeneric).chain htypes hlength (fun qs x htype hx => ?_) ?_
      · exact cut_typeExpr_step hgeneric htype hlength (keepsDot_of_before hx rfl)
      · rintro x hx -
        have hx := hbracket.of_leaves hx
        exact ⟨hx.of_eq rfl, fails_comma (hx.stops_after_eq rfl)⟩
    exact Grammar.matches_seq.2 ⟨_, z, qs, Grammar.matches_seq.2 ⟨_, t, qs', hopen.lit, htypes, rfl⟩,
      hclose.lit, rfl⟩

theorem cut_typeReference (h : Within r layout (.rule .typeReference) s parts y)
    (hy : Keeps r .hidden dotName y) :
    sourceGrammar.Matches layout (.rule .typeReference) s parts y :=
  cut_typeReference_step (fun _ _ _ _ => cut_genericClause) h (Nat.le_refl _) hy

theorem cut_typeExpr (h : Within r layout (.rule .typeExpr) s parts y)
    (hy : Keeps r .hidden dotName y) :
    sourceGrammar.Matches layout (.rule .typeExpr) s parts y :=
  cut_typeExpr_step (fun _ _ _ _ => cut_genericClause) h (Nat.le_refl _) hy

end Types
end SwiftMacro
