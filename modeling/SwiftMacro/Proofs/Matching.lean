import SwiftMacro.Peg
/-!
# What matching decides

`Grammar.run` counts steps. More steps never change an answer (`run_of_le`), so what an expression
does to a text can be said without them: it matches (`Matches`) or it fails (`Fails`). The lemmas
here say for each kind of expression when it does which, in both directions.
-/

namespace SwiftMacro

namespace Grammar

variable {ρ : Type} {g : Grammar ρ} {layout : Layout} {s : List Char}

/-! ## One step -/

theorem run_seq (n : Nat) (layout : Layout) (a b : Peg ρ) (s : List Char) :
    g.run (n + 1) layout (.seq a b) s = match g.run n layout a s with
      | .matched parts rest =>
          (g.run n layout b (g.gap layout rest).2).prepend (parts ++ (g.gap layout rest).1)
      | other => other := rfl

theorem run_alt (n : Nat) (layout : Layout) (a b : Peg ρ) (s : List Char) :
    g.run (n + 1) layout (.alt a b) s = match g.run n layout a s with
      | .failed => g.run n layout b s
      | other => other := rfl

theorem run_opt (n : Nat) (layout : Layout) (a : Peg ρ) (s : List Char) :
    g.run (n + 1) layout (.opt a) s = match g.run n layout a s with
      | .failed => .matched [] s
      | other => other := rfl

theorem run_many (n : Nat) (layout : Layout) (a : Peg ρ) (s : List Char) :
    g.run (n + 1) layout (.many a) s = match g.run n layout a s with
      | .failed => .matched [] s
      | .matched parts rest => (g.run n layout (.more a) rest).prepend parts
      | .undecided => .undecided := rfl

theorem run_more (n : Nat) (layout : Layout) (a : Peg ρ) (s : List Char) :
    g.run (n + 1) layout (.more a) s = match g.run n layout a (g.gap layout s).2 with
      | .failed => .matched [] s
      | .matched parts rest =>
          (g.run n layout (.more a) rest).prepend ((g.gap layout s).1 ++ parts)
      | .undecided => .undecided := rfl

theorem run_not (n : Nat) (layout : Layout) (a : Peg ρ) (s : List Char) :
    g.run (n + 1) layout (.not a) s = match g.run n layout a s with
      | .failed => .matched [] s
      | .matched _ _ => .failed
      | .undecided => .undecided := rfl

theorem run_rule (n : Nat) (layout : Layout) (r : ρ) (s : List Char) :
    g.run (n + 1) layout (.rule r) s =
      match g.run n ((g.style r).inside layout) (g.body r) s with
      | .matched parts rest => .matched (g.close r layout parts) rest
      | other => other := rfl

/-! ## More steps -/

theorem prepend_ne_undecided {o : Outcome ρ} {front : List (Tree ρ)}
    (h : o.prepend front ≠ .undecided) : o ≠ .undecided := by
  rintro rfl
  exact h rfl

/-- One more step does not change what was decided. -/
theorem run_succ (n : Nat) (layout : Layout) (e : Peg ρ) (s : List Char)
    (h : g.run n layout e s ≠ .undecided) : g.run (n + 1) layout e s = g.run n layout e s := by
  induction n generalizing layout e s with
  | zero => exact absurd rfl h
  | succ n ih =>
    cases e with
    | empty | one p | lit w => rfl
    | seq a b =>
      rw [run_seq] at h
      rw [run_seq, run_seq]
      cases ha : g.run n layout a s with
      | undecided => simp [ha] at h
      | failed => rw [ih _ _ _ (by simp [ha]), ha]
      | matched ps r =>
        simp only [ha] at h
        rw [ih layout a s (by simp [ha]), ha]
        simp only
        rw [ih _ _ _ (prepend_ne_undecided h)]
    | alt a b =>
      rw [run_alt] at h
      rw [run_alt, run_alt]
      cases ha : g.run n layout a s with
      | undecided => simp [ha] at h
      | failed =>
        simp only [ha] at h
        rw [ih layout a s (by simp [ha]), ha]
        exact ih _ _ _ h
      | matched ps r => rw [ih _ _ _ (by simp [ha]), ha]
    | opt a =>
      rw [run_opt] at h
      rw [run_opt, run_opt]
      cases ha : g.run n layout a s with
      | undecided => simp [ha] at h
      | failed | matched ps r => rw [ih _ _ _ (by simp [ha]), ha]
    | many a =>
      rw [run_many] at h
      rw [run_many, run_many]
      cases ha : g.run n layout a s with
      | undecided => simp [ha] at h
      | failed => rw [ih _ _ _ (by simp [ha]), ha]
      | matched ps r =>
        simp only [ha] at h
        rw [ih layout a s (by simp [ha]), ha]
        simp only
        rw [ih _ _ _ (prepend_ne_undecided h)]
    | more a =>
      rw [run_more] at h
      rw [run_more, run_more]
      cases ha : g.run n layout a (g.gap layout s).2 with
      | undecided => simp [ha] at h
      | failed => rw [ih _ _ _ (by simp [ha]), ha]
      | matched ps r =>
        simp only [ha] at h
        rw [ih layout a _ (by simp [ha]), ha]
        simp only
        rw [ih _ _ _ (prepend_ne_undecided h)]
    | not a =>
      rw [run_not] at h
      rw [run_not, run_not]
      cases ha : g.run n layout a s with
      | undecided => simp [ha] at h
      | failed | matched ps r => rw [ih _ _ _ (by simp [ha]), ha]
    | rule r =>
      rw [run_rule] at h
      rw [run_rule, run_rule]
      cases ha : g.run n ((g.style r).inside layout) (g.body r) s with
      | undecided => simp [ha] at h
      | failed | matched ps t => rw [ih _ _ _ (by simp [ha]), ha]

/-- An answer stays the same with more steps. -/
theorem run_of_le {n m : Nat} {e : Peg ρ} {o : Outcome ρ} (hnm : n ≤ m) (ho : o ≠ .undecided)
    (h : g.run n layout e s = o) : g.run m layout e s = o := by
  induction hnm with
  | refl => exact h
  | step _ ih => rw [run_succ _ _ _ _ (by rw [ih]; exact ho), ih]

/-! ## Matching and failing -/

/-- The expression matches at the start of the text; `parts` is what it matched. -/
def Matches (g : Grammar ρ) (layout : Layout) (e : Peg ρ) (s : List Char) (parts : List (Tree ρ))
    (rest : List Char) : Prop :=
  ∃ n, g.run n layout e s = .matched parts rest

/-- The expression does not match at the start of the text. -/
def Fails (g : Grammar ρ) (layout : Layout) (e : Peg ρ) (s : List Char) : Prop :=
  ∃ n, g.run n layout e s = .failed

/-- The expression matches and leaves `rest`. -/
def Accepts (g : Grammar ρ) (layout : Layout) (e : Peg ρ) (s rest : List Char) : Prop :=
  ∃ parts, g.Matches layout e s parts rest

variable {e a b : Peg ρ} {parts parts' : List (Tree ρ)} {rest rest' : List Char}

theorem Matches.unique (h : g.Matches layout e s parts rest)
    (h' : g.Matches layout e s parts' rest') : parts = parts' ∧ rest = rest' := by
  obtain ⟨n, hn⟩ := h
  obtain ⟨m, hm⟩ := h'
  have hn' := run_of_le (Nat.le_max_left n m) (by simp) hn
  have hm' := run_of_le (Nat.le_max_right n m) (by simp) hm
  rw [hn'] at hm'
  exact Outcome.matched.inj hm'

theorem Matches.not_fails (h : g.Matches layout e s parts rest) : ¬ g.Fails layout e s := by
  rintro ⟨m, hm⟩
  obtain ⟨n, hn⟩ := h
  have hn' := run_of_le (Nat.le_max_left n m) (by simp) hn
  have hm' := run_of_le (Nat.le_max_right n m) (by simp) hm
  rw [hn'] at hm'
  cases hm'

theorem Accepts.unique (h : g.Accepts layout e s rest) (h' : g.Accepts layout e s rest') :
    rest = rest' := by
  obtain ⟨parts, hp⟩ := h
  obtain ⟨parts', hp'⟩ := h'
  exact (hp.unique hp').2

theorem Accepts.not_fails (h : g.Accepts layout e s rest) : ¬ g.Fails layout e s := by
  obtain ⟨parts, hp⟩ := h
  exact hp.not_fails

/-! ## When each kind of expression matches -/

theorem dropWord_append (w s : List Char) : dropWord w (w ++ s) = some s := by
  induction w with
  | nil => rfl
  | cons c w ih => rw [List.cons_append, dropWord, if_pos rfl, ih]

theorem dropWord_eq_some {w : List Char} : dropWord w s = some rest ↔ s = w ++ rest :=
  ⟨fun h => (append_of_dropWord h).symm, fun h => h ▸ dropWord_append w rest⟩

theorem Matches.exists_succ (h : g.Matches layout e s parts rest) :
    ∃ n, g.run (n + 1) layout e s = .matched parts rest := by
  obtain ⟨n, hn⟩ := h
  exact ⟨n, run_of_le (Nat.le_succ n) (by simp) hn⟩

theorem Fails.exists_succ (h : g.Fails layout e s) : ∃ n, g.run (n + 1) layout e s = .failed := by
  obtain ⟨n, hn⟩ := h
  exact ⟨n, run_of_le (Nat.le_succ n) (by simp) hn⟩

/-- Two matches within the same number of steps. -/
theorem Matches.both {s' : List Char} (h : g.Matches layout a s parts rest)
    (h' : g.Matches layout b s' parts' rest') :
    ∃ n, g.run n layout a s = .matched parts rest ∧ g.run n layout b s' = .matched parts' rest' := by
  obtain ⟨n, hn⟩ := h
  obtain ⟨m, hm⟩ := h'
  exact ⟨max n m, run_of_le (Nat.le_max_left n m) (by simp) hn,
    run_of_le (Nat.le_max_right n m) (by simp) hm⟩

theorem matches_empty : g.Matches layout .empty s parts rest ↔ parts = [] ∧ rest = s := by
  constructor
  · intro h
    obtain ⟨n, hn⟩ := h.exists_succ
    obtain ⟨rfl, rfl⟩ := Outcome.matched.inj hn
    exact ⟨rfl, rfl⟩
  · rintro ⟨rfl, rfl⟩
    exact ⟨1, rfl⟩

theorem matches_one {p : Char → Bool} : g.Matches layout (.one p) s parts rest ↔
    ∃ c, s = c :: rest ∧ p c = true ∧ parts = [.text [c]] := by
  constructor
  · intro h
    obtain ⟨n, hn⟩ := h.exists_succ
    cases s with
    | nil => simp [run] at hn
    | cons c t =>
      simp only [run] at hn
      split at hn
      · next hp =>
        obtain ⟨rfl, rfl⟩ := Outcome.matched.inj hn
        exact ⟨c, rfl, hp, rfl⟩
      · cases hn
  · rintro ⟨c, rfl, hp, rfl⟩
    exact ⟨1, by simp [run, hp]⟩

theorem matches_lit {w : String} : g.Matches layout (.lit w) s parts rest ↔
    s = w.toList ++ rest ∧ parts = [.text w.toList] := by
  constructor
  · intro h
    obtain ⟨n, hn⟩ := h.exists_succ
    simp only [run] at hn
    split at hn
    · cases hn
    · next r hr =>
      obtain ⟨rfl, rfl⟩ := Outcome.matched.inj hn
      exact ⟨dropWord_eq_some.1 hr, rfl⟩
  · rintro ⟨rfl, rfl⟩
    exact ⟨1, by simp [run, dropWord_append]⟩

theorem matches_seq : g.Matches layout (a ++ b) s parts rest ↔
    ∃ ps r qs, g.Matches layout a s ps r ∧ g.Matches layout b (g.gap layout r).2 qs rest ∧
      parts = ps ++ (g.gap layout r).1 ++ qs := by
  constructor
  · intro h
    obtain ⟨n, hn⟩ := h.exists_succ
    change g.run (n + 1) layout (.seq a b) s = _ at hn
    rw [run_seq] at hn
    split at hn
    · next ps r hr =>
      obtain ⟨qs, hb, rfl⟩ := prepend_eq_matched hn
      exact ⟨ps, r, qs, ⟨n, hr⟩, ⟨n, hb⟩, rfl⟩
    · next hne => exact absurd hn (hne _ _)
  · rintro ⟨ps, r, qs, ha, hb, rfl⟩
    obtain ⟨n, hna, hnb⟩ := ha.both hb
    refine ⟨n + 1, ?_⟩
    change g.run (n + 1) layout (.seq a b) s = _
    rw [run_seq, hna]
    simp only [hnb, Outcome.prepend]

theorem matches_alt : g.Matches layout (a / b) s parts rest ↔
    g.Matches layout a s parts rest ∨ g.Fails layout a s ∧ g.Matches layout b s parts rest := by
  constructor
  · intro h
    obtain ⟨n, hn⟩ := h.exists_succ
    change g.run (n + 1) layout (.alt a b) s = _ at hn
    rw [run_alt] at hn
    split at hn
    · next hf => exact .inr ⟨⟨n, hf⟩, n, hn⟩
    · exact .inl ⟨n, hn⟩
  · rintro (⟨n, hn⟩ | ⟨⟨n, hn⟩, m, hm⟩)
    · refine ⟨n + 1, ?_⟩
      change g.run (n + 1) layout (.alt a b) s = _
      rw [run_alt, hn]
    · refine ⟨max n m + 1, ?_⟩
      change g.run (max n m + 1) layout (.alt a b) s = _
      rw [run_alt, run_of_le (Nat.le_max_left n m) (by simp) hn]
      exact run_of_le (Nat.le_max_right n m) (by simp) hm

theorem matches_opt : g.Matches layout (.opt a) s parts rest ↔
    g.Matches layout a s parts rest ∨ g.Fails layout a s ∧ parts = [] ∧ rest = s := by
  constructor
  · intro h
    obtain ⟨n, hn⟩ := h.exists_succ
    rw [run_opt] at hn
    split at hn
    · next hf =>
      obtain ⟨rfl, rfl⟩ := Outcome.matched.inj hn
      exact .inr ⟨⟨n, hf⟩, rfl, rfl⟩
    · exact .inl ⟨n, hn⟩
  · rintro (⟨n, hn⟩ | ⟨⟨n, hn⟩, rfl, rfl⟩)
    · exact ⟨n + 1, by rw [run_opt, hn]⟩
    · exact ⟨n + 1, by rw [run_opt, hn]⟩

theorem matches_many : g.Matches layout (.many a) s parts rest ↔
    (g.Fails layout a s ∧ parts = [] ∧ rest = s) ∨
    ∃ ps r qs, g.Matches layout a s ps r ∧ g.Matches layout (.more a) r qs rest ∧
      parts = ps ++ qs := by
  constructor
  · intro h
    obtain ⟨n, hn⟩ := h.exists_succ
    rw [run_many] at hn
    split at hn
    · next hf =>
      obtain ⟨rfl, rfl⟩ := Outcome.matched.inj hn
      exact .inl ⟨⟨n, hf⟩, rfl, rfl⟩
    · next ps r hr =>
      obtain ⟨qs, hb, rfl⟩ := prepend_eq_matched hn
      exact .inr ⟨ps, r, qs, ⟨n, hr⟩, ⟨n, hb⟩, rfl⟩
    · cases hn
  · rintro (⟨⟨n, hn⟩, rfl, rfl⟩ | ⟨ps, r, qs, ha, hb, rfl⟩)
    · exact ⟨n + 1, by rw [run_many, hn]⟩
    · obtain ⟨n, hna, hnb⟩ := ha.both hb
      refine ⟨n + 1, ?_⟩
      rw [run_many, hna]
      simp only [hnb, Outcome.prepend]

theorem matches_more : g.Matches layout (.more a) s parts rest ↔
    (g.Fails layout a (g.gap layout s).2 ∧ parts = [] ∧ rest = s) ∨
    ∃ ps r qs, g.Matches layout a (g.gap layout s).2 ps r ∧ g.Matches layout (.more a) r qs rest ∧
      parts = (g.gap layout s).1 ++ ps ++ qs := by
  constructor
  · intro h
    obtain ⟨n, hn⟩ := h.exists_succ
    rw [run_more] at hn
    split at hn
    · next hf =>
      obtain ⟨rfl, rfl⟩ := Outcome.matched.inj hn
      exact .inl ⟨⟨n, hf⟩, rfl, rfl⟩
    · next ps r hr =>
      obtain ⟨qs, hb, rfl⟩ := prepend_eq_matched hn
      exact .inr ⟨ps, r, qs, ⟨n, hr⟩, ⟨n, hb⟩, rfl⟩
    · cases hn
  · rintro (⟨⟨n, hn⟩, rfl, rfl⟩ | ⟨ps, r, qs, ha, hb, rfl⟩)
    · exact ⟨n + 1, by rw [run_more, hn]⟩
    · obtain ⟨n, hna, hnb⟩ := ha.both hb
      refine ⟨n + 1, ?_⟩
      rw [run_more, hna]
      simp only [hnb, Outcome.prepend]

theorem matches_not : g.Matches layout (.not a) s parts rest ↔
    g.Fails layout a s ∧ parts = [] ∧ rest = s := by
  constructor
  · intro h
    obtain ⟨n, hn⟩ := h.exists_succ
    rw [run_not] at hn
    split at hn
    · next hf =>
      obtain ⟨rfl, rfl⟩ := Outcome.matched.inj hn
      exact ⟨⟨n, hf⟩, rfl, rfl⟩
    · cases hn
    · cases hn
  · rintro ⟨⟨n, hn⟩, rfl, rfl⟩
    exact ⟨n + 1, by rw [run_not, hn]⟩

theorem matches_rule {r : ρ} : g.Matches layout (.rule r) s parts rest ↔
    ∃ inner, g.Matches ((g.style r).inside layout) (g.body r) s inner rest ∧
      parts = g.close r layout inner := by
  constructor
  · intro h
    obtain ⟨n, hn⟩ := h.exists_succ
    rw [run_rule] at hn
    split at hn
    · next ps t hr =>
      obtain ⟨rfl, rfl⟩ := Outcome.matched.inj hn
      exact ⟨ps, ⟨n, hr⟩, rfl⟩
    · next hne => exact absurd hn (hne _ _)
  · rintro ⟨inner, ⟨n, hn⟩, rfl⟩
    exact ⟨n + 1, by rw [run_rule, hn]⟩

/-! ## Induction over a match -/

/-- Induction over a match, with one case for each way to match. -/
@[elab_as_elim]
theorem Matches.induct
    {motive : ∀ (layout : Layout) (e : Peg ρ) (s : List Char) (parts : List (Tree ρ)) (rest : List Char),
      g.Matches layout e s parts rest → Prop}
    (empty : ∀ {layout s}, motive layout .empty s [] s (matches_empty.2 ⟨rfl, rfl⟩))
    (one : ∀ {layout p c rest} (hp : p c = true),
      motive layout (.one p) (c :: rest) [.text [c]] rest (matches_one.2 ⟨c, rfl, hp, rfl⟩))
    (lit : ∀ {layout w rest},
      motive layout (.lit w) (w.toList ++ rest) [.text w.toList] rest (matches_lit.2 ⟨rfl, rfl⟩))
    (seq : ∀ {layout a b s ps r qs rest} (ha : g.Matches layout a s ps r)
      (hb : g.Matches layout b (g.gap layout r).2 qs rest), motive layout a s ps r ha →
      motive layout b (g.gap layout r).2 qs rest hb →
      motive layout (.seq a b) s (ps ++ (g.gap layout r).1 ++ qs) rest
        (matches_seq.2 ⟨ps, r, qs, ha, hb, rfl⟩))
    (altFirst : ∀ {layout a b s parts rest} (ha : g.Matches layout a s parts rest),
      motive layout a s parts rest ha → motive layout (.alt a b) s parts rest (matches_alt.2 (.inl ha)))
    (altSecond : ∀ {layout a b s parts rest} (hf : g.Fails layout a s)
      (hb : g.Matches layout b s parts rest), motive layout b s parts rest hb →
      motive layout (.alt a b) s parts rest (matches_alt.2 (.inr ⟨hf, hb⟩)))
    (optSome : ∀ {layout a s parts rest} (ha : g.Matches layout a s parts rest),
      motive layout a s parts rest ha → motive layout (.opt a) s parts rest (matches_opt.2 (.inl ha)))
    (optNone : ∀ {layout a s} (hf : g.Fails layout a s),
      motive layout (.opt a) s [] s (matches_opt.2 (.inr ⟨hf, rfl, rfl⟩)))
    (manyStop : ∀ {layout a s} (hf : g.Fails layout a s),
      motive layout (.many a) s [] s (matches_many.2 (.inl ⟨hf, rfl, rfl⟩)))
    (manyTurn : ∀ {layout a s ps r qs rest} (ha : g.Matches layout a s ps r)
      (hmore : g.Matches layout (.more a) r qs rest), motive layout a s ps r ha →
      motive layout (.more a) r qs rest hmore → motive layout (.many a) s (ps ++ qs) rest
        (matches_many.2 (.inr ⟨ps, r, qs, ha, hmore, rfl⟩)))
    (moreStop : ∀ {layout a s} (hf : g.Fails layout a (g.gap layout s).2),
      motive layout (.more a) s [] s (matches_more.2 (.inl ⟨hf, rfl, rfl⟩)))
    (moreTurn : ∀ {layout a s ps r qs rest} (ha : g.Matches layout a (g.gap layout s).2 ps r)
      (hmore : g.Matches layout (.more a) r qs rest), motive layout a (g.gap layout s).2 ps r ha →
      motive layout (.more a) r qs rest hmore →
      motive layout (.more a) s ((g.gap layout s).1 ++ ps ++ qs) rest
        (matches_more.2 (.inr ⟨ps, r, qs, ha, hmore, rfl⟩)))
    (not : ∀ {layout a s} (hf : g.Fails layout a s),
      motive layout (.not a) s [] s (matches_not.2 ⟨hf, rfl, rfl⟩))
    (rule : ∀ {layout r s inner rest}
      (hi : g.Matches ((g.style r).inside layout) (g.body r) s inner rest),
      motive ((g.style r).inside layout) (g.body r) s inner rest hi →
      motive layout (.rule r) s (g.close r layout inner) rest (matches_rule.2 ⟨inner, hi, rfl⟩))
    {layout : Layout} {e : Peg ρ} {s : List Char} {parts : List (Tree ρ)} {rest : List Char}
    (h : g.Matches layout e s parts rest) : motive layout e s parts rest h := by
  obtain ⟨n, hn⟩ := h
  -- The steps carry the induction: each part was matched with one step less.
  induction n generalizing layout e s parts rest with
  | zero => cases hn
  | succ n ih =>
    have hm : g.Matches layout e s parts rest := ⟨n + 1, hn⟩
    cases e with
    | empty =>
      obtain ⟨rfl, rfl⟩ := matches_empty.1 hm
      exact empty
    | one p =>
      obtain ⟨c, rfl, hp, rfl⟩ := matches_one.1 hm
      exact one hp
    | lit w =>
      obtain ⟨rfl, rfl⟩ := matches_lit.1 hm
      exact lit
    | seq a b =>
      rw [run_seq] at hn
      split at hn
      · next ps r hr =>
        obtain ⟨qs, hq, rfl⟩ := prepend_eq_matched hn
        exact seq _ _ (ih hr) (ih hq)
      · next hne => exact absurd hn (hne _ _)
    | alt a b =>
      rw [run_alt] at hn
      split at hn
      · next hf => exact altSecond ⟨n, hf⟩ _ (ih hn)
      · exact altFirst _ (ih hn)
    | opt a =>
      rw [run_opt] at hn
      split at hn
      · next hf =>
        obtain ⟨rfl, rfl⟩ := Outcome.matched.inj hn
        exact optNone ⟨n, hf⟩
      · exact optSome _ (ih hn)
    | many a =>
      rw [run_many] at hn
      split at hn
      · next hf =>
        obtain ⟨rfl, rfl⟩ := Outcome.matched.inj hn
        exact manyStop ⟨n, hf⟩
      · next ps r hr =>
        obtain ⟨qs, hq, rfl⟩ := prepend_eq_matched hn
        exact manyTurn _ _ (ih hr) (ih hq)
      · cases hn
    | more a =>
      rw [run_more] at hn
      split at hn
      · next hf =>
        obtain ⟨rfl, rfl⟩ := Outcome.matched.inj hn
        exact moreStop ⟨n, hf⟩
      · next ps r hr =>
        obtain ⟨qs, hq, rfl⟩ := prepend_eq_matched hn
        exact moreTurn _ _ (ih hr) (ih hq)
      · cases hn
    | not a =>
      obtain ⟨hf, rfl, rfl⟩ := matches_not.1 hm
      exact not hf
    | rule r =>
      rw [run_rule] at hn
      split at hn
      · next ps t hr =>
        obtain ⟨rfl, rfl⟩ := Outcome.matched.inj hn
        exact rule _ (ih hr)
      · next hne => exact absurd hn (hne _ _)

/-- Induction over the turns of a repetition. -/
@[elab_as_elim]
theorem Matches.more_induct {layout : Layout} {a : Peg ρ}
    {motive : ∀ (s : List Char) (parts : List (Tree ρ)) (rest : List Char),
      g.Matches layout (.more a) s parts rest → Prop}
    (stop : ∀ {s} (hf : g.Fails layout a (g.gap layout s).2),
      motive s [] s (matches_more.2 (.inl ⟨hf, rfl, rfl⟩)))
    (turn : ∀ {s ps r qs rest} (ha : g.Matches layout a (g.gap layout s).2 ps r)
      (hmore : g.Matches layout (.more a) r qs rest), motive r qs rest hmore →
      motive s ((g.gap layout s).1 ++ ps ++ qs) rest
        (matches_more.2 (.inr ⟨ps, r, qs, ha, hmore, rfl⟩)))
    {s : List Char} {parts : List (Tree ρ)} {rest : List Char}
    (h : g.Matches layout (.more a) s parts rest) : motive s parts rest h := by
  suffices ∀ {e s parts rest} (h : g.Matches layout e s parts rest) (he : e = .more a),
      motive s parts rest (he ▸ h) from this h rfl
  clear h
  intro e s parts rest h he
  induction h using Matches.induct with
  | moreStop hf =>
    obtain rfl := Peg.more.inj he
    exact stop hf
  | moreTurn ha hmore _ ih =>
    obtain rfl := Peg.more.inj he
    exact turn ha hmore (ih stop turn rfl)
  | _ => cases he

/-- What an expression matched and what it leaves make up the text. -/
theorem Matches.text (hg : g.BlanksSplit) (h : g.Matches layout e s parts rest) :
    Tree.charsOf parts ++ rest = s := by
  have hgap := gap_text hg
  induction h using Matches.induct with
  | empty | optNone | manyStop | moreStop | not => rfl
  | one | lit => simp [Tree.charsOf, Tree.chars]
  | @seq layout _ _ _ _ r _ _ _ _ iha ihb =>
    rw [Tree.charsOf_append, Tree.charsOf_append, List.append_assoc, List.append_assoc, ihb, hgap, iha]
  | altFirst _ ih | altSecond _ _ ih | optSome _ ih => exact ih
  | manyTurn _ _ iha ihmore => rw [Tree.charsOf_append, List.append_assoc, ihmore, iha]
  | moreTurn _ _ iha ihmore =>
    rw [Tree.charsOf_append, Tree.charsOf_append, List.append_assoc, List.append_assoc, ihmore, iha,
      hgap]
  | rule _ ih => rw [close_chars, ih]


/-- The first part of a sequence, and what stands behind it. -/
theorem Matches.front (hg : g.BlanksSplit) (h : g.Matches layout (a ++ b) s parts rest) :
    ∃ front u back, g.Matches layout a s front u ∧ parts = front ++ back ∧
      Tree.charsOf back ++ rest = u := by
  obtain ⟨ps, u, qs, hfront, hback, rfl⟩ := matches_seq.1 h
  refine ⟨ps, u, _, hfront, List.append_assoc _ _ _, ?_⟩
  rw [Tree.charsOf_append, List.append_assoc, hback.text hg]
  exact gap_text hg layout u

/-! ## What each kind of expression leaves -/

theorem accepts_empty : g.Accepts layout .empty s rest ↔ rest = s := by
  simp [Accepts, matches_empty]

theorem accepts_one {p : Char → Bool} :
    g.Accepts layout (.one p) s rest ↔ ∃ c, s = c :: rest ∧ p c = true := by
  constructor
  · rintro ⟨parts, h⟩
    obtain ⟨c, hs, hp, -⟩ := matches_one.1 h
    exact ⟨c, hs, hp⟩
  · rintro ⟨c, hs, hp⟩
    exact ⟨_, matches_one.2 ⟨c, hs, hp, rfl⟩⟩

theorem accepts_lit {w : String} : g.Accepts layout (.lit w) s rest ↔ s = w.toList ++ rest := by
  simp [Accepts, matches_lit]

theorem accepts_seq : g.Accepts layout (a ++ b) s rest ↔
    ∃ r, g.Accepts layout a s r ∧ g.Accepts layout b (g.gap layout r).2 rest := by
  simp only [Accepts, matches_seq]
  constructor
  · rintro ⟨_, ps, r, qs, ha, hb, rfl⟩
    exact ⟨r, ⟨ps, ha⟩, qs, hb⟩
  · rintro ⟨r, ⟨ps, ha⟩, qs, hb⟩
    exact ⟨_, ps, r, qs, ha, hb, rfl⟩

theorem accepts_alt : g.Accepts layout (a / b) s rest ↔
    g.Accepts layout a s rest ∨ g.Fails layout a s ∧ g.Accepts layout b s rest := by
  simp only [Accepts, matches_alt, exists_or, exists_and_left]

theorem accepts_opt : g.Accepts layout (.opt a) s rest ↔
    g.Accepts layout a s rest ∨ g.Fails layout a s ∧ rest = s := by
  simp [Accepts, matches_opt, exists_or]

theorem accepts_many : g.Accepts layout (.many a) s rest ↔
    (g.Fails layout a s ∧ rest = s) ∨
    ∃ r, g.Accepts layout a s r ∧ g.Accepts layout (.more a) r rest := by
  simp only [Accepts, matches_many]
  constructor
  · rintro ⟨_, ⟨hf, rfl, rfl⟩ | ⟨ps, r, qs, ha, hb, rfl⟩⟩
    · exact .inl ⟨hf, rfl⟩
    · exact .inr ⟨r, ⟨ps, ha⟩, qs, hb⟩
  · rintro (⟨hf, rfl⟩ | ⟨r, ⟨ps, ha⟩, qs, hb⟩)
    · exact ⟨[], .inl ⟨hf, rfl, rfl⟩⟩
    · exact ⟨_, .inr ⟨ps, r, qs, ha, hb, rfl⟩⟩

theorem accepts_more : g.Accepts layout (.more a) s rest ↔
    (g.Fails layout a (g.gap layout s).2 ∧ rest = s) ∨
    ∃ r, g.Accepts layout a (g.gap layout s).2 r ∧ g.Accepts layout (.more a) r rest := by
  constructor
  · rintro ⟨parts, h⟩
    rcases matches_more.1 h with ⟨hf, rfl, rfl⟩ | ⟨ps, r, qs, ha, hb, rfl⟩
    · exact .inl ⟨hf, rfl⟩
    · exact .inr ⟨r, ⟨ps, ha⟩, qs, hb⟩
  · rintro (⟨hf, rfl⟩ | ⟨r, ⟨ps, ha⟩, qs, hb⟩)
    · exact ⟨[], matches_more.2 (.inl ⟨hf, rfl, rfl⟩)⟩
    · exact ⟨_, matches_more.2 (.inr ⟨ps, r, qs, ha, hb, rfl⟩)⟩

/-- What passes from each turn of a repetition to the place in front of it holds at its start. -/
theorem Accepts.more_induct {P : List Char → Prop} (h : g.Accepts layout (.more a) s rest)
    (stop : g.Fails layout a (g.gap layout rest).2 → P rest)
    (turn : ∀ s r, g.Accepts layout a (g.gap layout s).2 r → g.Accepts layout (.more a) r rest →
      P r → P s) : P s := by
  obtain ⟨parts, hm⟩ := h
  induction hm using Matches.more_induct with
  | stop hf => exact stop hf
  | turn ha hmore ih => exact turn _ _ ⟨_, ha⟩ ⟨_, hmore⟩ (ih stop turn)

/-- A repetition goes on until the next turn fails. -/
theorem Accepts.fails_of_more (h : g.Accepts layout (.more a) s rest) :
    g.Fails layout a (g.gap layout rest).2 :=
  h.more_induct (P := fun _ => g.Fails layout a (g.gap layout rest).2) id fun _ _ _ _ ih => ih

/-- A repetition comes to an end, at the latest with the text. -/
theorem not_fails_more : ¬ g.Fails layout (.more a) s := by
  rintro ⟨n, hn⟩
  induction n generalizing s with
  | zero => cases hn
  | succ n ih =>
    rw [run_more] at hn
    split at hn
    · cases hn
    · next ps r hr =>
      cases hmore : g.run n layout (.more a) r with
      | failed => exact ih hmore
      | undecided | matched _ _ => rw [hmore] at hn; cases hn
    · cases hn

theorem not_fails_opt : ¬ g.Fails layout (.opt a) s := by
  intro h
  obtain ⟨n, hn⟩ := h.exists_succ
  rw [run_opt] at hn
  split at hn
  · cases hn
  · next hne => exact hne hn

theorem not_fails_many : ¬ g.Fails layout (.many a) s := by
  intro h
  obtain ⟨n, hn⟩ := h.exists_succ
  rw [run_many] at hn
  split at hn
  · cases hn
  · next ps r hr =>
    cases hmore : g.run n layout (.more a) r with
    | failed => exact not_fails_more ⟨n, hmore⟩
    | undecided | matched _ _ => rw [hmore] at hn; cases hn
  · cases hn

theorem accepts_not : g.Accepts layout (.not a) s rest ↔ g.Fails layout a s ∧ rest = s := by
  simp [Accepts, matches_not]

theorem accepts_rule {r : ρ} : g.Accepts layout (.rule r) s rest ↔
    g.Accepts ((g.style r).inside layout) (g.body r) s rest := by
  constructor
  · rintro ⟨parts, h⟩
    obtain ⟨inner, hi, -⟩ := matches_rule.1 h
    exact ⟨inner, hi⟩
  · rintro ⟨inner, hi⟩
    exact ⟨_, matches_rule.2 ⟨inner, hi, rfl⟩⟩

/-! ## When each kind of expression fails -/

theorem fails_one {p : Char → Bool} :
    g.Fails layout (.one p) s ↔ ∀ c, s.head? = some c → p c = false := by
  constructor
  · intro h c hc
    obtain ⟨n, hn⟩ := h.exists_succ
    cases s with
    | nil => cases hc
    | cons d t =>
      obtain rfl := Option.some.inj hc
      simp only [run] at hn
      split at hn
      · cases hn
      · next hp => exact Bool.eq_false_iff.2 hp
  · intro h
    refine ⟨1, ?_⟩
    cases s with
    | nil => rfl
    | cons c t => simp [run, h c rfl]

theorem fails_lit {w : String} : g.Fails layout (.lit w) s ↔ ¬ w.toList <+: s := by
  constructor
  · rintro h ⟨r, rfl⟩
    exact (Accepts.not_fails ⟨_, matches_lit.2 ⟨rfl, rfl⟩⟩) h
  · intro h
    refine ⟨1, ?_⟩
    cases hd : dropWord w.toList s with
    | none => simp [run, hd]
    | some r => exact absurd ⟨r, (dropWord_eq_some.1 hd).symm⟩ h

theorem fails_seq : g.Fails layout (a ++ b) s ↔
    g.Fails layout a s ∨ ∃ r, g.Accepts layout a s r ∧ g.Fails layout b (g.gap layout r).2 := by
  constructor
  · intro h
    obtain ⟨n, hn⟩ := h.exists_succ
    change g.run (n + 1) layout (.seq a b) s = _ at hn
    rw [run_seq] at hn
    cases ha : g.run n layout a s with
    | undecided => rw [ha] at hn; cases hn
    | failed => exact .inl ⟨n, ha⟩
    | matched ps r =>
      simp only [ha] at hn
      cases hb : g.run n layout b (g.gap layout r).2 with
      | undecided => rw [hb] at hn; cases hn
      | failed => exact .inr ⟨r, ⟨ps, n, ha⟩, n, hb⟩
      | matched qs t => rw [hb] at hn; cases hn
  · rintro (⟨n, hn⟩ | ⟨r, ⟨ps, n, hn⟩, m, hm⟩)
    · refine ⟨n + 1, ?_⟩
      change g.run (n + 1) layout (.seq a b) s = _
      rw [run_seq, hn]
    · refine ⟨max n m + 1, ?_⟩
      change g.run (max n m + 1) layout (.seq a b) s = _
      rw [run_seq, run_of_le (Nat.le_max_left n m) (by simp) hn]
      simp only [run_of_le (Nat.le_max_right n m) (by simp) hm, Outcome.prepend]

theorem fails_alt : g.Fails layout (a / b) s ↔ g.Fails layout a s ∧ g.Fails layout b s := by
  constructor
  · intro h
    obtain ⟨n, hn⟩ := h.exists_succ
    change g.run (n + 1) layout (.alt a b) s = _ at hn
    rw [run_alt] at hn
    split at hn
    · next hf => exact ⟨⟨n, hf⟩, n, hn⟩
    · next hne => exact absurd hn hne
  · rintro ⟨⟨n, hn⟩, m, hm⟩
    refine ⟨max n m + 1, ?_⟩
    change g.run (max n m + 1) layout (.alt a b) s = _
    rw [run_alt, run_of_le (Nat.le_max_left n m) (by simp) hn]
    exact run_of_le (Nat.le_max_right n m) (by simp) hm

theorem fails_not : g.Fails layout (.not a) s ↔ ∃ r, g.Accepts layout a s r := by
  constructor
  · intro h
    obtain ⟨n, hn⟩ := h.exists_succ
    rw [run_not] at hn
    split at hn
    · cases hn
    · next ps r hr => exact ⟨r, ps, n, hr⟩
    · cases hn
  · rintro ⟨r, ps, n, hn⟩
    exact ⟨n + 1, by rw [run_not, hn]⟩

theorem fails_rule {r : ρ} :
    g.Fails layout (.rule r) s ↔ g.Fails ((g.style r).inside layout) (g.body r) s := by
  constructor
  · intro h
    obtain ⟨n, hn⟩ := h.exists_succ
    rw [run_rule] at hn
    split at hn
    · cases hn
    · exact ⟨n, hn⟩
  · rintro ⟨n, hn⟩
    exact ⟨n + 1, by rw [run_rule, hn]⟩

end Grammar
end SwiftMacro
