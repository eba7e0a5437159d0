import SwiftMacro.Source
import SwiftMacro.Proofs.Placement
/-!
# Lines and columns

A position names the line in which an offset stands and the character of that line before which it
stands. `position_identifies` says that nothing is lost by this: the offset is where the line starts and
the bytes of the characters that the column counts, so positions tell offsets apart and keep their
order. Offsets past the end have the position of the end.

The proof looks at the characters before the offset: some whole lines, and the beginning of one more.
-/

namespace SwiftMacro

namespace Source

/-! ## The characters before an offset -/

theorem before?_cons {n : Nat} (hn : 0 < n) (c : Char) (cs : List Char) :
    before? n (c :: cs) =
      if c.utf8Size ≤ n then (before? (n - c.utf8Size) cs).map (c :: ·) else none := by
  cases n with
  | zero => omega
  | succ n => rfl

theorem before?_byteLength (front back : List Char) :
    before? (byteLength front) (front ++ back) = some front := by
  induction front with
  | nil => rw [byteLength, before?]
  | cons c cs ih =>
    have hpos := byteLength_pos (List.cons_ne_nil c cs)
    rw [List.cons_append, before?_cons hpos, byteLength, if_pos (Nat.le_add_right _ _),
      Nat.add_sub_cancel_left, ih]
    rfl

theorem before?_of_le {n : Nat} {s : List Char} (h : byteLength s ≤ n) : before? n s = some s := by
  induction s generalizing n with
  | nil => cases n <;> rfl
  | cons c cs ih =>
    have hpos := byteLength_pos (List.cons_ne_nil c cs)
    rw [byteLength] at h hpos
    rw [before?_cons (by omega), if_pos (by omega), ih (by omega)]
    rfl

variable {s : Source} {front back : List Char}

theorem position_of_append (h : s.content.toList = front ++ back) :
    s.position (byteLength front) = positionAfter front := by
  rw [position, h, before?_byteLength]
  rfl

/-- An offset at the end or behind it has the position after the last character. -/
theorem position_of_size_le {offset : Nat} (h : s.content.utf8ByteSize ≤ offset) :
    s.position offset = positionAfter s.content.toList := by
  rw [position, before?_of_le (by rwa [byteLength_toList])]
  rfl

/-- A boundary cuts the characters in two. -/
theorem exists_append_of_isBoundary {offset : Nat} (h : IsBoundary s.content offset) :
    ∃ front back, s.content.toList = front ++ back ∧ offset = byteLength front := by
  obtain ⟨before, behind, htext, rfl⟩ := h
  exact ⟨before.toList, behind.toList, by rw [htext, String.toList_append],
    (byteLength_toList before).symm⟩

/-! ## The lines before an offset -/

/-- The lines of the content: what stands between its line feeds. -/
def lines (s : Source) : List (List Char) := s.content.toList.splitOn '\n'

/-- Lines with their line feeds. -/
def joined (ls : List (List Char)) : List Char := ls.flatMap (· ++ ['\n'])

/-- The byte offset at which a line starts, counting lines from 1: behind the lines before it and their
line feeds. -/
def lineStart (s : Source) (line : Nat) : Nat := byteLength (joined (s.lines.take (line - 1)))

/-- A text is some whole lines and the beginning of one more. -/
theorem exists_joined (front : List Char) : ∃ whole last, front = joined whole ++ last ∧
    (∀ l ∈ whole, '\n' ∉ l) ∧ '\n' ∉ last := by
  induction front with
  | nil => exact ⟨[], [], rfl, by simp, by simp⟩
  | cons c front ih =>
    obtain ⟨whole, last, rfl, hwhole, hlast⟩ := ih
    -- A line feed closes an empty line; anything else is the start of the first line there is.
    by_cases hc : '\n' = c
    · subst hc
      exact ⟨[] :: whole, last, rfl, by simpa using hwhole, hlast⟩
    cases whole with
    | nil => exact ⟨[], c :: last, rfl, by simp, by simp [hc, hlast]⟩
    | cons l ls =>
      obtain ⟨hl, hls⟩ := List.forall_mem_cons.1 hwhole
      exact ⟨(c :: l) :: ls, last, by simp [joined],
        List.forall_mem_cons.2 ⟨by simp [hc, hl], hls⟩, hlast⟩

variable {whole : List (List Char)} {last : List Char}

/-- Characters of the same line move the column. -/
theorem positionAfter_append_of_notMem (front : List Char) (hlast : '\n' ∉ last) :
    positionAfter (front ++ last) =
      ((positionAfter front).1, (positionAfter front).2 + last.length) := by
  have hmem : ∀ c ∈ last.reverse, (c != '\n') = true := fun c hc => by
    rw [bne_iff_ne]
    rintro rfl
    exact hlast (List.mem_reverse.1 hc)
  rw [positionAfter, List.count_append, List.count_eq_zero.2 hlast, List.reverse_append,
    List.takeWhile_append_of_pos hmem, List.length_append, List.length_reverse, positionAfter,
    Nat.add_zero, Prod.mk.injEq]
  exact ⟨rfl, by omega⟩

/-- Behind whole lines a new one starts. -/
theorem positionAfter_joined (hwhole : ∀ l ∈ whole, '\n' ∉ l) :
    positionAfter (joined whole) = (whole.length + 1, 1) := by
  have hcount : (joined whole).count '\n' = whole.length := by
    induction whole with
    | nil => rfl
    | cons l ls ih =>
      obtain ⟨hl, hls⟩ := List.forall_mem_cons.1 hwhole
      rw [joined, List.flatMap_cons, List.count_append, List.count_append, ← joined, ih hls,
        List.count_eq_zero.2 hl, List.length_cons]
      exact Nat.add_comm 1 _
  have hrest : (joined whole).reverse.takeWhile (· != '\n') = [] := by
    rcases List.eq_nil_or_concat whole with rfl | ⟨ls, l, rfl⟩
    · rfl
    · simp [joined]
  rw [positionAfter, hcount, hrest]
  rfl

theorem splitOn_joined (hwhole : ∀ l ∈ whole, '\n' ∉ l) (t : List Char) :
    (joined whole ++ t).splitOn '\n' = whole ++ t.splitOn '\n' := by
  induction whole with
  | nil => rfl
  | cons l ls ih =>
    obtain ⟨hl, hls⟩ := List.forall_mem_cons.1 hwhole
    have htext : joined (l :: ls) ++ t = l ++ '\n' :: (joined ls ++ t) := by simp [joined]
    rw [htext, List.splitOn_append_cons_self_of_not_mem hl, ih hls, List.cons_append]

/-- What goes on behind the beginning of a line goes on in its first line. -/
theorem splitOn_of_notMem (hlast : '\n' ∉ last) (back : List Char) :
    ∃ more ls, (last ++ back).splitOn '\n' = (last ++ more) :: ls := by
  induction last with
  | nil =>
    obtain ⟨more, ls, h⟩ := List.exists_cons_of_ne_nil (List.splitOn_ne_nil '\n' back)
    exact ⟨more, ls, h⟩
  | cons c cs ih =>
    obtain ⟨hc, hcs⟩ := not_or.1 (fun h => hlast (List.mem_cons.2 h))
    obtain ⟨more, ls, h⟩ := ih hcs
    refine ⟨more, ls, ?_⟩
    rw [List.cons_append, List.splitOn_cons_eq_if_modifyHead, if_neg (by simpa using Ne.symm hc), h]
    rfl

/-- The line and the column of a boundary, and the offset they stand for. -/
theorem position_of_isBoundary {offset : Nat} (h : IsBoundary s.content offset) :
    ∃ l c line, s.position offset = (l + 1, c + 1) ∧ s.lines[l]? = some line ∧ c ≤ line.length ∧
      offset = s.lineStart (l + 1) + byteLength (line.take c) := by
  obtain ⟨front, back, htext, rfl⟩ := exists_append_of_isBoundary h
  obtain ⟨whole, last, rfl, hwhole, hlast⟩ := exists_joined front
  obtain ⟨more, ls, hls⟩ := splitOn_of_notMem hlast back
  have hlines : s.lines = whole ++ (last ++ more) :: ls := by
    rw [lines, htext, List.append_assoc, splitOn_joined hwhole, hls]
  refine ⟨whole.length, last.length, last ++ more, ?_, ?_, ?_, ?_⟩
  · rw [position_of_append htext, positionAfter_append_of_notMem _ hlast,
      positionAfter_joined hwhole, Nat.add_comm 1]
  · rw [hlines, List.getElem?_append_right (Nat.le_refl _), Nat.sub_self]
    rfl
  · rw [List.length_append]
    exact Nat.le_add_right _ _
  · rw [lineStart, Nat.add_sub_cancel, hlines, List.take_left, List.take_left, byteLength_append]

/-! ## Order -/

/-- More characters lead to a later line, or to a later column of the same line. -/
theorem positionAfter_lt (front : List Char) {mid : List Char} (hmid : mid ≠ []) :
    Prod.Lex (· < ·) (· < ·) (positionAfter front) (positionAfter (front ++ mid)) := by
  rw [Prod.lex_def]
  by_cases hfeed : '\n' ∈ mid
  · have := List.count_pos_iff.2 hfeed
    refine .inl ?_
    simp only [positionAfter, List.count_append]
    omega
  · have := List.length_pos_iff.2 hmid
    rw [positionAfter_append_of_notMem front hfeed]
    exact .inr ⟨rfl, by omega⟩

theorem position_lt {o o' : Nat} (h : IsBoundary s.content o) (h' : IsBoundary s.content o')
    (hlt : o < o') : Prod.Lex (· < ·) (· < ·) (s.position o) (s.position o') := by
  obtain ⟨front, back, htext, rfl⟩ := exists_append_of_isBoundary h
  obtain ⟨front', back', htext', rfl⟩ := exists_append_of_isBoundary h'
  rw [position_of_append htext, position_of_append htext']
  rcases List.append_eq_append_iff.1 (htext.symm.trans htext') with ⟨mid, rfl, -⟩ | ⟨mid, rfl, -⟩
  · refine positionAfter_lt front ?_
    rintro rfl
    simp at hlt
  · rw [byteLength_append] at hlt
    omega

theorem position_ne {o o' : Nat} (h : IsBoundary s.content o) (h' : IsBoundary s.content o')
    (hlt : o < o') : s.position o ≠ s.position o' := by
  intro heq
  have hlex := Prod.lex_def.1 (position_lt h h' hlt)
  rw [heq] at hlex
  omega

/-- Line and column identify an offset. At a boundary the line is one of the content, and the offset is
where it starts and the bytes of as many of its characters as stand before the column. So no two
boundaries have one position, and a later boundary has a later line, or the same line and a later
column. All offsets past the end have the position of the end. -/
theorem position_identifies (s : Source) :
    (∀ o, IsBoundary s.content o → ∃ line,
      1 ≤ (s.position o).1 ∧ (s.position o).1 ≤ s.lines.length ∧
      s.lines[(s.position o).1 - 1]? = some line ∧
      1 ≤ (s.position o).2 ∧ (s.position o).2 - 1 ≤ line.length ∧
      o = s.lineStart (s.position o).1 + byteLength (line.take ((s.position o).2 - 1))) ∧
    (∀ o o', IsBoundary s.content o → IsBoundary s.content o' →
      (s.position o = s.position o' → o = o') ∧
      (o < o' → Prod.Lex (· < ·) (· < ·) (s.position o) (s.position o'))) ∧
    (∀ o, s.content.utf8ByteSize < o → s.position o = s.position s.content.utf8ByteSize) := by
  refine ⟨fun o h => ?_, fun o o' h h' => ⟨fun heq => ?_, position_lt h h'⟩, fun o h => ?_⟩
  · obtain ⟨l, c, line, hposition, hline, hc, hoffset⟩ := position_of_isBoundary h
    have hl := (List.getElem?_eq_some_iff.1 hline).1
    rw [hposition]
    exact ⟨line, Nat.le_add_left _ _, hl, hline, Nat.le_add_left _ _, hc, hoffset⟩
  · rcases Nat.lt_trichotomy o o' with hlt | rfl | hlt
    · exact absurd heq (position_ne h h' hlt)
    · rfl
    · exact absurd heq.symm (position_ne h' h hlt)
  · rw [position_of_size_le (Nat.le_of_lt h), position_of_size_le (Nat.le_refl _)]

/-- A character of four bytes behind one of two bytes and an empty line. -/
theorem position_identifies_wide : let s : Source := ⟨"a.swift", "é\n\n💡b"⟩
    IsBoundary s.content 3 ∧ IsBoundary s.content 8 ∧ s.position 8 = (3, 2) ∧
      (∃ line, s.lines[2]? = some line ∧ 8 = s.lineStart 3 + byteLength (line.take 1)) ∧
      Prod.Lex (· < ·) (· < ·) (s.position 3) (s.position 8) ∧ s.position 12 = s.position 9 := by
  intro s
  have h3 : IsBoundary s.content 3 := ⟨"é\n", "\n💡b", rfl, by decide⟩
  have h8 : IsBoundary s.content 8 := ⟨"é\n\n💡", "b", rfl, by decide⟩
  have hposition : s.position 8 = (3, 2) := by decide +kernel
  obtain ⟨hstands, hdistinct, hpast⟩ := position_identifies s
  obtain ⟨line, -, -, hline, -, -, hoffset⟩ := hstands 8 h8
  rw [hposition] at hline hoffset
  exact ⟨h3, h8, hposition, ⟨line, hline, hoffset⟩, (hdistinct 3 8 h3 h8).2 (by decide),
    hpast 12 (by decide +kernel)⟩

end Source

end SwiftMacro
