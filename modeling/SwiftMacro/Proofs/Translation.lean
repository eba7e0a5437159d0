import SwiftMacro.Proofs.Cutting
import SwiftMacro.Proofs.Entries
import SwiftMacro.Proofs.Placement
/-!
# Trivia in front of a text

Trivia that is complete in itself is skipped as a whole, whatever text it is put in front of
(`Trivia.split_append_of_complete`). So an entry reads the same nodes behind it, moved by its length
(`read_behind_trivia`).
-/

namespace SwiftMacro

namespace Trivia

/-- A piece of trivia that ends by itself: a blank, a line comment with its line feed, or a block
comment with its end. -/
inductive IsPiece : List Char → Prop where
  | blank {c : Char} (h : isBlank c = true) : IsPiece [c]
  | line {body : List Char} (h : '\n' ∉ body) : IsPiece ('/' :: '/' :: (body ++ ['\n']))
  | block {body : List Char} (h : ¬ ['*', '/'] <:+: body) :
      IsPiece ('/' :: '*' :: (body ++ ['*', '/']))

/-- Such pieces, one after the other. -/
def Complete (w : List Char) : Prop :=
  ∃ pieces : List (List Char), (∀ piece ∈ pieces, IsPiece piece) ∧ w = pieces.flatten

/-- A block comment ends where its end is first written. -/
theorem splitBlock_of_not_infix {body : List Char} (h : ¬ ['*', '/'] <:+: body) (t : List Char) :
    splitBlock (body ++ '*' :: '/' :: t) = some (body ++ ['*', '/'], t) := by
  induction body with
  | nil => rfl
  | cons c body ih =>
    rw [List.cons_append, splitBlock, ih fun hinfix => h (List.infix_cons hinfix)]
    · rfl
    · rintro rest rfl hrest
      cases body with
      | nil => cases hrest
      | cons d body =>
        obtain ⟨rfl, -⟩ := List.cons.inj hrest
        exact h ⟨[], body, rfl⟩

theorem split_append_of_isPiece {piece : List Char} (h : IsPiece piece) (t : List Char) :
    split (piece ++ t) = (piece ++ (split t).1, (split t).2) := by
  have hblank : ∀ {c : Char}, isBlank c = true → ∀ s, first (c :: s) = some ([c], s) :=
    fun {c} hc s => first_eq_some_iff.2 (.inr (.inr ⟨c, rfl, hc, rfl⟩))
  cases h with
  | blank hc => exact split_of_first (hblank hc t)
  | @line body hbody =>
    obtain ⟨htake, hdrop⟩ := takeWhile_dropWhile_append (p := (· != '\n')) (w := body) (t := '\n' :: t)
      (fun c hc => bne_iff_ne.2 fun heq => hbody (heq ▸ hc)) fun c hc => by
        obtain rfl := Option.some.inj hc
        rfl
    have hfirst : first ('/' :: '/' :: (body ++ '\n' :: t)) = some ('/' :: '/' :: body, '\n' :: t) :=
      first_eq_some_iff.2 (.inl ⟨_, rfl, by rw [htake], by rw [hdrop]⟩)
    -- The line feed is a piece of its own.
    rw [List.cons_append, List.cons_append, List.append_assoc, List.singleton_append,
      split_of_first hfirst, split_of_first (hblank rfl t)]
    simp
  | @block body hbody =>
    have hfirst : first ('/' :: '*' :: (body ++ '*' :: '/' :: t)) =
        some ('/' :: '*' :: (body ++ ['*', '/']), t) :=
      first_eq_some_iff.2 (.inr (.inl ⟨_, _, rfl, splitBlock_of_not_infix hbody t, rfl⟩))
    rw [List.cons_append, List.cons_append, List.append_assoc, List.cons_append, List.singleton_append,
      split_of_first hfirst]

theorem split_append_of_complete {w : List Char} (h : Complete w) (t : List Char) :
    split (w ++ t) = (w ++ (split t).1, (split t).2) := by
  obtain ⟨pieces, hpieces, rfl⟩ := h
  induction pieces with
  | nil => rfl
  | cons piece pieces ih =>
    have hrest := ih fun p hp => hpieces p (List.mem_cons_of_mem _ hp)
    rw [List.flatten_cons, List.append_assoc,
      split_append_of_isPiece (hpieces piece List.mem_cons_self), hrest, List.append_assoc]

end Trivia

section

variable {w : List Char} (hw : Trivia.Complete w) (t : List Char)

include hw

theorem after_append_of_complete : after .spaced (w ++ t) = after .spaced t := by
  rw [after_spaced, after_spaced, Trivia.split_append_of_complete hw]

theorem blankLength_append_of_complete : blankLength (w ++ t) = blankLength t + byteLength w := by
  rw [blankLength, blankLength, Trivia.split_append_of_complete hw, byteLength_append, Nat.add_comm]

theorem readChars_behind_trivia {entry : Entry} {nodes : List Node} :
    readChars entry (w ++ t) = .ok nodes ↔
      ∃ plain, readChars entry t = .ok plain ∧ nodes = plain.map (Node.shift (byteLength w)) := by
  have hcontent : ∀ {its y}, ReadsAt .spaced (blankLength (w ++ t)) entry.content (after .spaced (w ++ t))
      its y ↔ ∃ plain, ReadsAt .spaced (blankLength t) entry.content (after .spaced t) plain y ∧
        its = plain.map (Item.mapSpans (Span.shift (byteLength w))) := by
    intro its y
    rw [blankLength_append_of_complete hw, after_append_of_complete hw, readsAt_shift]
  constructor
  · intro h
    obtain ⟨its, y, hits, hy, rfl⟩ := readChars_eq_ok.1 h
    obtain ⟨plain, hplain, rfl⟩ := hcontent.1 hits
    exact ⟨_, readChars_eq_ok.2 ⟨plain, y, hplain, hy, rfl⟩, nodesOf_mapSpans _ _ _⟩
  · rintro ⟨_, h, rfl⟩
    obtain ⟨plain, y, hplain, hy, rfl⟩ := readChars_eq_ok.1 h
    exact readChars_eq_ok.2 ⟨_, y, hcontent.2 ⟨plain, hplain, rfl⟩, hy, (nodesOf_mapSpans _ _ _).symm⟩

end

/-- Behind trivia each entry reads what it reads without it, moved by the length of the trivia, and
nothing else. -/
theorem read_behind_trivia (entry : Entry) {w : String} (hw : Trivia.Complete w.toList) (t : String) :
    (∀ nodes, read entry (w ++ t) = .ok nodes ↔
      ∃ plain, read entry t = .ok plain ∧ nodes = plain.map (Node.shift w.utf8ByteSize)) ∧
    ∀ n, readOne entry (w ++ t) = .ok n ↔
      ∃ m, readOne entry t = .ok m ∧ n = m.shift w.utf8ByteSize := by
  have hread : ∀ nodes, read entry (w ++ t) = .ok nodes ↔
      ∃ plain, read entry t = .ok plain ∧ nodes = plain.map (Node.shift w.utf8ByteSize) := by
    intro nodes
    rw [read, String.toList_append, readChars_behind_trivia hw, byteLength_toList, read]
  refine ⟨hread, fun n => ?_⟩
  rw [readOne_eq_ok, hread]
  constructor
  · rintro ⟨plain, hplain, hmap⟩
    obtain ⟨m, rfl, hm⟩ := List.map_eq_singleton_iff.1 hmap.symm
    exact ⟨m, readOne_eq_ok.2 hplain, hm.symm⟩
  · rintro ⟨m, hm, rfl⟩
    exact ⟨[m], readOne_eq_ok.1 hm, rfl⟩

theorem read_behind_comments : Trivia.Complete " /* é **/// x\n".toList ∧ ∃ n,
    readExpression "f(x)" = .ok n ∧ readExpression (" /* é **/// x\n" ++ "f(x)") = .ok (n.shift 15) := by
  have hcomplete : Trivia.Complete " /* é **/// x\n".toList := by
    refine ⟨[[' '], '/' :: '*' :: (" é *".toList ++ ['*', '/']), '/' :: '/' :: (" x".toList ++ ['\n'])],
      ?_, rfl⟩
    intro piece hpiece
    simp only [List.mem_cons, List.not_mem_nil, or_false] at hpiece
    rcases hpiece with rfl | rfl | rfl
    · exact .blank rfl
    · exact .block (by decide)
    · exact .line (by decide)
  obtain ⟨n, hn, -⟩ := exists_of_okAnd
    (by decide +kernel : okAnd (readExpression "f(x)") (fun _ => true) = true)
  exact ⟨hcomplete, n, hn, ((read_behind_trivia .expression hcomplete "f(x)").2 _).2 ⟨n, hn, rfl⟩⟩

end SwiftMacro
