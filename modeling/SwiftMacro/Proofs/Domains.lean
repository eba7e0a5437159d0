import SwiftMacro.Url.Host
/-!
# Characters that no host contains

A host is decoded, mapped and composed before its characters are checked. Nothing of that touches `@`
and `:`. Neither is part of a quoted byte, no table lists them (`Unlisted`), and so a name that has one
of them still has it in its normal form, where it is refused (`Host.not_mem_of_ofDomain`).
-/

namespace SwiftMacro

namespace Unicode

/-! ## What the tables list -/

/-- A table is spelled by the characters of its lines. -/
theorem spelled_cons {line : List Char} {lines : List (List Char)} {table : List String}
    (h : table = lines.map String.ofList) :
    String.ofList line :: table = (line :: lines).map String.ofList := by
  rw [h, List.map_cons]

/-- The runs of a table are known by the characters of its lines. -/
theorem Run.forall_mem_table {P : Run → Bool} {lines : List (List Char)} {table : List String}
    (hlines : table = lines.map String.ofList)
    (h : (lines.all fun line => (Text.splitOn ' ' line).all fun word => P (parse word)) = true) :
    ∀ run ∈ Run.table table, P run = true := by
  intro run hrun
  simp only [hlines, Run.table, List.mem_toArray, List.mem_flatMap, List.mem_map] at hrun
  obtain ⟨_, ⟨line, hline, rfl⟩, word, hword, rfl⟩ := hrun
  rw [String.toList_ofList] at hword
  exact List.all_eq_true.1 (List.all_eq_true.1 h line hline) word hword

/-- Whether a run starts behind the signs and digits of ASCII. -/
def Run.isLate (run : Run) : Bool := Nat.blt 0x40 run.first

theorem isLate_of_mapping : ∀ run ∈ mappingRuns, run.isLate = true := by
  -- The lines become lists of characters first: a string literal would be encoded and decoded again.
  apply Run.forall_mem_table
  · unfold mappingTable
    repeat apply spelled_cons
    exact List.map_nil.symm
  · decide +kernel

theorem isLate_of_refused : ∀ run ∈ refusedRuns, run.isLate = true := by
  apply Run.forall_mem_table
  · unfold refusedTable
    repeat apply spelled_cons
    exact List.map_nil.symm
  · decide +kernel

/-- Nothing is composed of `@` or `:` either. -/
theorem isLate_of_decomposition : ∀ run ∈ decompositionRuns,
    (run.isLate && !run.values.contains 0x40 && !run.values.contains 0x3a) = true := by
  apply Run.forall_mem_table
  · unfold decompositionTable
    repeat apply spelled_cons
    exact List.map_nil.symm
  · decide +kernel

theorem Run.lookup?_eq_none {runs : Array Run} {c : Char} (hruns : ∀ run ∈ runs, run.isLate = true)
    (hc : c.toNat ≤ 0x40) : lookup? runs c = none := by
  refine Array.find?_eq_none.2 fun run hrun hcontains => ?_
  have hlate : 0x40 < run.first := by simpa [isLate, Nat.blt_eq] using hruns run hrun
  have hfirst : run.first ≤ c.toNat := by
    simp only [contains, Bool.and_eq_true, decide_eq_true_eq] at hcontains
    exact hcontains.1.1
  omega

theorem mapWith_eq_self {replaced refused : Array Run} {c : Char} (hr : Run.lookup? replaced c = none)
    (hf : Run.lookup? refused c = none) : mapWith replaced refused c = some [c] := by
  simp [mapWith, hr, hf]

/-- A character that stands for itself and is part of no other one. -/
structure Unlisted (c : Char) : Prop where
  mapped : mapChar? c = some [c]
  decomposed : decompose c = [c]
  first : ∀ d, compose? c d = none
  second : ∀ d, compose? d c = none

theorem decompose_eq {c : Char} (hc : c.toNat ≤ 0x40) : decompose c = [c] := by
  have hruns : ∀ run ∈ decompositionRuns, run.isLate = true := fun run hrun => by
    have hall := isLate_of_decomposition run hrun
    simp only [Bool.and_eq_true] at hall
    exact hall.1.1
  have hbase : ¬ Hangul.syllableBase ≤ c.toNat := by
    unfold Hangul.syllableBase
    omega
  have hhangul : Hangul.decompose? c = none := if_neg (by simp [hbase])
  rw [decompose, hhangul, Run.lookup?_eq_none hruns hc]

theorem Hangul.compose?_eq_none {a b : Char} (h : a.toNat ≤ 0x40 ∨ b.toNat ≤ 0x40) :
    compose? a b = none := by
  have hbases : leadBase = 0x1100 ∧ vowelBase = 0x1161 ∧ trailBase = 0x11a7 ∧ syllableBase = 0xac00 :=
    ⟨rfl, rfl, rfl, rfl⟩
  unfold compose?
  grind

/-- No decomposition has a part that the table of decompositions does not list. -/
theorem compose?_eq_none {a b c : Char} (hc : c = '@' ∨ c = ':') (hpart : c ∈ decompose a ++ decompose b)
    (hhangul : Hangul.compose? a b = none) : compose? a b = none := by
  rw [compose?, hhangul]
  refine Option.map_eq_none_iff.2 (Array.find?_eq_none.2 fun run hrun heq => ?_)
  have hmem : c.toNat ∈ run.values := by
    rw [beq_iff_eq.1 heq]
    exact List.mem_map_of_mem hpart
  have hall := isLate_of_decomposition run hrun
  simp only [Bool.and_eq_true, Bool.not_eq_true', List.contains_eq_mem, decide_eq_false_iff_not] at hall
  rcases hc with rfl | rfl
  · exact hall.1.2 hmem
  · exact hall.2 hmem

theorem unlisted {c : Char} (hc : c = '@' ∨ c = ':') : Unlisted c := by
  have hle : c.toNat ≤ 0x40 := by rcases hc with rfl | rfl <;> decide
  have hself : c ∈ decompose c := by
    rw [decompose_eq hle]
    exact List.mem_singleton_self c
  refine ⟨?_, decompose_eq hle, fun d => ?_, fun d => ?_⟩
  · exact mapWith_eq_self (Run.lookup?_eq_none isLate_of_mapping hle)
      (Run.lookup?_eq_none isLate_of_refused hle)
  · exact compose?_eq_none hc (List.mem_append_left _ hself) (Hangul.compose?_eq_none (.inl hle))
  · exact compose?_eq_none hc (List.mem_append_right _ hself) (Hangul.compose?_eq_none (.inr hle))

/-! ## Composing -/

section

variable {classOf : Char → Nat} {pair? : Char → Char → Option Char} {c : Char}

theorem mem_insertMark {d : Char} {marks : List Char} :
    c ∈ insertMark classOf d marks ↔ c = d ∨ c ∈ marks := by
  induction marks with
  | nil => simp [insertMark]
  | cons e marks ih =>
    rw [insertMark]
    split
    · simp only [List.mem_cons, ih]
      exact or_left_comm
    · simp

theorem mem_reorder {marks s : List Char} : c ∈ reorder classOf marks s ↔ c ∈ marks ∨ c ∈ s := by
  induction s generalizing marks with
  | nil => simp [reorder]
  | cons d s ih =>
    rw [reorder]
    split
    · simp [ih]
    · rw [ih, mem_insertMark, List.mem_cons, or_comm (a := c = d), or_assoc]

/-- A character that composes with no other one is still there when all others are composed. -/
theorem mem_composeFrom (hc : ∀ d, pair? c d = none ∧ pair? d c = none) {starter : Char}
    {behind s : List Char} (h : c ∈ starter :: behind ++ s) :
    c ∈ composeFrom classOf pair? starter behind s := by
  induction s generalizing starter behind with
  | nil => simpa [composeFrom] using h
  | cons d s ih =>
    unfold composeFrom
    dsimp only
    split
    next composed hcomposed =>
      -- Neither of the two that are composed is `c`.
      have hsome : pair? starter d = some composed := (Option.ite_none_left_eq_some.1 hcomposed).2
      have hstarter : c ≠ starter := by
        rintro rfl
        rw [(hc d).1] at hsome
        cases hsome
      have hd : c ≠ d := by
        rintro rfl
        rw [(hc starter).2] at hsome
        cases hsome
      refine ih ?_
      simp only [List.cons_append, List.mem_cons, List.mem_append, hstarter, hd, false_or] at h ⊢
      exact .inr h
    next =>
      split
      · rw [List.mem_append]
        rcases List.mem_append.1 h with h | h
        · exact .inl (by simpa using h)
        · exact .inr (ih h)
      · refine ih ?_
        simp only [List.cons_append, List.mem_cons, List.mem_append] at h ⊢
        grind

theorem mem_composeAll (hc : ∀ d, pair? c d = none ∧ pair? d c = none) {s : List Char} (h : c ∈ s) :
    c ∈ composeAll classOf pair? s := by
  induction s with
  | nil => exact h
  | cons d s ih =>
    rw [composeAll]
    split
    · exact mem_composeFrom hc h
    · rcases List.mem_cons.1 h with rfl | h
      · exact List.mem_cons_self
      · exact List.mem_cons_of_mem _ (ih h)

theorem Unlisted.mem_normalizeC (hc : Unlisted c) {s : List Char} (h : c ∈ s) : c ∈ normalizeC s := by
  have hparts : c ∈ s.flatMap decompose := List.mem_flatMap.2 ⟨c, h, by simp [hc.decomposed]⟩
  exact mem_composeAll (fun d => ⟨hc.first d, hc.second d⟩) (mem_reorder.2 (.inr hparts))

end

end Unicode

/-! ## Domain names -/

theorem mem_of_mapM {α β : Type} {f : α → Option β} {items : List α} {results : List β} {a : α} {b : β}
    (h : items.mapM f = some results) (ha : a ∈ items) (hb : f a = some b) : b ∈ results := by
  induction items generalizing results with
  | nil => cases ha
  | cons x items ih =>
    rw [List.mapM_cons] at h
    obtain ⟨y, hy, h⟩ := Option.bind_eq_some_iff.1 h
    obtain ⟨rest, hrest, h⟩ := Option.bind_eq_some_iff.1 h
    obtain rfl : y :: rest = results := Option.some.inj h
    rcases List.mem_cons.1 ha with rfl | ha
    · obtain rfl : y = b := Option.some.inj (hy.symm.trans hb)
      exact List.mem_cons_self
    · exact List.mem_cons_of_mem _ (ih hrest ha)

/-- A name is refused for a forbidden character that nothing changes. -/
theorem Domain.normalize?_eq_none {c : Char} {name : List Char} (hc : Unicode.Unlisted c)
    (hforbidden : isForbidden c = true) (h : c ∈ name) : normalize? name = none := by
  rw [normalize?, labels?]
  cases hmapped : name.mapM Unicode.mapChar? with
  | none => rfl
  | some mapped =>
    have hmem : c ∈ mapped.flatten :=
      List.mem_flatten.2 ⟨[c], mem_of_mapM hmapped h hc.mapped, List.mem_singleton_self c⟩
    have hany : (Unicode.normalizeC mapped.flatten).any isForbidden = true :=
      List.any_eq_true.2 ⟨c, hc.mem_normalizeC hmem, hforbidden⟩
    simp [hany]

/-! ## Quoted bytes -/

namespace Host

variable {c : Char} {s t : List Char}

/-- A byte that is no part of a quoted one stands for itself. -/
theorem mem_percentDecode {b : UInt8} {bytes : List UInt8} (hpercent : b ≠ 0x25)
    (hdigit : Text.hexDigit? (Char.ofNat b.toNat) = none) (h : b ∈ bytes) : b ∈ percentDecode bytes := by
  fun_induction percentDecode bytes with
  | case1 => exact h
  | case2 x y rest byte hbyte ih =>
    have hx : b ≠ x := by
      rintro rfl
      simp [byte?, hdigit] at hbyte
    have hy : b ≠ y := by
      rintro rfl
      simp [byte?, hdigit] at hbyte
    simp only [List.mem_cons, hpercent, hx, hy, false_or] at h
    exact List.mem_cons_of_mem _ (ih h)
  | case3 _ _ _ _ ih | case4 _ _ _ _ _ ih | case5 _ _ _ ih =>
    exact List.mem_cons.2 ((List.mem_cons.1 h).imp_right ih)

theorem toList_eq_data_toList (bytes : ByteArray) : bytes.toList = bytes.data.toList := by
  have hloop : ∀ i r, ByteArray.toList.loop bytes i r = r.reverse ++ bytes.data.toList.drop i := by
    intro i r
    fun_induction ByteArray.toList.loop bytes i r with
    | case1 i r hi ih =>
      have hdrop : bytes.data.toList.drop i = bytes.get! i :: bytes.data.toList.drop (i + 1) := by
        rw [List.drop_eq_getElem_cons hi]
        exact congrArg (· :: _) (getElem!_pos bytes.data i hi).symm
      rw [ih, hdrop, List.reverse_cons, List.append_assoc, List.singleton_append]
    | case2 i r hi =>
      have hdrop : bytes.data.toList.drop i = [] := List.drop_eq_nil_of_le (Nat.le_of_not_lt hi)
      rw [hdrop, List.append_nil]
  exact hloop 0 []

/-- The only character whose encoding has an ASCII byte is the one with that byte. -/
theorem eq_of_mem_utf8EncodeChar {b : UInt8} {d : Char} (hb : b.toNat < 128)
    (h : b ∈ String.utf8EncodeChar d) : d.toNat = b.toNat := by
  have hlarge : ∀ n, 128 ≤ n → n < 256 → b ≠ UInt8.ofNat n := by
    rintro n hn hlt rfl
    rw [UInt8.toNat_ofNat_of_lt' hlt] at hb
    omega
  unfold String.utf8EncodeChar at h
  dsimp only at h
  split at h
  next hd =>
    rw [List.mem_singleton.1 h]
    exact (UInt8.toNat_ofNat_of_lt' (Nat.lt_of_le_of_lt hd (by decide))).symm
  next =>
    grind

/-- An ASCII character that is part of no quoted byte is still there when those are decoded. -/
theorem mem_of_unquote? (hascii : c.toNat < 128) (hpercent : c ≠ '%') (hdigit : Text.hexDigit? c = none)
    (h : unquote? s = some t) (hc : c ∈ s) : c ∈ t := by
  have hbyte : (UInt8.ofNat c.toNat).toNat = c.toNat :=
    UInt8.toNat_ofNat_of_lt' (Nat.lt_trans hascii (by decide))
  have hmem : UInt8.ofNat c.toNat ∈ (String.ofList s).toUTF8.toList := by
    have hencode : String.utf8EncodeChar c = [UInt8.ofNat c.toNat] := if_pos (Nat.le_of_lt_succ hascii)
    rw [toList_eq_data_toList, String.toUTF8, String.toByteArray_ofList, List.utf8Encode,
      List.data_toByteArray]
    exact List.mem_flatMap.2 ⟨c, hc, by simp [hencode]⟩
  have hquoted : UInt8.ofNat c.toNat ∈ percentDecode (String.ofList s).toUTF8.toList := by
    refine mem_percentDecode (fun heq => hpercent ?_) ?_ hmem
    · have hnat : c.toNat = '%'.toNat := hbyte.symm.trans (congrArg UInt8.toNat heq)
      rw [← Char.ofNat_toNat c, hnat, Char.ofNat_toNat]
    · rwa [hbyte, Char.ofNat_toNat]
  obtain ⟨text, htext, rfl⟩ := Option.map_eq_some_iff.1 h
  have hbytes : text.toByteArray.data.toList = percentDecode (String.ofList s).toUTF8.toList := by
    unfold String.fromUTF8? at htext
    split at htext
    · rw [← Option.some.inj htext]
      rfl
    · cases htext
  rw [← String.utf8Encode_toList, List.utf8Encode, List.data_toByteArray] at hbytes
  obtain ⟨d, hd, hmem⟩ := List.mem_flatMap.1 (hbytes ▸ hquoted)
  have hd' : d.toNat = c.toNat := (eq_of_mem_utf8EncodeChar (hbyte.symm ▸ hascii) hmem).trans hbyte
  rwa [← Char.ofNat_toNat c, ← hd', Char.ofNat_toNat]

end Host

/-! ## Addresses -/

theorem Text.mem_splitOn {separator c : Char} {s : List Char} (hc : c ∈ s) (hne : c ≠ separator) :
    ∃ part ∈ splitOn separator s, c ∈ part := by
  fun_induction splitOn separator s with
  | case1 => cases hc
  | case2 _ ih =>
    obtain ⟨part, hpart, hmem⟩ := ih ((List.mem_cons.1 hc).resolve_left hne)
    exact ⟨part, List.mem_cons_of_mem _ hpart, hmem⟩
  | case3 x cs _ hnone ih =>
    rcases List.mem_cons.1 hc with rfl | hc
    · exact ⟨[c], List.mem_singleton_self _, List.mem_singleton_self _⟩
    · obtain ⟨part, hpart, -⟩ := ih hc
      rw [hnone] at hpart
      cases hpart
  | case4 x cs _ first rest hparts ih =>
    rcases List.mem_cons.1 hc with rfl | hc
    · exact ⟨c :: first, List.mem_cons_self, List.mem_cons_self⟩
    · obtain ⟨part, hpart, hmem⟩ := ih hc
      rw [hparts] at hpart
      rcases List.mem_cons.1 hpart with rfl | hpart
      · exact ⟨x :: part, List.mem_cons_self, List.mem_cons_of_mem _ hmem⟩
      · exact ⟨part, List.mem_cons_of_mem _ hpart, hmem⟩

namespace Ipv6

theorem eq_of_splitDouble {s front back : List Char} (h : splitDouble s = some (front, back)) :
    s = front ++ ':' :: ':' :: back := by
  fun_induction splitDouble s generalizing front with
  | case1 => cases h
  | case2 =>
    cases h
    rfl
  | case3 c rest _ ih =>
    obtain ⟨⟨front', back'⟩, hrest, heq⟩ := Option.map_eq_some_iff.1 h
    cases heq
    rw [ih hrest, List.cons_append]

theorem not_mem_of_isPiece {part : List Char} (h : isPiece part = true) : '@' ∉ part := by
  intro hmem
  simp only [isPiece, Bool.and_eq_true] at h
  exact absurd (List.all_eq_true.1 h.2 _ hmem) (by decide)

theorem not_mem_of_isDotted {s : List Char} (h : isDotted s = true) : '@' ∉ s := by
  intro hmem
  obtain ⟨part, hpart, hat⟩ : ∃ part ∈ Text.splitOn '.' s, '@' ∈ part :=
    Text.mem_splitOn hmem (by decide)
  simp only [isDotted, isOctet, Bool.and_eq_true, List.all_eq_true] at h
  exact absurd ((h.2 part hpart).1.1.1.2 _ hat) (by decide)

theorem not_mem_of_pieces? {last : Bool} {s : List Char} {n : Nat} (h : pieces? last s = some n) :
    '@' ∉ s := by
  intro hmem
  obtain ⟨part, hpart, hat⟩ : ∃ part ∈ Text.splitOn ':' s, '@' ∈ part :=
    Text.mem_splitOn hmem (by decide)
  have hpieces : ∀ parts : List (List Char), parts.all isPiece = true → part ∉ parts :=
    fun parts hall hp => not_mem_of_isPiece (List.all_eq_true.1 hall part hp) hat
  unfold pieces? at h
  split at h
  next hempty =>
    rw [List.isEmpty_iff.1 hempty] at hmem
    cases hmem
  next =>
    simp only at h
    split at h
    next hall => exact hpieces _ hall hpart
    next =>
      split at h
      next hlast =>
        simp only [Bool.and_eq_true] at hlast
        obtain ⟨⟨-, hfront⟩, hdotted⟩ := hlast
        rcases List.eq_nil_or_concat (Text.splitOn ':' s) with hnil | ⟨front, dotted, hparts⟩
        · rw [hnil] at hpart
          cases hpart
        · simp only [hparts, List.concat_eq_append, List.dropLast_concat, List.getLastD_concat] at *
          rcases List.mem_append.1 hpart with hpart | hpart
          · exact hpieces _ hfront hpart
          · rw [List.mem_singleton.1 hpart] at hat
            exact not_mem_of_isDotted hdotted hat
      next => cases h

theorem not_mem_of_isAddress {s : List Char} (h : isAddress s = true) : '@' ∉ s := by
  unfold isAddress at h
  split at h
  next => exact not_mem_of_pieces? (beq_iff_eq.1 h)
  next front back hsplit =>
    split at h
    next hfront hback =>
      rw [eq_of_splitDouble hsplit]
      simp [not_mem_of_pieces? hfront, not_mem_of_pieces? hback]
    next => cases h

end Ipv6

namespace Host

theorem not_mem_of_ofBrackets {s : List Char} {host : Host} (h : ofBrackets s = .ok host) : '@' ∉ s := by
  unfold ofBrackets at h
  split at h
  next hs =>
    simp only [Bool.and_eq_true, decide_eq_true_eq] at hs
    obtain ⟨front, rfl⟩ := List.getLast?_eq_some_iff.1 hs.1
    rw [List.dropLast_concat] at hs
    simpa using Ipv6.not_mem_of_isAddress hs.2
  next => cases h

theorem not_mem_of_ofDomain {c : Char} {s : List Char} {host : Host} (hc : c = '@' ∨ c = ':')
    (hs : bracketed? s = none) (h : ofDomain s = .ok host) : c ∉ s := by
  intro hmem
  have hchar : c.toNat < 128 ∧ c ≠ '%' ∧ Text.hexDigit? c = none ∧ Domain.isForbidden c = true := by
    rcases hc with rfl | rfl <;> decide
  obtain ⟨hascii, hpercent, hdigit, hforbidden⟩ := hchar
  have hnone : (unquote? s).bind Domain.normalize? = none := by
    cases hunquoted : unquote? s with
    | none => rfl
    | some name =>
      have hname := mem_of_unquote? hascii hpercent hdigit hunquoted hmem
      exact Domain.normalize?_eq_none (Unicode.unlisted hc) hforbidden hname
  rw [ofDomain, hs] at h
  simp only [hnone] at h
  cases h

/-- The place of a host names no user, and has something in front of its first colon. -/
theorem free_of_ofDomain {s : List Char} {host : Host} (h : ofDomain s = .ok host) :
    '@' ∉ s ∧ s.head? ≠ some ':' := by
  cases hs : bracketed? s with
  | none =>
    exact ⟨not_mem_of_ofDomain (.inl rfl) hs h,
      fun hcolon => not_mem_of_ofDomain (.inr rfl) hs h (List.mem_of_mem_head? hcolon)⟩
  | some rest =>
    rw [ofDomain, hs] at h
    obtain rfl : s = '[' :: rest := by
      unfold bracketed? at hs
      split at hs <;> cases hs
      rfl
    have hrest := not_mem_of_ofBrackets h
    exact ⟨by simpa using hrest, by simp⟩

end Host
end SwiftMacro
