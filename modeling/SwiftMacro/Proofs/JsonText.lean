import SwiftMacro.Json
import SwiftMacro.Proofs.Words
/-!
# The text of JSON values

Two values never have the same text (`pretty_injective`), so a report says no more and no less than its
text. The lemmas before say this of what stands first in a text: strings end at their quote, numbers
where the digits end, and everything else shows its kind with its first character.
-/

namespace SwiftMacro.Json

variable {u v : List Char}

/-! ## Strings -/

/-- The characters with an escape of their own, and the letter that stands for each. -/
def escapes : List (Char × Char) :=
  [('"', '"'), ('\\', '\\'), ('\n', 'n'), ('\r', 'r'), ('\t', 't'), ('\x08', 'b'), ('\x0c', 'f')]

/-- A character is written with its escape, with its number or as it is. -/
theorem quoteChar_cases (c : Char) :
    (∃ x, (c, x) ∈ escapes ∧ (quoteChar c).toList = ['\\', x]) ∨
    (c.toNat < 0x20 ∧ (quoteChar c).toList = '\\' :: 'u' :: (fourDigits c.toNat).toList) ∨
    (c ≠ '\\' ∧ c ≠ '"' ∧ (quoteChar c).toList = [c]) := by
  by_cases hescape : ∃ x, (c, x) ∈ escapes
  · obtain ⟨x, hx⟩ := hescape
    refine .inl ⟨x, hx, ?_⟩
    simp only [escapes, List.mem_cons, Prod.mk.injEq, List.not_mem_nil, or_false] at hx
    rcases hx with ⟨rfl, rfl⟩ | ⟨rfl, rfl⟩ | ⟨rfl, rfl⟩ | ⟨rfl, rfl⟩ | ⟨rfl, rfl⟩ | ⟨rfl, rfl⟩ |
      ⟨rfl, rfl⟩ <;> rfl
  · have hother : ∀ p ∈ escapes, c ≠ p.1 := by
      rintro ⟨d, x⟩ hp rfl
      exact hescape ⟨x, hp⟩
    simp only [escapes, List.forall_mem_cons, List.not_mem_nil, false_implies, implies_true, and_true]
      at hother
    have hplain : quoteChar c = if c.toNat < 0x20 then "\\u" ++ fourDigits c.toNat else c.toString := by
      simp only [quoteChar, hother, if_false]
    by_cases hcontrol : c.toNat < 0x20
    · refine .inr (.inl ⟨hcontrol, ?_⟩)
      rw [hplain, if_pos hcontrol, String.toList_append]
      rfl
    · refine .inr (.inr ⟨hother.2.1, hother.1, ?_⟩)
      rw [hplain, if_neg hcontrol]
      simp

theorem fourDigits_append_inj {m n : Nat} (hm : m < 0x20) (hn : n < 0x20)
    (h : (fourDigits m).toList ++ u = (fourDigits n).toList ++ v) : m = n ∧ u = v := by
  have hdigits : ∀ k < 0x20, (fourDigits k).toList =
      ['0', '0', Nat.digitChar (k / 16), Nat.digitChar (k % 16)] := by decide +kernel
  have hdigit : ∀ i < 16, ∀ k < 16, Nat.digitChar i = Nat.digitChar k → i = k := by decide
  rw [hdigits m hm, hdigits n hn] at h
  simp only [List.cons_append, List.nil_append, List.cons.injEq, true_and] at h
  have hhigh : m / 16 = n / 16 := hdigit _ (by omega) _ (by omega) h.1
  have hlow : m % 16 = n % 16 := hdigit _ (by omega) _ (by omega) h.2.1
  exact ⟨by omega, h.2.2⟩

theorem quoteChar_append_inj {c d : Char} (h : (quoteChar c).toList ++ u = (quoteChar d).toList ++ v) :
    c = d ∧ u = v := by
  have hletters : ∀ p ∈ escapes, p.2 ≠ 'u' ∧ ∀ q ∈ escapes, p.2 = q.2 → p.1 = q.1 := by decide
  obtain ⟨x, hx, hc⟩ | ⟨hc', hc⟩ | ⟨hc', -, hc⟩ := quoteChar_cases c <;>
    obtain ⟨y, hy, hd⟩ | ⟨hd', hd⟩ | ⟨hd', -, hd⟩ := quoteChar_cases d <;>
      rw [hc, hd] at h <;> simp only [List.cons_append, List.nil_append, List.cons.injEq, true_and] at h
  · exact ⟨(hletters _ hx).2 _ hy h.1, h.2⟩
  · exact absurd h.1 (hletters _ hx).1
  · exact absurd h.1.symm hd'
  · exact absurd h.1.symm (hletters _ hy).1
  · obtain ⟨hsame, hrest⟩ := fourDigits_append_inj hc' hd' h
    exact ⟨Char.toNat_inj.1 hsame, hrest⟩
  · exact absurd h.1.symm hd'
  · exact absurd h.1 hc'
  · exact absurd h.1 hc'
  · exact h

/-- No character of a string is written so that it starts with a quote. -/
theorem quoteChar_eq_cons (c : Char) : ∃ x t, (quoteChar c).toList = x :: t ∧ x ≠ '"' := by
  obtain ⟨x, -, hc⟩ | ⟨-, hc⟩ | ⟨-, hquote, hc⟩ := quoteChar_cases c
  · exact ⟨_, _, hc, by decide⟩
  · exact ⟨_, _, hc, by decide⟩
  · exact ⟨_, _, hc, hquote⟩

theorem toList_quote (s : String) :
    (quote s).toList = '"' :: (s.toList.flatMap fun c => (quoteChar c).toList) ++ ['"'] := by
  rw [quote, String.toList_append, String.toList_append, String.toList_join, List.flatMap_map]
  rfl

/-- The characters of a string end at the first quote that is no part of an escape. -/
theorem flatMap_quoteChar_append_inj {s t : List Char}
    (h : s.flatMap (fun c => (quoteChar c).toList) ++ '"' :: u =
      t.flatMap (fun c => (quoteChar c).toList) ++ '"' :: v) : s = t ∧ u = v := by
  induction s generalizing t with
  | nil =>
    cases t with
    | nil => exact ⟨rfl, List.tail_eq_of_cons_eq h⟩
    | cons d t =>
      obtain ⟨x, r, hd, hx⟩ := quoteChar_eq_cons d
      rw [List.flatMap_cons, hd] at h
      exact absurd (List.head_eq_of_cons_eq h).symm hx
  | cons c s ih =>
    cases t with
    | nil =>
      obtain ⟨x, r, hc, hx⟩ := quoteChar_eq_cons c
      rw [List.flatMap_cons, hc] at h
      exact absurd (List.head_eq_of_cons_eq h) hx
    | cons d t =>
      rw [List.flatMap_cons, List.flatMap_cons, List.append_assoc, List.append_assoc] at h
      obtain ⟨rfl, htail⟩ := quoteChar_append_inj h
      obtain ⟨rfl, hrest⟩ := ih htail
      exact ⟨rfl, hrest⟩

theorem quote_append_inj {s t : String} (h : (quote s).toList ++ u = (quote t).toList ++ v) :
    s = t ∧ u = v := by
  rw [toList_quote, toList_quote, List.append_assoc, List.append_assoc] at h
  obtain ⟨hsame, hrest⟩ := flatMap_quoteChar_append_inj (List.tail_eq_of_cons_eq h)
  exact ⟨String.toList_inj.1 hsame, hrest⟩

/-! ## Numbers -/

theorem repr_append_inj {m n : Nat} (hu : Stops Char.isDigit u) (hv : Stops Char.isDigit v)
    (h : m.repr.toList ++ u = n.repr.toList ++ v) : m = n ∧ u = v := by
  rw [Nat.repr_eq_ofList_toDigits, Nat.repr_eq_ofList_toDigits, String.toList_ofList,
    String.toList_ofList] at h
  have hdigits : ∀ k : Nat, ∀ c ∈ Nat.toDigits 10 k, c.isDigit = true := fun k c hc =>
    Nat.isDigit_of_mem_toDigits (by decide) (Nat.le_refl 10) hc
  obtain ⟨hsame, hrest⟩ := run_unique (hdigits m) (hdigits n) hu hv h
  have hnumber := congrArg (Nat.ofDigitChars 10 · 0) hsame
  simp only [Nat.ofDigitChars_toDigits (b := 10) (by decide) (Nat.le_refl 10)] at hnumber
  exact ⟨hnumber, hrest⟩

/-! ## Values -/

/-- The kind of a value. -/
inductive Kind where
  | null | bool | num | str | arr | obj

def kind : Json → Kind
  | null => .null
  | bool _ => .bool
  | num _ => .num
  | str _ => .str
  | arr _ => .arr
  | obj _ => .obj

/-- The kind of the values whose text starts with a character. -/
def kindOf (c : Char) : Kind :=
  if c = 'n' then .null
  else if c = 't' ∨ c = 'f' then .bool
  else if c = '"' then .str
  else if c = '[' then .arr
  else if c = '\x7b' then .obj
  else .num

theorem kindOf_of_isDigit {c : Char} (h : c.isDigit = true) : kindOf c = .num := by
  have hother : ∀ d ∈ ['n', 't', 'f', '"', '[', '\x7b'], c ≠ d := by
    rintro _ hd rfl
    revert h
    simp only [List.mem_cons, List.not_mem_nil, or_false] at hd
    rcases hd with rfl | rfl | rfl | rfl | rfl | rfl <;> decide
  simp only [List.mem_cons, List.not_mem_nil, or_false, forall_eq_or_imp, forall_eq] at hother
  simp [kindOf, hother]

theorem toList_newline (level : Nat) :
    ∃ blanks, (newline level).toList = '\n' :: blanks :=
  ⟨_, by rw [newline, String.toList_append]; rfl⟩

theorem toList_arr_cons (level : Nat) (j : Json) (js : List Json) :
    ((arr (j :: js)).prettyAt level).toList = '[' :: ((newline (level + 1)).toList ++
      ((j.prettyAt (level + 1)).toList ++ ((prettyItems (level + 1) js).toList ++
        ((newline level).toList ++ [']'])))) := by
  simp only [prettyAt, String.toList_append, List.append_assoc]
  rfl

theorem toList_obj_cons (level : Nat) (name : String) (j : Json) (fs : List (String × Json)) :
    ((obj ((name, j) :: fs)).prettyAt level).toList = '\x7b' :: ((newline (level + 1)).toList ++
      ((quote name).toList ++ (':' :: ' ' :: ((j.prettyAt (level + 1)).toList ++
        ((prettyFields (level + 1) fs).toList ++ ((newline level).toList ++ ['\x7d'])))))) := by
  simp only [prettyAt, String.toList_append, List.append_assoc]
  rfl

theorem toList_items_cons (level : Nat) (j : Json) (js : List Json) :
    (prettyItems level (j :: js)).toList = ',' :: ((newline level).toList ++
      ((j.prettyAt level).toList ++ (prettyItems level js).toList)) := by
  simp only [prettyItems, String.toList_append, List.append_assoc]
  rfl

theorem toList_fields_cons (level : Nat) (name : String) (j : Json) (fs : List (String × Json)) :
    (prettyFields level ((name, j) :: fs)).toList = ',' :: ((newline level).toList ++
      ((quote name).toList ++ (':' :: ' ' :: ((j.prettyAt level).toList ++
        (prettyFields level fs).toList)))) := by
  simp only [prettyFields, String.toList_append, List.append_assoc]
  rfl

/-- The first character of a text shows the kind of the value. -/
theorem prettyAt_eq_cons (level : Nat) (j : Json) :
    ∃ c t, (j.prettyAt level).toList = c :: t ∧ kindOf c = j.kind := by
  cases j with
  | null => exact ⟨'n', ['u', 'l', 'l'], by rw [prettyAt]; rfl, rfl⟩
  | bool value =>
    cases value
    · exact ⟨'f', ['a', 'l', 's', 'e'], by rw [prettyAt]; rfl, rfl⟩
    · exact ⟨'t', ['r', 'u', 'e'], by rw [prettyAt]; rfl, rfl⟩
  | num value =>
    obtain ⟨c, t, hdigits⟩ := List.exists_cons_of_ne_nil (Nat.toDigits_ne_nil (n := value) (b := 10))
    have hc : c.isDigit = true := Nat.isDigit_of_mem_toDigits (b := 10) (n := value) (by decide)
      (Nat.le_refl 10) (hdigits ▸ List.mem_cons_self)
    refine ⟨c, t, ?_, kindOf_of_isDigit hc⟩
    rw [prettyAt]
    change value.repr.toList = c :: t
    rw [Nat.repr_eq_ofList_toDigits, String.toList_ofList, hdigits]
  | str value => exact ⟨'"', _, by rw [prettyAt]; exact toList_quote value, rfl⟩
  | arr items =>
    cases items with
    | nil => exact ⟨'[', [']'], by rw [prettyAt]; rfl, rfl⟩
    | cons j js => exact ⟨'[', _, toList_arr_cons level j js, rfl⟩
  | obj fields =>
    cases fields with
    | nil => exact ⟨'\x7b', ['\x7d'], by rw [prettyAt]; rfl, rfl⟩
    | cons f fs => exact ⟨'\x7b', _, toList_obj_cons level f.1 f.2 fs, rfl⟩

/-- Behind a value stands a comma or a line break, or nothing. -/
def Ends (s : List Char) : Prop := ∀ c, s.head? = some c → c = ',' ∨ c = '\n'

theorem Ends.stops {s : List Char} (h : Ends s) : Stops Char.isDigit s := by
  intro c hc
  rcases h c hc with rfl | rfl <;> rfl

theorem ends_newline (level : Nat) (s : List Char) : Ends ((newline level).toList ++ s) := by
  obtain ⟨blanks, h⟩ := toList_newline level
  intro c hc
  rw [h] at hc
  exact .inr (Option.some.inj hc).symm

theorem ends_items (level : Nat) (js : List Json) {s : List Char} (hs : Ends s) :
    Ends ((prettyItems level js).toList ++ s) := by
  cases js with
  | nil =>
    rw [prettyItems]
    exact hs
  | cons j js =>
    intro c hc
    rw [toList_items_cons] at hc
    exact .inl (Option.some.inj hc).symm

theorem ends_fields (level : Nat) (fs : List (String × Json)) {s : List Char} (hs : Ends s) :
    Ends ((prettyFields level fs).toList ++ s) := by
  cases fs with
  | nil =>
    rw [prettyFields]
    exact hs
  | cons f fs =>
    intro c hc
    rw [toList_fields_cons] at hc
    exact .inl (Option.some.inj hc).symm

/-- A line break is no comma. -/
theorem newline_ne_comma {level : Nat} {s t : List Char} (h : (newline level).toList ++ s = ',' :: t) :
    False := by
  obtain ⟨blanks, hblanks⟩ := toList_newline level
  rw [hblanks] at h
  exact absurd (List.head_eq_of_cons_eq h) (by decide)

/-- An empty list is closed where one with elements has a line break. -/
theorem arr_nil_ne_cons {level : Nat} {j : Json} {js : List Json}
    (h : ((arr []).prettyAt level).toList ++ u = ((arr (j :: js)).prettyAt level).toList ++ v) :
    False := by
  obtain ⟨blanks, hblanks⟩ := toList_newline (level + 1)
  rw [toList_arr_cons, hblanks, prettyAt] at h
  exact absurd (List.head_eq_of_cons_eq (List.tail_eq_of_cons_eq h)) (by decide)

theorem obj_nil_ne_cons {level : Nat} {f : String × Json} {fs : List (String × Json)}
    (h : ((obj []).prettyAt level).toList ++ u = ((obj (f :: fs)).prettyAt level).toList ++ v) :
    False := by
  obtain ⟨blanks, hblanks⟩ := toList_newline (level + 1)
  rw [toList_obj_cons, hblanks, prettyAt] at h
  exact absurd (List.head_eq_of_cons_eq (List.tail_eq_of_cons_eq h)) (by decide)

/-- Of the text of an array, what follows its bracket is the text of its elements, but for the comma in
front of the first. -/
theorem items_of_arr {level : Nat} {js ks : List Json}
    (h : ((arr js).prettyAt level).toList ++ u = ((arr ks).prettyAt level).toList ++ v) :
    (prettyItems (level + 1) js).toList ++ ((newline level).toList ++ (']' :: u)) =
      (prettyItems (level + 1) ks).toList ++ ((newline level).toList ++ (']' :: v)) := by
  cases js with
  | nil =>
    cases ks with
    | nil => rw [List.append_cancel_left h]
    | cons k ks => exact (arr_nil_ne_cons h).elim
  | cons j js =>
    cases ks with
    | nil => exact (arr_nil_ne_cons h.symm).elim
    | cons k ks =>
      rw [toList_arr_cons, toList_arr_cons] at h
      rw [toList_items_cons, toList_items_cons]
      simpa only [List.cons_append, List.append_assoc, List.nil_append, List.cons.injEq, true_and] using h

theorem fields_of_obj {level : Nat} {fs gs : List (String × Json)}
    (h : ((obj fs).prettyAt level).toList ++ u = ((obj gs).prettyAt level).toList ++ v) :
    (prettyFields (level + 1) fs).toList ++ ((newline level).toList ++ ('\x7d' :: u)) =
      (prettyFields (level + 1) gs).toList ++ ((newline level).toList ++ ('\x7d' :: v)) := by
  cases fs with
  | nil =>
    cases gs with
    | nil => rw [List.append_cancel_left h]
    | cons g gs => exact (obj_nil_ne_cons h).elim
  | cons f fs =>
    cases gs with
    | nil => exact (obj_nil_ne_cons h.symm).elim
    | cons g gs =>
      rw [toList_obj_cons, toList_obj_cons] at h
      rw [toList_fields_cons, toList_fields_cons]
      simpa only [List.cons_append, List.append_assoc, List.nil_append, List.cons.injEq, true_and] using h

mutual

/-- Where a value ends is clear from its text. -/
theorem prettyAt_append_inj (level : Nat) (j k : Json) {u v : List Char} (hu : Ends u) (hv : Ends v)
    (h : (j.prettyAt level).toList ++ u = (k.prettyAt level).toList ++ v) : j = k ∧ u = v := by
  have hkind : j.kind = k.kind := by
    obtain ⟨c, s, hj, hc⟩ := prettyAt_eq_cons level j
    obtain ⟨d, t, hk, hd⟩ := prettyAt_eq_cons level k
    rw [hj, hk] at h
    rw [← hc, ← hd, List.head_eq_of_cons_eq h]
  cases j with
  | null =>
    cases k with
    | null => exact ⟨rfl, List.append_cancel_left h⟩
    | _ => cases hkind
  | bool a =>
    cases k with
    | bool b =>
      cases a <;> cases b
      · exact ⟨rfl, List.append_cancel_left h⟩
      · simp [prettyAt] at h
      · simp [prettyAt] at h
      · exact ⟨rfl, List.append_cancel_left h⟩
    | _ => cases hkind
  | num m =>
    cases k with
    | num n =>
      rw [prettyAt, prettyAt] at h
      obtain ⟨rfl, hrest⟩ := repr_append_inj hu.stops hv.stops h
      exact ⟨rfl, hrest⟩
    | _ => cases hkind
  | str s =>
    cases k with
    | str t =>
      rw [prettyAt, prettyAt] at h
      obtain ⟨rfl, hrest⟩ := quote_append_inj h
      exact ⟨rfl, hrest⟩
    | _ => cases hkind
  | arr js =>
    cases k with
    | arr ks =>
      obtain ⟨rfl, hclose⟩ := prettyItems_append_inj (level + 1) level js ks (items_of_arr h)
      exact ⟨rfl, List.tail_eq_of_cons_eq hclose⟩
    | _ => cases hkind
  | obj fs =>
    cases k with
    | obj gs =>
      obtain ⟨rfl, hclose⟩ := prettyFields_append_inj (level + 1) level fs gs (fields_of_obj h)
      exact ⟨rfl, List.tail_eq_of_cons_eq hclose⟩
    | _ => cases hkind

/-- The elements end at the line break in front of the closing bracket. -/
theorem prettyItems_append_inj (level outer : Nat) (js ks : List Json) {u v : List Char}
    (h : (prettyItems level js).toList ++ ((newline outer).toList ++ u) =
      (prettyItems level ks).toList ++ ((newline outer).toList ++ v)) : js = ks ∧ u = v := by
  match js, ks with
  | [], [] =>
    rw [prettyItems] at h
    exact ⟨rfl, List.append_cancel_left h⟩
  | [], _ :: _ =>
    rw [prettyItems, toList_items_cons] at h
    exact (newline_ne_comma h).elim
  | _ :: _, [] =>
    rw [prettyItems, toList_items_cons] at h
    exact (newline_ne_comma h.symm).elim
  | j :: js, k :: ks =>
    rw [toList_items_cons, toList_items_cons] at h
    simp only [List.cons_append, List.append_assoc, List.cons.injEq, true_and] at h
    obtain ⟨rfl, hitems⟩ := prettyAt_append_inj level j k (ends_items _ js (ends_newline outer _))
      (ends_items _ ks (ends_newline outer _)) (List.append_cancel_left h)
    obtain ⟨rfl, hrest⟩ := prettyItems_append_inj level outer js ks hitems
    exact ⟨rfl, hrest⟩

theorem prettyFields_append_inj (level outer : Nat) (fs gs : List (String × Json)) {u v : List Char}
    (h : (prettyFields level fs).toList ++ ((newline outer).toList ++ u) =
      (prettyFields level gs).toList ++ ((newline outer).toList ++ v)) : fs = gs ∧ u = v := by
  match fs, gs with
  | [], [] =>
    rw [prettyFields] at h
    exact ⟨rfl, List.append_cancel_left h⟩
  | [], _ :: _ =>
    rw [prettyFields, toList_fields_cons] at h
    exact (newline_ne_comma h).elim
  | _ :: _, [] =>
    rw [prettyFields, toList_fields_cons] at h
    exact (newline_ne_comma h.symm).elim
  | (m, j) :: fs, (n, k) :: gs =>
    rw [toList_fields_cons, toList_fields_cons] at h
    simp only [List.cons_append, List.append_assoc, List.cons.injEq, true_and] at h
    obtain ⟨rfl, hvalue⟩ := quote_append_inj (List.append_cancel_left h)
    obtain ⟨rfl, hfields⟩ := prettyAt_append_inj level j k (ends_fields _ fs (ends_newline outer _))
      (ends_fields _ gs (ends_newline outer _))
      (List.tail_eq_of_cons_eq (List.tail_eq_of_cons_eq hvalue))
    obtain ⟨rfl, hrest⟩ := prettyFields_append_inj level outer fs gs hfields
    exact ⟨rfl, hrest⟩

end

/-- Two values never have the same text. -/
theorem pretty_injective {j k : Json} (h : j.pretty = k.pretty) : j = k := by
  have hends : Ends [] := nofun
  refine (prettyAt_append_inj 0 j k hends hends ?_).1
  exact congrArg (·.toList ++ []) h

end SwiftMacro.Json
