import Mathlib.Data.List.Basic
import Mathlib.Data.Prod.Basic
/-!
# Lists by key

A list can be described without saying how it was made: by what stands at which key, and by the order of
the keys. `Listed` says that a list holds exactly this, each thing as often as it stands somewhere. The
order leaves no key twice, so no other list has the same description (`Listed.unique`).

Lists that are made from such a list by `filterMap`, `flatMap` or `++` have a description, too.
-/

namespace SwiftMacro

/-- The list holds what stands at the keys, one element for each key where something stands, in the order
of the keys. -/
def Listed {κ α : Type} (before : κ → κ → Prop) (stands : κ → α → Prop) (as : List α) : Prop :=
  ∃ keyed : List (κ × α), keyed.map Prod.snd = as ∧ (keyed.map Prod.fst).Pairwise before ∧
    ∀ k a, (k, a) ∈ keyed ↔ stands k a

namespace Listed

variable {κ ι α β : Type} {before : κ → κ → Prop} {stands : κ → α → Prop} {as : List α}

theorem mem_iff (h : Listed before stands as) {a : α} : a ∈ as ↔ ∃ k, stands k a := by
  obtain ⟨keyed, rfl, -, hstands⟩ := h
  simp [← hstands]

theorem congr (h : Listed before stands as) {stands' : κ → α → Prop}
    (hiff : ∀ k a, stands k a ↔ stands' k a) : Listed before stands' as := by
  obtain ⟨keyed, has, horder, hstands⟩ := h
  exact ⟨keyed, has, horder, fun k a => (hstands k a).trans (hiff k a)⟩

theorem unique [Std.Asymm before] (h : Listed before stands as) {bs : List α}
    (h' : Listed before stands bs) : as = bs := by
  obtain ⟨keyed, rfl, horder, hstands⟩ := h
  obtain ⟨keyed', rfl, horder', hstands'⟩ := h'
  rw [List.pairwise_map] at horder horder'
  -- An element with its key comes before neither itself nor one that comes before it.
  have hnodup : ∀ ps : List (κ × α), ps.Pairwise (fun p q => before p.1 q.1) → ps.Nodup := by
    refine fun ps hps => hps.imp ?_
    rintro p _ hpp rfl
    exact Std.Asymm.asymm _ _ hpp hpp
  have hperm : keyed.Perm keyed' := (List.perm_ext_iff_of_nodup (hnodup _ horder) (hnodup _ horder')).2
    fun ⟨k, a⟩ => (hstands k a).trans (hstands' k a).symm
  have hsame : keyed = keyed' := by
    refine hperm.eq_of_pairwise (fun p q _ _ hpq hqp => ?_) horder horder'
    exact absurd hqp (Std.Asymm.asymm _ _ hpq)
  rw [hsame]

/-- Keys may be replaced by others in the same order. -/
theorem rekey (h : Listed before stands as) (before' : ι → ι → Prop) (g : κ → ι)
    (hmono : ∀ k l, before k l → before' (g k) (g l)) :
    Listed before' (fun i a => ∃ k, g k = i ∧ stands k a) as := by
  obtain ⟨keyed, rfl, horder, hstands⟩ := h
  refine ⟨keyed.map (Prod.map g id), ?_, ?_, fun i a => ?_⟩
  · simp
  · rw [List.map_map, List.pairwise_map]
    exact (List.pairwise_map.1 horder).imp fun {p q} hpq => hmono p.1 q.1 hpq
  · simp only [← hstands, List.mem_map, Prod.exists, Prod.map_apply, Prod.mk.injEq, id_eq]
    grind

theorem singleton (before : κ → κ → Prop) (k : κ) (a : α) :
    Listed before (fun l b => l = k ∧ b = a) [a] :=
  ⟨[(k, a)], rfl, List.pairwise_singleton _ _, by simp⟩

/-- Two lists one behind the other, when no key of the second comes before one of the first. -/
theorem append (h : Listed before stands as) {stands' : κ → α → Prop} {bs : List α}
    (h' : Listed before stands' bs)
    (hapart : ∀ k a l b, stands k a → stands' l b → before k l) :
    Listed before (fun k a => stands k a ∨ stands' k a) (as ++ bs) := by
  obtain ⟨keyed, rfl, horder, hstands⟩ := h
  obtain ⟨keyed', rfl, horder', hstands'⟩ := h'
  refine ⟨keyed ++ keyed', List.map_append, ?_, fun k a => ?_⟩
  · rw [List.map_append, List.pairwise_append]
    refine ⟨horder, horder', ?_⟩
    simp only [List.mem_map, Prod.exists, exists_and_right, exists_eq_right]
    rintro k ⟨a, ha⟩ l ⟨b, hb⟩
    exact hapart k a l b ((hstands k a).1 ha) ((hstands' l b).1 hb)
  · rw [List.mem_append, hstands, hstands']

/-- The elements of a list stand at their numbers. -/
theorem getElem? (as : List α) : Listed (· < ·) (fun (i : Nat) a => as[i]? = some a) as := by
  refine ⟨as.zipIdx.map Prod.swap, ?_, ?_, fun i a => ?_⟩
  · rw [List.map_map]
    exact List.zipIdx_map_fst 0 as
  · rw [List.map_map]
    have hkeys : as.zipIdx.map (Prod.fst ∘ Prod.swap) = List.range' 0 as.length :=
      List.zipIdx_map_snd 0 as
    rw [hkeys]
    exact List.pairwise_lt_range'
  · refine Iff.trans ?_ (List.mem_zipIdx_iff_getElem? (x := (a, i)))
    simp

theorem filterMap (h : Listed before stands as) (f : α → Option β) :
    Listed before (fun k b => ∃ a, stands k a ∧ f a = some b) (as.filterMap f) := by
  obtain ⟨keyed, rfl, horder, hstands⟩ := h
  refine ⟨keyed.filterMap fun p => (f p.2).map (p.1, ·), ?_, ?_, fun k b => ?_⟩
  · rw [List.map_filterMap, List.filterMap_map]
    refine congrArg (List.filterMap · keyed) (funext fun p => ?_)
    change ((f p.2).map (p.1, ·)).map Prod.snd = f p.2
    rw [Option.map_map]
    exact Option.map_id'
  · rw [List.pairwise_map] at horder ⊢
    refine horder.filterMap _ fun p q hpq p' hp' q' hq' => ?_
    obtain ⟨_, -, rfl⟩ := Option.map_eq_some_iff.1 hp'
    obtain ⟨_, -, rfl⟩ := Option.map_eq_some_iff.1 hq'
    exact hpq
  · simp only [← hstands, List.mem_filterMap, Option.map_eq_some_iff, Prod.exists, Prod.mk.injEq]
    grind

/-- A list of lists: a key leads to the inner list, and one of the keys there to the element. -/
theorem flatMap (h : Listed before stands as) {f : α → List β} {inside : ι → ι → Prop}
    {inner : α → ι → β → Prop} (hf : ∀ k a, stands k a → Listed inside (inner a) (f a)) :
    Listed (Prod.Lex before inside) (fun place b => ∃ a, stands place.1 a ∧ inner a place.2 b)
      (as.flatMap f) := by
  obtain ⟨keyed, rfl, horder, hstands⟩ := h
  simp only [← hstands] at hf ⊢
  clear hstands
  induction keyed with
  | nil => exact ⟨[], rfl, .nil, by simp⟩
  | cons p keyed ih =>
    obtain ⟨k, a⟩ := p
    obtain ⟨hfirst, horder⟩ := List.pairwise_cons.1 horder
    obtain ⟨own, hown, hsorted, hinner⟩ := hf k a List.mem_cons_self
    obtain ⟨rest, hrest, hsorted', hrests⟩ := ih horder fun l b hb => hf l b (List.mem_cons_of_mem _ hb)
    refine ⟨own.map (fun q => ((k, q.1), q.2)) ++ rest, ?_, ?_, fun place b => ?_⟩
    · rw [List.map_append, List.map_map, hrest, List.map_cons, List.flatMap_cons, ← hown]
      rfl
    · rw [List.map_append, List.pairwise_append]
      refine ⟨?_, hsorted', ?_⟩
      · rw [List.map_map, List.pairwise_map]
        exact (List.pairwise_map.1 hsorted).imp fun {q r} hqr => .right k hqr
      · intro _ hkey place hplace
        obtain ⟨_, hq, rfl⟩ := List.mem_map.1 hkey
        obtain ⟨q, -, rfl⟩ := List.mem_map.1 hq
        obtain ⟨⟨_, c⟩, hc, rfl⟩ := List.mem_map.1 hplace
        obtain ⟨b, hb, -⟩ := (hrests _ c).1 hc
        exact .left _ _ (hfirst _ (List.mem_map.2 ⟨_, hb, rfl⟩))
    · simp only [List.mem_append, List.mem_map, List.mem_cons, hrests, Prod.exists, Prod.mk.injEq, hinner]
      grind

/-- The first element with a property is the one at the first key where something with it stands. -/
theorem find?_eq_some_iff [Std.Asymm before] (h : Listed before stands as) {p : α → Bool} {a : α} :
    as.find? p = some a ↔ ∃ k, stands k a ∧ p a = true ∧
      ∀ l b, before l k → stands l b → p b = false := by
  obtain ⟨keyed, rfl, horder, hstands⟩ := h
  simp only [List.find?_eq_some_iff_append, Bool.not_eq_true', ← hstands]
  clear hstands
  constructor
  · rintro ⟨ha, front, back, hkeyed, hfront⟩
    obtain ⟨first, _, rfl, rfl, hrest⟩ := List.map_eq_append_iff.1 hkeyed
    obtain ⟨⟨k, a⟩, rest, rfl, rfl, -⟩ := List.map_eq_cons_iff.1 hrest
    refine ⟨k, by simp, ha, fun l b hl hb => ?_⟩
    rw [List.map_append, List.map_cons, List.pairwise_append, List.pairwise_cons] at horder
    rcases List.mem_append.1 hb with hb | hb
    · exact hfront b (List.mem_map.2 ⟨_, hb, rfl⟩)
    -- The keys from `k` on do not come before `k`.
    rcases List.mem_cons.1 hb with hb | hb
    · obtain rfl := congrArg Prod.fst hb
      exact absurd hl (Std.Asymm.asymm _ _ hl)
    · exact absurd hl (Std.Asymm.asymm _ _ (horder.2.1.1 l (List.mem_map.2 ⟨_, hb, rfl⟩)))
  · rintro ⟨k, hk, ha, hfirst⟩
    obtain ⟨front, back, rfl⟩ := List.append_of_mem hk
    rw [List.map_append, List.pairwise_append] at horder
    refine ⟨ha, front.map Prod.snd, back.map Prod.snd, by simp, fun b hb => ?_⟩
    obtain ⟨⟨l, b⟩, hl, rfl⟩ := List.mem_map.1 hb
    refine hfirst l b (horder.2.2 l (List.mem_map.2 ⟨_, hl, rfl⟩) k List.mem_cons_self) ?_
    exact List.mem_append_left _ hl

end Listed
end SwiftMacro
