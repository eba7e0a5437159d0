import SwiftMacro.Proofs.Faults
import SwiftMacro.Report
/-!
# Lines of diagnostics

A diagnostic is written in one line: without colours its text has no control character but the newline at
its end. What it shows of the source are names of macros, schemes and names of symbols. Only the last can
hold control characters, because a literal may write them as escapes, and they are shown as they are
(`diagnostic_oneLine_iff`).
-/

namespace SwiftMacro

/-! ## Texts without control characters -/

/-- The text has no control characters. -/
def ControlFree (s : String) : Prop := ∀ c ∈ s.toList, Text.isControl c = false

-- Named, because the search would go through all characters there are.
instance (s : String) : Decidable (ControlFree s) := List.decidableBAll _ s.toList

/-- The text is one line with its end, and has no other control characters. -/
def OneLine (s : String) : Prop :=
  ∃ body, s.toList = body ++ ['\n'] ∧ ∀ c ∈ body, Text.isControl c = false

theorem oneLine_append_newline {s : String} : OneLine (s ++ "\n") ↔ ControlFree s := by
  unfold OneLine ControlFree
  rw [String.toList_append]
  constructor
  · rintro ⟨body, hbody, hfree⟩
    rwa [List.append_cancel_right hbody]
  · intro hfree
    exact ⟨s.toList, rfl, hfree⟩

@[simp] theorem controlFree_append {s t : String} : ControlFree (s ++ t) ↔ ControlFree s ∧ ControlFree t := by
  unfold ControlFree
  rw [String.toList_append]
  exact List.forall_mem_append

theorem isControl_of_bounds {c : Char} (hlow : 32 ≤ c.toNat) (hhigh : c.toNat < 127) :
    Text.isControl c = false := by
  unfold Text.isControl
  simp only [Bool.or_eq_false_iff, Bool.and_eq_false_iff, decide_eq_false_iff_not]
  omega

theorem isControl_of_isSchemeChar {c : Char} (h : Url.isSchemeChar c = true) : Text.isControl c = false := by
  have hnumber : c.val.toNat = c.toNat := rfl
  simp only [Url.isSchemeChar, Char.isAlphanum, Char.isAlpha, Char.isUpper, Char.isLower, Char.isDigit,
    Bool.or_eq_true, Bool.and_eq_true, decide_eq_true_eq, beq_iff_eq, ge_iff_le, UInt32.le_iff_toNat_le,
    Char.reduceVal, UInt32.reduceToNat, hnumber] at h
  rcases h with ((((hrange | hrange) | hrange) | rfl) | rfl) | rfl
  all_goals first | rfl | exact isControl_of_bounds (by omega) (by omega)

theorem isControl_of_isAlpha {c : Char} (h : c.isAlpha = true) : Text.isControl c = false :=
  isControl_of_isSchemeChar (by simp [Url.isSchemeChar, Char.isAlphanum, h])

theorem isControl_toLower (c : Char) : Text.isControl c.toLower = Text.isControl c := by
  by_cases hupper : c.isUpper = true
  · have halpha : c.isAlpha = true := by simp [Char.isAlpha, hupper]
    rw [isControl_of_isAlpha halpha, isControl_of_isAlpha ((Char.isAlpha_toLower_eq_isAlpha c).trans halpha)]
  · rw [Char.toLower_eq_of_not_isUpper hupper]

theorem controlFree_repr (n : Nat) : ControlFree n.repr := by
  intro c hc
  rw [Nat.repr_eq_ofList_toDigits, String.toList_ofList] at hc
  have hdigit := Nat.isDigit_of_mem_toDigits (by decide) (Nat.le_refl 10) hc
  apply isControl_of_isSchemeChar
  simp [Url.isSchemeChar, Char.isAlphanum, hdigit]

theorem controlFree_foldCase {s : String} : ControlFree (UrlPolicy.foldCase s) ↔ ControlFree s := by
  unfold ControlFree UrlPolicy.foldCase
  rw [String.toList_ofList, List.forall_mem_map]
  simp only [isControl_toLower]

theorem controlFree_scheme {scheme : List Char} (h : Url.IsScheme scheme) :
    ControlFree (String.ofList scheme) := by
  obtain ⟨first, more, rfl, hfirst, hmore⟩ := h
  unfold ControlFree
  rw [String.toList_ofList]
  refine List.forall_mem_cons.2 ⟨isControl_of_isAlpha hfirst, fun c hc => ?_⟩
  exact isControl_of_isSchemeChar (hmore c hc)

/-! ## Texts of diagnostics -/

/-- Of what a message shows, a scheme and a name of a symbol are not fixed. -/
theorem controlFree_message_iff {failure : Failure} : ControlFree failure.message ↔
    (∀ scheme, failure = .invalidUrlScheme scheme → ControlFree scheme) ∧
      ∀ symbol, failure = .invalidSymbolName symbol → ControlFree symbol := by
  cases failure with
  | invalidUrlScheme scheme =>
    have hafter : ControlFree " is not a supported protocol" := by decide +kernel
    simp [Failure.message, hafter]
  | invalidSymbolName symbol =>
    have hbefore : ControlFree "\"" := by decide +kernel
    have hafter : ControlFree "\" is not a known SF Symbol name" := by decide +kernel
    simp [Failure.message, hbefore, hafter]
  | _ => exact iff_of_true (by decide +kernel) ⟨nofun, nofun⟩

theorem controlFree_code (failure : Failure) : ControlFree failure.code := by
  cases failure <;> rw [Failure.code] <;> decide +kernel

theorem controlFree_id_iff {d : Diagnostic} : ControlFree d.id ↔ ControlFree d.macroName := by
  have hfixed : ControlFree Diagnostic.domain ∧ ControlFree "::" ∧ ControlFree "." := by decide +kernel
  simp [Diagnostic.id, Diagnostic.localId, hfixed, controlFree_code]

theorem controlFree_plain_iff {d : Diagnostic} : ControlFree d.plain ↔
    (∀ source, d.source = some source → ControlFree source.name) ∧ ControlFree d.macroName ∧
      ControlFree d.failure.message := by
  have hfixed : ControlFree ":" ∧ ControlFree ": " ∧ ControlFree Diagnostic.severity ∧ ControlFree "[" ∧
      ControlFree "]: " := by decide +kernel
  unfold Diagnostic.plain
  cases d.source with
  | none => simp [hfixed, controlFree_id_iff]
  | some source => simp [hfixed, controlFree_id_iff, controlFree_repr]

theorem oneLine_line_iff {d : Diagnostic} : OneLine (d.line ⟨false⟩) ↔ ControlFree d.plain := by
  have hline : d.line ⟨false⟩ = d.plain ++ "\n" := by simp [Diagnostic.line, Palette.start, Palette.reset]
  rw [hline, oneLine_append_newline]

/-! ## Rejected sites -/

/-- A site has the source it was found in, and the name of a macro. -/
theorem named_of_site {r : Registry} {source : Source} {items : List Node} {site : Site}
    (h : site ∈ r.sites source items) :
    site.source = source ∧ ∃ entry ∈ r, entry.name = site.macroName := by
  obtain ⟨n, -, hs⟩ := List.mem_flatMap.1 h
  rcases List.mem_append.1 hs with hs | hs
  · obtain ⟨hsite, hknown⟩ := List.mem_filter.1 hs
    obtain ⟨mark, -, hsite⟩ := List.mem_filterMap.1 hsite
    obtain ⟨name, -, rfl⟩ := Option.map_eq_some_iff.1 hsite
    obtain ⟨entry, hentry, -⟩ := Registry.isAttached_iff.1 hknown
    exact ⟨rfl, Registry.exists_finds_iff.1 ⟨entry, hentry⟩⟩
  · obtain ⟨hsite, hknown⟩ := List.mem_filter.1 hs
    obtain ⟨name, -, rfl⟩ := Option.map_eq_some_iff.1 (Option.mem_toList.1 hsite)
    exact ⟨rfl, Registry.contains_iff.1 hknown⟩

theorem controlFree_standard : ∀ entry ∈ Registry.standard, ControlFree entry.name := by
  simp only [Registry.standard, List.forall_mem_cons, List.not_mem_nil, false_implies, implies_true]
  decide +kernel

/-- A URL is rejected for a scheme only, and its scheme is a word. -/
theorem controlFree_scheme_of_rejects {site : Site} {services : Services} {r : Rejection}
    (h : site.Rejects services r) {scheme : String} (hfailure : r.failure = .invalidUrlScheme scheme) :
    ControlFree scheme := by
  cases h with
  | url _ _ hcheck =>
    obtain rfl := hfailure
    rcases checkUrlWith_eq_error Url.keepsSchemes_parse hcheck with h | h | ⟨reported, h, hreported⟩
    · cases h
    · cases h
    · obtain rfl := Failure.invalidUrlScheme.inj h
      rcases hreported with rfl | ⟨written, hwritten, hcase⟩
      · decide +kernel
      · rw [← controlFree_foldCase, hcase, controlFree_foldCase]
        exact controlFree_scheme hwritten
  | noVariable _ _ hbound => cases hbound <;> cases hfailure
  | _ => cases hfailure

/-- The diagnostic of a rejected site is written in one line, unless it shows a name of a symbol with a
control character. -/
theorem diagnostic_oneLine_iff {source : Source} {items : List Node} {services : Services}
    {outcomes : List SiteOutcome} {o : SiteOutcome} {e : ExpansionError} (hname : ControlFree source.name)
    (hbatch : expandAll Registry.standard services (Registry.standard.sites source items) = .ok outcomes)
    (ho : o ∈ outcomes) (he : o.result = .error e) : ∃ d, o.diagnostics = [d] ∧
      (OneLine (d.line ⟨false⟩) ↔ ∀ symbol, d.failure = .invalidSymbolName symbol → ControlFree symbol) := by
  obtain ⟨hsite, r, hrejects, -, hd⟩ := rejects_of_batch hbatch ho he
  obtain ⟨hsource, entry, hentry, hmacro⟩ := named_of_site hsite
  refine ⟨_, hd, ?_⟩
  rw [oneLine_line_iff, controlFree_plain_iff, controlFree_message_iff]
  constructor
  · rintro ⟨-, -, -, hsymbol⟩
    exact hsymbol
  · intro hsymbol
    refine ⟨fun shown h => ?_, ?_, fun scheme => controlFree_scheme_of_rejects hrejects, hsymbol⟩
    · obtain rfl := Option.some.inj h
      rwa [hsource]
    · show ControlFree o.site.macroName
      rw [← hmacro]
      exact controlFree_standard entry hentry

theorem diagnostic_oneLine_iff_quoted : ∃ items outcomes o d,
    readSource "#systemImage(\"\\\"é\\\"\")" = .ok items ∧
    expandAll Registry.standard ⟨default, default, some fun _ => false⟩
      (Registry.standard.sites ⟨"f", "#systemImage(\"\\\"é\\\"\")"⟩ items) = .ok outcomes ∧
    o ∈ outcomes ∧ o.diagnostics = [d] ∧ d.failure = .invalidSymbolName "\"é\"" ∧
    OneLine (d.line ⟨false⟩) := by
  obtain ⟨items, outcomes, o, d, e, hitems, houtcomes, ho, he, hd, hfailure⟩ := exists_of_hasRejected
    (by decide +kernel : hasRejected ⟨"f", "#systemImage(\"\\\"é\\\"\")"⟩
      ⟨default, default, some fun _ => false⟩ (.invalidSymbolName "\"é\"") = true)
  have hname : ControlFree (⟨"f", "#systemImage(\"\\\"é\\\"\")"⟩ : Source).name := by decide +kernel
  obtain ⟨d', hd', hiff⟩ := diagnostic_oneLine_iff hname houtcomes ho he
  obtain rfl : d = d' := List.singleton_injective (hd.symm.trans hd')
  refine ⟨items, outcomes, o, d, hitems, houtcomes, ho, hd, hfailure, hiff.2 fun symbol hsymbol => ?_⟩
  obtain rfl := Failure.invalidSymbolName.inj (hfailure.symm.trans hsymbol)
  decide +kernel

/-- An escape in the literal breaks the line. -/
theorem diagnostic_breaks_line : ControlFree "f" ∧ ∃ items outcomes o d e,
    readSource "#systemImage(\"a\\nb\")" = .ok items ∧
    expandAll Registry.standard ⟨default, default, some fun _ => false⟩
      (Registry.standard.sites ⟨"f", "#systemImage(\"a\\nb\")"⟩ items) = .ok outcomes ∧
    o ∈ outcomes ∧ o.result = .error e ∧ o.diagnostics = [d] ∧ ¬ OneLine (d.line ⟨false⟩) := by
  obtain ⟨items, outcomes, o, d, e, hitems, houtcomes, ho, he, hd, hfailure⟩ := exists_of_hasRejected
    (by decide +kernel : hasRejected ⟨"f", "#systemImage(\"a\\nb\")"⟩
      ⟨default, default, some fun _ => false⟩ (.invalidSymbolName "a\nb") = true)
  refine ⟨by decide +kernel, items, outcomes, o, d, e, hitems, houtcomes, ho, he, hd, ?_⟩
  rw [oneLine_line_iff, controlFree_plain_iff, controlFree_message_iff]
  rintro ⟨-, -, -, hsymbol⟩
  exact absurd (hsymbol _ hfailure) (by decide +kernel)

end SwiftMacro
