import SwiftMacro.Proofs.Replacement
/-!
# What an expansion does

A site is handed to one macro or to none. `Site.Answers` lists the four things that can come of it,
each with what it needs, and `answers_of_expand` says that there is no other. What is said about
diagnostics (`expand_reports`), and later about batches, is a case analysis over it: neither looks at
the dispatcher or at a macro again.
-/

namespace SwiftMacro

/-! ## Looking up a macro -/

namespace Registry

variable {r : Registry} {name : String}

theorem lookup?_eq_none_iff : r.lookup? name = none ↔ ∀ entry ∈ r, entry.name ≠ name := by
  simp [lookup?, List.find?_eq_none]

/-- No two macros of the standard registry share a name, so each is found under its own. -/
theorem lookup?_standard_eq_some {entry : MacroEntry} :
    standard.lookup? name = some entry ↔ entry ∈ standard ∧ entry.name = name := by
  constructor
  · intro h
    obtain ⟨hmem, hname⟩ := mem_of_lookup? h
    exact ⟨hmem, hname.symm⟩
  · rintro ⟨hmem, rfl⟩
    simp only [standard, List.mem_cons, List.not_mem_nil, or_false] at hmem
    rcases hmem with rfl | rfl | rfl | rfl <;> rfl

end Registry

/-! ## The answers to a site -/

/-- What a macro makes of a site in its own role. -/
inductive Handler.Gives (site : Site) (services : Services) :
    Handler → Except Rejection Expansion → Prop
  | expression {run : Site → Services → Except Rejection Node} (hrole : site.role = .expression) :
      Gives site services (.expression run) ((run site services).map .expression)
  | accessor {run : Site → Services → Except Rejection (List Node)} (hrole : site.role = .accessor) :
      Gives site services (.accessor run) ((run site services).map .accessors)

theorem Handler.Gives.role {site : Site} {services : Services} {handler : Handler}
    {given : Except Rejection Expansion} (h : handler.Gives site services given) :
    handler.role = site.role := by
  cases h with
  | expression hrole => exact hrole.symm
  | accessor hrole => exact hrole.symm

/-- What can come of a site: the result, and the diagnostics after it. -/
inductive Site.Answers (site : Site) (registry : Registry) (services : Services)
    (before : List Diagnostic) : Except ExpansionError Expansion → List Diagnostic → Prop
  | unknown (h : registry.lookup? site.macroName = none) :
      Answers site registry services before (.error (.unknownMacro site.macroName)) before
  | mismatch {entry : MacroEntry} (hentry : registry.lookup? site.macroName = some entry)
      (hrole : entry.role ≠ site.role) :
      Answers site registry services before
        (.error (.roleMismatch site.macroName entry.role site.role)) before
  | expands {entry : MacroEntry} {expansion : Expansion}
      (hentry : registry.lookup? site.macroName = some entry)
      (hgives : entry.handler.Gives site services (.ok expansion)) :
      Answers site registry services before (.ok expansion) before
  | rejects {entry : MacroEntry} {rejection : Rejection}
      (hentry : registry.lookup? site.macroName = some entry)
      (hgives : entry.handler.Gives site services (.error rejection)) :
      Answers site registry services before (.error (.rejected site.macroName rejection.failure))
        (before ++ [site.diagnostic rejection])

section Expand

variable (site : Site) (registry : Registry) (services : Services) (before : List Diagnostic)

/-- A macro takes a site in its own role and refuses any other. -/
theorem run_of_lookup? {registry : Registry} {entry : MacroEntry}
    (hentry : registry.lookup? site.macroName = some entry) :
    (entry.role ≠ site.role ∧ site.run registry services =
      .error (.roleMismatch site.macroName entry.role site.role)) ∨
    ∃ given, entry.handler.Gives site services given ∧ site.run registry services = .ok given := by
  unfold MacroEntry.role
  simp only [Site.run, hentry]
  -- The four pairs of what the macro is for and how the site uses it.
  cases entry.handler with
  | expression run =>
    cases hrole : site.role with
    | expression => exact .inr ⟨_, .expression hrole, rfl⟩
    | accessor => exact .inl ⟨nofun, rfl⟩
  | accessor run =>
    cases hrole : site.role with
    | expression => exact .inl ⟨nofun, rfl⟩
    | accessor => exact .inr ⟨_, .accessor hrole, rfl⟩

/-- Nothing else can come of a site. -/
theorem answers_of_expand : site.Answers registry services before
    (site.expand registry services before).1 (site.expand registry services before).2 := by
  unfold Site.expand
  cases hentry : registry.lookup? site.macroName with
  | none =>
    have hrun : site.run registry services = .error (.unknownMacro site.macroName) := by
      simp only [Site.run, hentry]
    rw [hrun]
    exact .unknown hentry
  | some entry =>
    obtain ⟨hrole, hrun⟩ | ⟨given, hgives, hrun⟩ := run_of_lookup? site services hentry
    · rw [hrun]
      exact .mismatch hentry hrole
    · rw [hrun]
      cases given with
      | ok expansion => exact .expands hentry hgives
      | error rejection => exact .rejects hentry hgives

end Expand

/-! ## Diagnostics -/

/-- The diagnostics after an expansion, for each result: they are left alone unless a macro rejects the
site, and then there is one more, which says what the result says. -/
def Reported (site : Site) (before after : List Diagnostic) :
    Except ExpansionError Expansion → Prop
  | .error (.rejected name failure) => name = site.macroName ∧
      ∃ d : Diagnostic, after = before ++ [d] ∧ d.failure = failure ∧ d.macroName = site.macroName ∧
        d.localId = site.macroName ++ "." ++ failure.code ∧ d.source = some site.source
  | _ => after = before

section Answers

variable {site : Site} {registry : Registry} {services : Services} {before after : List Diagnostic}
  {result : Except ExpansionError Expansion}

theorem Site.Answers.reported (h : site.Answers registry services before result after) :
    Reported site before after result := by
  cases h with
  | unknown | mismatch | expands => exact rfl
  | rejects => exact ⟨rfl, _, rfl, rfl, rfl, rfl, rfl⟩

theorem Site.Answers.unknown_iff (h : site.Answers registry services before result after)
    (name : String) : result = .error (.unknownMacro name) ↔
      name = site.macroName ∧ registry.lookup? name = none := by
  constructor
  · rintro rfl
    cases h with
    | unknown hnone => exact ⟨rfl, hnone⟩
  · rintro ⟨rfl, hnone⟩
    cases h with
    | unknown => rfl
    | mismatch hentry | expands hentry | rejects hentry => rw [hnone] at hentry; cases hentry

theorem Site.Answers.mismatch_iff (h : site.Answers registry services before result after)
    (name : String) (expected found : Role) : result = .error (.roleMismatch name expected found) ↔
      name = site.macroName ∧ found = site.role ∧ expected ≠ found ∧
        ∃ entry, registry.lookup? name = some entry ∧ entry.role = expected := by
  constructor
  · rintro rfl
    cases h with
    | mismatch hentry hrole => exact ⟨rfl, rfl, hrole, _, hentry, rfl⟩
  · rintro ⟨rfl, rfl, hrole, entry, hentry, rfl⟩
    cases h with
    | unknown hnone => rw [hnone] at hentry; cases hentry
    | mismatch hentry' =>
      obtain rfl := Option.some.inj (hentry.symm.trans hentry')
      rfl
    | expands hentry' hgives | rejects hentry' hgives =>
      obtain rfl := Option.some.inj (hentry.symm.trans hentry')
      exact absurd hgives.role hrole

/-- An answer that is no error of dispatch is that of a macro which takes the site in its role. -/
theorem Site.Answers.handled (h : site.Answers registry services before result after) :
    (∀ expansion, result = .ok expansion → ∃ entry, registry.lookup? site.macroName = some entry ∧
      entry.handler.Gives site services (.ok expansion)) ∧
    ∀ name failure, result = .error (.rejected name failure) →
      ∃ entry, registry.lookup? site.macroName = some entry ∧
        ∃ span, entry.handler.Gives site services (.error ⟨failure, span⟩) := by
  cases h with
  | unknown | mismatch => exact ⟨nofun, nofun⟩
  | expands hentry hgives =>
    refine ⟨fun expansion hok => ?_, nofun⟩
    cases hok
    exact ⟨_, hentry, hgives⟩
  | rejects hentry hgives =>
    refine ⟨nofun, fun name failure herror => ?_⟩
    cases herror
    exact ⟨_, hentry, _, hgives⟩

end Answers

/-- Expanding a site with the standard macros reports each rejection once and nothing else. A name is
unknown exactly if no macro has it, a role is wrong exactly if the macro with the name has another, and
in all other cases the macro with the name has decided, in its own role. -/
theorem expand_reports (site : Site) (services : Services) (before : List Diagnostic) :
    let answer := site.expand Registry.standard services before
    Reported site before answer.2 answer.1 ∧
    (∀ name, answer.1 = .error (.unknownMacro name) ↔
      name = site.macroName ∧ ∀ entry ∈ Registry.standard, entry.name ≠ name) ∧
    (∀ name expected found, answer.1 = .error (.roleMismatch name expected found) ↔
      name = site.macroName ∧ found = site.role ∧ expected ≠ found ∧
        ∃ entry ∈ Registry.standard, entry.name = name ∧ entry.role = expected) ∧
    (∀ expansion, answer.1 = .ok expansion → ∃ entry ∈ Registry.standard,
      entry.name = site.macroName ∧ entry.handler.Gives site services (.ok expansion)) ∧
    ∀ name failure, answer.1 = .error (.rejected name failure) → ∃ entry ∈ Registry.standard,
      entry.name = site.macroName ∧ ∃ span, entry.handler.Gives site services (.error ⟨failure, span⟩) := by
  have h := answers_of_expand site Registry.standard services before
  refine ⟨h.reported, fun name => ?_, fun name expected found => ?_, fun expansion hok => ?_,
    fun name failure herror => ?_⟩
  · rw [h.unknown_iff, Registry.lookup?_eq_none_iff]
  · rw [h.mismatch_iff]
    simp only [Registry.lookup?_standard_eq_some, and_assoc]
  · obtain ⟨entry, hentry, hgives⟩ := h.handled.1 expansion hok
    obtain ⟨hmem, hname⟩ := mem_of_lookup? hentry
    exact ⟨entry, hmem, hname.symm, hgives⟩
  · obtain ⟨entry, hentry, hgives⟩ := h.handled.2 name failure herror
    obtain ⟨hmem, hname⟩ := mem_of_lookup? hentry
    exact ⟨entry, hmem, hname.symm, hgives⟩

end SwiftMacro
