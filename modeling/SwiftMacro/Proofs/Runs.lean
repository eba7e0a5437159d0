import SwiftMacro.Command
import SwiftMacro.Proofs.Batches
import SwiftMacro.Proofs.JsonText
/-!
# Runs over files

The commands that expand files differ in what they write. They go through the files in the same way
and keep one account of it: `SourceFile.Becomes` lists what can become of a file, `Expands` what is left of
files that do not end the run, and `through_accounts` says what the account holds after them.
`run_modes_agree` says that all commands end with the same exit code, that each of them writes about the
outcomes of the same files, and that what it writes has as many parts as the account says.
-/

namespace SwiftMacro

/-! ## Outcomes of sites -/

section Settles

variable {registry : Registry} {services : Services} {site : Site} {o : SiteOutcome}

/-- A site that was expanded leaves no diagnostic, and a rejected one leaves one. -/
theorem Site.Settles.length_diagnostics (h : site.Settles registry services o) :
    o.diagnostics.length = if o.isSuccess then 0 else 1 := by
  obtain ⟨site', result, diagnostics⟩ := o
  obtain ⟨-, hexpand, hfatal⟩ := h
  have hanswers := answers_of_expand site registry services []
  rw [hexpand] at hanswers
  cases hanswers with
  | unknown | mismatch => cases hfatal _ rfl
  | expands | rejects => rfl

theorem Site.Settles.isSuccess_eq_false_iff (h : site.Settles registry services o) :
    o.isSuccess = false ↔
      ∃ name failure, (site.expand registry services []).1 = .error (.rejected name failure) := by
  obtain ⟨site', result, diagnostics⟩ := o
  obtain ⟨-, hexpand, hfatal⟩ := h
  rw [hexpand]
  cases result with
  | ok expansion => simp [SiteOutcome.isSuccess]
  | error e =>
    cases e with
    | rejected name failure => simp [SiteOutcome.isSuccess]
    | unknownMacro | roleMismatch => cases hfatal _ rfl

theorem Site.Settles.not_aborts (h : site.Settles registry services o) (e : ExpansionError) :
    ¬ site.Aborts registry services e := by
  rw [← outcome_eq_error_iff, outcome_eq_ok_iff.2 h]
  nofun

/-- Among outcomes of sites there are as many diagnostics as rejections. -/
theorem length_flatMap_diagnostics {outcomes : List SiteOutcome}
    (h : ∀ o ∈ outcomes, ∃ site : Site, site.Settles registry services o) :
    (outcomes.flatMap (·.diagnostics)).length = (outcomes.filter (!·.isSuccess)).length := by
  induction outcomes with
  | nil => rfl
  | cons o outcomes ih =>
    obtain ⟨site, hsettles⟩ := h o List.mem_cons_self
    rw [List.flatMap_cons, List.length_append, hsettles.length_diagnostics,
      ih fun o ho => h o (List.mem_cons_of_mem _ ho)]
    cases hsuccess : o.isSuccess with
    | true => simp [hsuccess]
    | false => simp [hsuccess, Nat.add_comm]

end Settles

/-! ## Sorted reports -/

namespace Json

/-- Where a field is put does not matter to looking fields up: it never goes behind one with its own
name. -/
theorem find?_insertField (name : String) (field : String × Json) (fields : List (String × Json)) :
    (insertField field fields).find? (·.1 == name) = (field :: fields).find? (·.1 == name) := by
  induction fields with
  | nil => rfl
  | cons other rest ih =>
    rw [insertField]
    split
    · rfl
    · next hle =>
      have hne : other.1 ≠ field.1 := fun heq => hle (heq ▸ String.le_refl _)
      rw [List.find?_cons, ih]
      grind

theorem find?_sortedFields (name : String) (fields : List (String × Json)) :
    (sortedFields fields).find? (·.1 == name) =
      (fields.find? (·.1 == name)).map fun field => (field.1, field.2.sorted) := by
  induction fields with
  | nil => rfl
  | cons field rest ih =>
    rw [sortedFields, find?_insertField, List.find?_cons, List.find?_cons, ih]
    cases field.1 == name <;> rfl

theorem field?_sorted (j : Json) (name : String) :
    j.sorted.field? name = (j.field? name).map sorted := by
  cases j with
  | obj fields =>
    rw [sorted, field?, field?, find?_sortedFields, Option.map_map, Option.map_map]
    rfl
  | _ => rfl

theorem sortedItems_eq_map (items : List Json) : sortedItems items = items.map sorted := by
  induction items with
  | nil => rfl
  | cons j js ih => rw [sortedItems, ih, List.map_cons]

theorem arr?_sorted (j : Json) : j.sorted.arr? = j.arr?.map (·.map sorted) := by
  cases j with
  | arr items => rw [sorted, arr?, arr?, sortedItems_eq_map, Option.map_some]
  | _ => rfl

end Json

/-- The entries of sites in the reports on files. -/
def siteEntries (reports : Json) : List Json :=
  (reports.arr?.getD []).flatMap fun report => ((report.field? "sites").bind Json.arr?).getD []

/-- The outcomes in files, in order. -/
def outcomesIn (files : List (String × List SiteOutcome)) : List SiteOutcome := files.flatMap (·.2)

/-- The reports on files. -/
def reportsOn (files : List (String × List SiteOutcome)) : Json :=
  (Json.arr (files.map fun (path, outcomes) => fileReport path outcomes)).sorted

theorem siteEntries_reportsOn (files : List (String × List SiteOutcome)) :
    siteEntries (reportsOn files) = (outcomesIn files).map fun o => o.toJson.sorted := by
  have hreport : ∀ file : String × List SiteOutcome,
      (((fileReport file.1 file.2).sorted.field? "sites").bind Json.arr?).getD [] =
        file.2.map fun o => o.toJson.sorted := by
    intro file
    have hfield : (fileReport file.1 file.2).field? "sites" = some (.arr (file.2.map SiteOutcome.toJson)) :=
      rfl
    rw [Json.field?_sorted, hfield, Option.map_some, Option.bind_some, Json.arr?_sorted, Json.arr?,
      Option.map_some, Option.getD_some, List.map_map]
    rfl
  rw [siteEntries, reportsOn, outcomesIn, Json.arr?_sorted, Json.arr?, Option.map_some,
    Option.getD_some, List.map_map, List.flatMap_map, List.map_flatMap]
  exact congrArg List.flatten (List.map_congr_left fun file _ => hreport file)

/-- The entry of a site has its diagnostics if it was rejected, and otherwise its expansion. -/
theorem SiteOutcome.field?_toJson (o : SiteOutcome) :
    (o.toJson.sorted.field? "diagnostics").isSome = !o.isSuccess ∧
      (o.toJson.sorted.field? "expansion").isSome = o.isSuccess := by
  obtain ⟨site, result, diagnostics⟩ := o
  rw [Json.field?_sorted, Json.field?_sorted, Option.isSome_map, Option.isSome_map]
  cases result <;> exact ⟨rfl, rfl⟩

namespace Command

/-! ## One file -/

namespace SourceFile

/-- The file cannot be read as a text, or its text not be parsed. -/
def IsUnreadable (f : SourceFile) : Prop :=
  ∀ text, f.content = .ok text → ∃ e, readSource text = .error e

/-- The file can be read, and the site is one of its sites. -/
def Holds (f : SourceFile) (site : Site) : Prop :=
  ∃ text items, f.content = .ok text ∧ readSource text = .ok items ∧
    site ∈ Registry.standard.sites ⟨f.path, text⟩ items

variable (services : Services)

/-- A site of the file ends the run. -/
def HoldsFatal (f : SourceFile) : Prop :=
  ∃ site e, f.Holds site ∧ site.Aborts Registry.standard services e

/-- A site of the file is rejected. -/
def HoldsRejected (f : SourceFile) : Prop :=
  ∃ site name failure, f.Holds site ∧
    (site.expand Registry.standard services []).1 = .error (.rejected name failure)

/-- What can become of a file. -/
inductive Becomes (f : SourceFile) : FileOutcome → Prop
  | unreadable (h : f.IsUnreadable) : Becomes f .unreadable
  | fatal {text : String} {items : List Node} {e : ExpansionError} (hcontent : f.content = .ok text)
      (hread : readSource text = .ok items)
      (h : expandAll Registry.standard services (Registry.standard.sites ⟨f.path, text⟩ items) =
        .error e) :
      Becomes f (.fatal e)
  | expanded {text : String} {items : List Node} {outcomes : List SiteOutcome}
      (hcontent : f.content = .ok text) (hread : readSource text = .ok items)
      (h : expandAll Registry.standard services (Registry.standard.sites ⟨f.path, text⟩ items) =
        .ok outcomes) :
      Becomes f (.expanded outcomes)

variable {services}

/-- It makes no difference to a file whether its sites are expanded on a pool. -/
theorem outcome_parallel (services : Services) (parallel : Bool) (f : SourceFile) :
    f.outcome services parallel = f.outcome services false := by
  have hexpand : expandAllParallel = expandAll := by
    funext registry services sites
    exact collect_eq_expandAll registry services sites
  cases parallel with
  | false => rfl
  | true => simp only [outcome, hexpand, ite_self]

/-- Nothing else can become of a file. -/
theorem becomes (services : Services) (parallel : Bool) (f : SourceFile) :
    f.Becomes services (f.outcome services parallel) := by
  rw [outcome_parallel]
  unfold outcome
  split
  · next problem hcontent => exact .unreadable fun text htext => nomatch hcontent.symm.trans htext
  · next text hcontent =>
    split
    · next e hread =>
      refine .unreadable fun text' htext' => ⟨e, ?_⟩
      obtain rfl := Except.ok.inj (hcontent.symm.trans htext')
      exact hread
    · next items hread =>
      simp only [Bool.false_eq_true, if_false]
      split
      · next e h => exact .fatal hcontent hread h
      · next outcomes h => exact .expanded hcontent hread h

theorem holds_iff {f : SourceFile} {text : String} {items : List Node} (hcontent : f.content = .ok text)
    (hread : readSource text = .ok items) (site : Site) :
    f.Holds site ↔ site ∈ Registry.standard.sites ⟨f.path, text⟩ items := by
  constructor
  · rintro ⟨text', items', hcontent', hread', hsite⟩
    obtain rfl := Except.ok.inj (hcontent.symm.trans hcontent')
    obtain rfl := Except.ok.inj (hread.symm.trans hread')
    exact hsite
  · exact fun hsite => ⟨text, items, hcontent, hread, hsite⟩

theorem IsUnreadable.not_holds {f : SourceFile} (h : f.IsUnreadable) (site : Site) : ¬ f.Holds site := by
  rintro ⟨text, items, hcontent, hread, -⟩
  obtain ⟨e, he⟩ := h text hcontent
  cases he.symm.trans hread

theorem not_isUnreadable {f : SourceFile} {text : String} {items : List Node}
    (hcontent : f.content = .ok text) (hread : readSource text = .ok items) : ¬ f.IsUnreadable := by
  intro h
  obtain ⟨e, he⟩ := h text hcontent
  cases he.symm.trans hread

/-- A file ends the run exactly if one of its sites does. -/
theorem Becomes.isFatal_iff {f : SourceFile} {outcome : FileOutcome} (h : f.Becomes services outcome) :
    (∃ e, outcome = .fatal e) ↔ f.HoldsFatal services := by
  cases h with
  | unreadable h =>
    refine iff_of_false nofun ?_
    rintro ⟨site, e, hsite, -⟩
    exact h.not_holds site hsite
  | @fatal text items e hcontent hread h =>
    refine iff_of_true ⟨e, rfl⟩ ?_
    obtain ⟨front, site, back, hsites, -, haborts⟩ := expandAll_eq_error_iff.1 h
    exact ⟨site, e, (holds_iff hcontent hread site).2 (by simp [hsites]), haborts⟩
  | expanded hcontent hread h =>
    refine iff_of_false nofun ?_
    rintro ⟨site, e, hsite, haborts⟩
    obtain ⟨o, -, hsettles⟩ := (partners_of_forall₂ (expandAll_eq_ok_iff.1 h)).1 site
      ((holds_iff hcontent hread site).1 hsite)
    exact hsettles.not_aborts e haborts

/-- The outcomes of a file are those of its sites; one of them is no success exactly if a site is
rejected. -/
theorem Becomes.outcomes {f : SourceFile} {outcomes : List SiteOutcome}
    (h : f.Becomes services (.expanded outcomes)) : ¬ f.IsUnreadable ∧
      (∀ o ∈ outcomes, ∃ site : Site, site.Settles Registry.standard services o) ∧
      ((∃ o ∈ outcomes, o.isSuccess = false) ↔ f.HoldsRejected services) := by
  cases h with
  | @expanded text items _ hcontent hread h =>
    obtain ⟨hsites, houtcomes⟩ := partners_of_forall₂ (expandAll_eq_ok_iff.1 h)
    refine ⟨not_isUnreadable hcontent hread, fun o ho => ?_, ?_, ?_⟩
    · obtain ⟨site, -, hsettles⟩ := houtcomes o ho
      exact ⟨site, hsettles⟩
    · rintro ⟨o, ho, hfailed⟩
      obtain ⟨site, hsite, hsettles⟩ := houtcomes o ho
      obtain ⟨name, failure, hrejected⟩ := hsettles.isSuccess_eq_false_iff.1 hfailed
      exact ⟨site, name, failure, (holds_iff hcontent hread site).2 hsite, hrejected⟩
    · rintro ⟨site, name, failure, hsite, hrejected⟩
      obtain ⟨o, ho, hsettles⟩ := hsites site ((holds_iff hcontent hread site).1 hsite)
      exact ⟨o, ho, hsettles.isSuccess_eq_false_iff.2 ⟨name, failure, hrejected⟩⟩

end SourceFile

/-! ## All files -/

section Summary

variable (s : Summary) (outcomes : List SiteOutcome)

theorem isClean_record : (s.record outcomes).isClean = true ↔
    s.isClean = true ∧ ∀ o ∈ outcomes, o.isSuccess = true := by
  simp only [Summary.record, Summary.isClean, Bool.and_eq_true, beq_iff_eq, Nat.add_eq_zero_iff,
    List.length_eq_zero_iff, List.filter_eq_nil_iff, Bool.not_eq_true', Bool.not_eq_false]
  exact and_right_comm

theorem isClean_recordUnreadable : s.recordUnreadable.isClean = false := by
  simp [Summary.recordUnreadable, Summary.isClean]

end Summary

/-- What is left of files none of which ends the run: the outcomes of the sites of each file that can be
read. -/
inductive Expands (services : Services) : List SourceFile → List (String × List SiteOutcome) → Prop
  | nil : Expands services [] []
  | unreadable {f : SourceFile} {files : List SourceFile} {left : List (String × List SiteOutcome)}
      (hf : f.IsUnreadable) (h : Expands services files left) : Expands services (f :: files) left
  | expanded {f : SourceFile} {files : List SourceFile} {left : List (String × List SiteOutcome)}
      {outcomes : List SiteOutcome} (hf : f.Becomes services (.expanded outcomes))
      (h : Expands services files left) :
      Expands services (f :: files) ((f.path, outcomes) :: left)

theorem Expands.settles {services : Services} {files : List SourceFile}
    {left : List (String × List SiteOutcome)} (h : Expands services files left) :
    ∀ o ∈ outcomesIn left, ∃ site : Site, site.Settles Registry.standard services o := by
  induction h with
  | nil => nofun
  | unreadable _ _ ih => exact ih
  | expanded hf _ ih =>
    intro o ho
    rcases List.mem_append.1 ho with ho | ho
    · exact hf.outcomes.2.1 o ho
    · exact ih o ho

/-- The account of a run that began with the totals `before` and came through the files. -/
structure Accounts (services : Services) (before : Summary) (files : List SourceFile) (p : Progress) :
    Prop where
  expands : Expands services files p.files
  expanded : p.summary.files = before.files + p.files.length
  unreadable : p.summary.files + p.summary.unreadable = before.files + before.unreadable + files.length
  sites : p.summary.sites = before.sites + (outcomesIn p.files).length
  rejected : p.summary.rejected =
    before.rejected + ((outcomesIn p.files).filter (!·.isSuccess)).length
  clean : p.summary.isClean = true ↔ before.isClean = true ∧
    ∀ f ∈ files, ¬ f.IsUnreadable ∧ ¬ f.HoldsRejected services

namespace Accounts

variable {services : Services} {before : Summary} {f : SourceFile} {files : List SourceFile}
  {p : Progress}

theorem start (services : Services) (before : Summary) :
    Accounts services before [] ⟨[], before, false⟩ where
  expands := .nil
  expanded := rfl
  unreadable := rfl
  sites := rfl
  rejected := rfl
  clean := by simp

/-- One file that cannot be read, in front of the others. -/
theorem skip (hf : f.IsUnreadable) (h : Accounts services before.recordUnreadable files p) :
    Accounts services before (f :: files) p where
  expands := .unreadable hf h.expands
  expanded := h.expanded
  unreadable := by rw [h.unreadable, List.length_cons]; simp only [Summary.recordUnreadable]; omega
  sites := h.sites
  rejected := h.rejected
  clean := by
    rw [h.clean, isClean_recordUnreadable]
    refine iff_of_false nofun ?_
    rintro ⟨-, hall⟩
    exact (hall f List.mem_cons_self).1 hf

/-- One file whose sites were expanded, in front of the others. -/
theorem record {outcomes : List SiteOutcome} (hf : f.Becomes services (.expanded outcomes))
    (h : Accounts services (before.record outcomes) files p) :
    Accounts services before (f :: files) { p with files := (f.path, outcomes) :: p.files } where
  expands := .expanded hf h.expands
  expanded := by
    rw [h.expanded, List.length_cons]
    simp only [Summary.record]
    omega
  unreadable := by
    rw [h.unreadable, List.length_cons]
    simp only [Summary.record]
    omega
  sites := by
    rw [h.sites, outcomesIn, outcomesIn, List.flatMap_cons, List.length_append]
    simp only [Summary.record]
    omega
  rejected := by
    rw [h.rejected, outcomesIn, outcomesIn, List.flatMap_cons, List.filter_append, List.length_append]
    simp only [Summary.record]
    omega
  clean := by
    obtain ⟨hread, -, hrejected⟩ := hf.outcomes
    have hall : (∀ o ∈ outcomes, o.isSuccess = true) ↔ ¬ f.HoldsRejected services := by
      rw [← hrejected]
      simp
    rw [h.clean, isClean_record, hall, List.forall_mem_cons, and_assoc, and_iff_right hread]

end Accounts

namespace Progress

variable (services : Services)

theorem through_parallel (parallel : Bool) (before : Summary) (files : List SourceFile) :
    through services parallel before files = through services false before files := by
  induction files generalizing before with
  | nil => rfl
  | cons f files ih => simp only [through, SourceFile.outcome_parallel services parallel, ih]

/-- A run ends early exactly if some file holds a site that ends it. -/
theorem ended_through (before : Summary) (files : List SourceFile) :
    (through services false before files).ended = true ↔ ∃ f ∈ files, f.HoldsFatal services := by
  induction files generalizing before with
  | nil => simp [through]
  | cons f files ih =>
    have hbecomes := f.becomes services false
    have hfatal := hbecomes.isFatal_iff
    rw [through, List.exists_mem_cons_iff, ← hfatal]
    cases f.outcome services false <;> simp [ih]

/-- A run that does not end early keeps account of all files. -/
theorem through_accounts (before : Summary) (files : List SourceFile)
    (h : (through services false before files).ended = false) :
    Accounts services before files (through services false before files) := by
  induction files generalizing before with
  | nil => exact .start services before
  | cons f files ih =>
    have hbecomes := f.becomes services false
    rw [through] at h ⊢
    generalize f.outcome services false = outcome at h hbecomes ⊢
    cases hbecomes with
    | unreadable hf => exact (ih _ h).skip hf
    | fatal => cases h
    | expanded hcontent hread hf => exact (ih _ h).record (.expanded hcontent hread hf)

end Progress

/-! ## Commands -/

/-- The task is to expand the sites of files. -/
def Task.expandsFiles : Task → Bool
  | expand _ _ | check _ => true
  | ast _ | listMacros => false

namespace Workspace

/-- The run cannot start, or some file holds a site that ends it. -/
def CannotGoOn (w : Workspace) : Prop :=
  (∃ e, w.config = .error e) ∨ (∃ e, w.services = .error e) ∨
    ∃ services, w.services = .ok services ∧ ∃ f ∈ w.files, f.HoldsFatal services

/-- Some file cannot be read, or some site is rejected. -/
def HasFlaw (w : Workspace) : Prop :=
  (∃ f ∈ w.files, f.IsUnreadable) ∨
    ∃ services, w.services = .ok services ∧ ∃ f ∈ w.files, f.HoldsRejected services

end Workspace

/-- What a task of expanding files writes about the files that are left; it has as many parts as the totals
say. The text of reports is the text of no other value. -/
inductive Writes (palette : Palette) (summary : Summary) (left : List (String × List SiteOutcome)) :
    Task → String → Prop
  | expansions {paths : List String} (sites : (outcomesIn left).length = summary.sites)
      (rejected : ((outcomesIn left).filter (!·.isSuccess)).length = summary.rejected) :
      Writes palette summary left (.expand paths false)
        (String.join ((outcomesIn left).map (·.text palette)) ++ summary.text palette)
  | reports {paths : List String}
      (unique : ∀ value : Json, value.pretty ++ "\n" = (reportsOn left).pretty ++ "\n" →
        value = reportsOn left)
      (sites : (siteEntries (reportsOn left)).length = summary.sites)
      (rejected : ((siteEntries (reportsOn left)).filter fun entry =>
        (entry.field? "diagnostics").isSome).length = summary.rejected)
      (either : ∀ entry ∈ siteEntries (reportsOn left),
        (entry.field? "diagnostics").isSome = (entry.field? "expansion").isNone) :
      Writes palette summary left (.expand paths true) ((reportsOn left).pretty ++ "\n")
  | diagnostics {paths : List String}
      (rejected : ((outcomesIn left).flatMap (·.diagnostics)).length = summary.rejected) :
      Writes palette summary left (.check paths)
        (String.join (((outcomesIn left).flatMap (·.diagnostics)).map (·.line palette)) ++
          summary.text palette)

section Perform

variable {services : Services} {files : List SourceFile} {p : Progress}

/-- Each command writes what the account of its run says. -/
theorem Accounts.writes (h : Accounts services default files p) (hend : p.ended = false)
    (palette : Palette) (paths : List String) :
    Writes palette p.summary p.files (.expand paths false) (p.expansions palette).text ∧
    Writes palette p.summary p.files (.expand paths true) p.json.text ∧
    Writes palette p.summary p.files (.check paths) (p.diagnostics palette).text := by
  have hsites : (outcomesIn p.files).length = p.summary.sites := by
    rw [h.sites]
    exact (Nat.zero_add _).symm
  have hrejected : ((outcomesIn p.files).filter (!·.isSuccess)).length = p.summary.rejected := by
    rw [h.rejected]
    exact (Nat.zero_add _).symm
  have htotal : p.total palette = p.summary.text palette := by
    rw [Progress.total, hend]
    rfl
  refine ⟨?_, ?_, ?_⟩
  · rw [Progress.expansions, htotal]
    exact .expansions hsites hrejected
  · rw [Progress.json, hend]
    have hentries := siteEntries_reportsOn p.files
    refine .reports (fun value hvalue => ?_) ?_ ?_ ?_
    · exact Json.pretty_injective (String.append_left_inj _ |>.1 hvalue)
    · rw [hentries, List.length_map]
      exact hsites
    · rw [hentries, List.filter_map, List.length_map, ← hrejected]
      refine congrArg List.length (List.filter_congr fun o _ => ?_)
      exact o.field?_toJson.1
    · intro entry hentry
      rw [hentries] at hentry
      obtain ⟨o, -, rfl⟩ := List.mem_map.1 hentry
      rw [o.field?_toJson.1, ← Option.not_isSome, o.field?_toJson.2]
  · rw [Progress.diagnostics, htotal]
    exact .diagnostics ((length_flatMap_diagnostics h.expands.settles).trans hrejected)

variable {w : Workspace} {a : Arguments}

theorem code_of_unusable (h : (∃ e, w.config = .error e) ∨ ∃ e, w.services = .error e)
    (ha : a.task.expandsFiles = true) : (perform a w).code = 2 := by
  unfold perform
  rcases h with ⟨e, he⟩ | ⟨e, he⟩
  · rw [he]
    rfl
  · simp only [he]
    split
    · rfl
    · cases htask : a.task <;> first | rfl | simp [htask, Task.expandsFiles] at ha

/-- All tasks of expanding files end as the account of one run says. -/
theorem perform_of_services {config : Config} (hconfig : w.config = .ok config)
    (hservices : w.services = .ok services) (ha : a.task.expandsFiles = true)
    (hp : Progress.through services false default w.files = p) : (perform a w).code = p.code ∧
      (p.ended = false → Writes (palette a.color) p.summary p.files a.task (perform a w).text) := by
  have haccounts : p.ended = false → Accounts services default w.files p := by
    subst hp
    exact Progress.through_accounts services default w.files
  unfold perform
  simp only [hconfig, hservices, Progress.through_parallel services a.parallel, hp]
  cases htask : a.task with
  | expand paths json =>
    cases json with
    | false => exact ⟨rfl, fun hend => ((haccounts hend).writes hend (palette a.color) paths).1⟩
    | true => exact ⟨rfl, fun hend => ((haccounts hend).writes hend (palette a.color) paths).2.1⟩
  | check paths => exact ⟨rfl, fun hend => ((haccounts hend).writes hend (palette a.color) paths).2.2⟩
  | ast | listMacros =>
    rw [htask] at ha
    cases ha

theorem cannotGoOn_iff {config : Config} (hconfig : w.config = .ok config)
    (hservices : w.services = .ok services) :
    w.CannotGoOn ↔ ∃ f ∈ w.files, f.HoldsFatal services := by
  simp [Workspace.CannotGoOn, hconfig, hservices]

theorem hasFlaw_iff (hservices : w.services = .ok services) :
    w.HasFlaw ↔ ¬ ∀ f ∈ w.files, ¬ f.IsUnreadable ∧ ¬ f.HoldsRejected services := by
  simp only [Workspace.HasFlaw, hservices, Except.ok.injEq, exists_eq_left']
  grind

/-- The three ends of a run. -/
theorem code_cases {config : Config} (hconfig : w.config = .ok config)
    (hservices : w.services = .ok services) :
    let p := Progress.through services false default w.files
    (p.code = 2 ∧ w.CannotGoOn) ∨ (p.code = 1 ∧ ¬ w.CannotGoOn ∧ w.HasFlaw) ∨
      (p.code = 0 ∧ ¬ w.CannotGoOn ∧ ¬ w.HasFlaw) := by
  intro p
  have hended : p.ended = true ↔ w.CannotGoOn :=
    (Progress.ended_through services default w.files).trans (cannotGoOn_iff hconfig hservices).symm
  cases hend : p.ended with
  | true => exact .inl ⟨by rw [Progress.code, hend]; rfl, hended.1 hend⟩
  | false =>
    have hgoes : ¬ w.CannotGoOn := fun h => Bool.false_ne_true (hend.symm.trans (hended.2 h))
    have hclean : p.summary.isClean = true ↔ ¬ w.HasFlaw := by
      rw [(Progress.through_accounts services default w.files hend).clean, hasFlaw_iff hservices, not_not]
      exact and_iff_right rfl
    refine .inr ?_
    rw [← hclean, Progress.code, hend]
    cases h : p.summary.isClean with
    | true => exact .inr ⟨rfl, hgoes, rfl⟩
    | false => exact .inl ⟨rfl, hgoes, not_not.1 fun hflaw => by rw [hclean.2 hflaw] at h; cases h⟩

end Perform

/-- All commands that expand files, on a pool or not, end with the same exit code: 2 if the run cannot
start or a file holds a site that ends it, else 1 if a file cannot be read or a site is rejected, else
0. Unless it is 2, the same outcomes are left of the files for all of them, and the same totals, which count
every file; what each command writes is about these outcomes, and it has as many entries, rejections and
diagnostics as the totals say. -/
theorem run_modes_agree (w : Workspace) :
    ∃ code,
      (∀ a : Arguments, a.task.expandsFiles = true → (perform a w).code = code) ∧
      (code = 2 ↔ w.CannotGoOn) ∧ (code = 1 ↔ ¬ w.CannotGoOn ∧ w.HasFlaw) ∧
      (code = 0 ↔ ¬ w.CannotGoOn ∧ ¬ w.HasFlaw) ∧
      (code ≠ 2 → ∃ services left summary, w.services = .ok services ∧ Expands services w.files left ∧
        (∀ parallel, Progress.through services parallel default w.files = ⟨left, summary, false⟩) ∧
        summary.files = left.length ∧ summary.files + summary.unreadable = w.files.length ∧
        ∀ a : Arguments, a.task.expandsFiles = true →
          Writes (palette a.color) summary left a.task (perform a w).text) := by
  by_cases hunusable : (∃ e, w.config = .error e) ∨ ∃ e, w.services = .error e
  · have hcannot : w.CannotGoOn := or_assoc.1 (.inl hunusable)
    refine ⟨2, fun a => code_of_unusable hunusable, ?_, ?_, ?_, fun hcode => absurd rfl hcode⟩
    · exact iff_of_true rfl hcannot
    · exact iff_of_false (by decide) fun h => h.1 hcannot
    · exact iff_of_false (by decide) fun h => h.1 hcannot
  cases hconfig : w.config with
  | error e => exact absurd (.inl ⟨e, hconfig⟩) hunusable
  | ok config =>
    cases hservices : w.services with
    | error e => exact absurd (.inr ⟨e, hservices⟩) hunusable
    | ok services =>
      have hcode := code_cases hconfig hservices
      generalize hp : Progress.through services false default w.files = p at hcode
      refine ⟨p.code, fun a ha => (perform_of_services hconfig hservices ha hp).1, by grind, by grind,
        by grind, fun hne => ?_⟩
      have hend : p.ended = false := by
        refine Bool.eq_false_iff.2 fun hend => hne ?_
        rw [Progress.code, hend]
        rfl
      have haccounts : Accounts services default w.files p :=
        hp ▸ Progress.through_accounts services default w.files (hp ▸ hend)
      refine ⟨services, p.files, p.summary, rfl, haccounts.expands, fun parallel => ?_, ?_, ?_,
        fun a ha => (perform_of_services hconfig hservices ha hp).2 hend⟩
      · rw [Progress.through_parallel, hp, ← hend]
      · exact haccounts.expanded.trans (Nat.zero_add _)
      · exact haccounts.unreadable.trans (Nat.zero_add _)

theorem run_modes_agree_mixed :
    let w : Workspace := ⟨.ok default, .ok default, [⟨"a.swift", .error .missing⟩,
      ⟨"b.swift", .ok "let"⟩, ⟨"c.swift", .ok "#stringify(1) #stringify()"⟩]⟩
    let a : Arguments := ⟨none, none, true, false, .never, .check ["."]⟩
    (∀ a' : Arguments, a'.task.expandsFiles = true → (perform a' w).code = 1) ∧
      ∃ left, left.map Prod.fst = ["c.swift"] ∧ Expands default w.files left ∧
        Writes (palette .never) ⟨1, 2, 1, 2⟩ left (.check ["."]) (perform a w).text := by
  intro w a
  obtain ⟨code, hcode, -, -, -, htotals⟩ := run_modes_agree w
  have hone : (perform a w).code = 1 := by decide +kernel
  obtain rfl : code = 1 := (hcode a rfl).symm.trans hone
  obtain ⟨services, left, summary, hservices, hexpands, hthrough, -, -, hwrites⟩ := htotals (by decide)
  obtain rfl := Except.ok.inj hservices
  have hleft : (Progress.through default true default w.files).files.map Prod.fst = ["c.swift"] := by
    decide +kernel
  have htotal : (Progress.through default true default w.files).summary = ⟨1, 2, 1, 2⟩ := by
    decide +kernel
  rw [hthrough true] at hleft htotal
  obtain rfl : summary = ⟨1, 2, 1, 2⟩ := htotal
  exact ⟨hcode, left, hleft, hexpands, hwrites a rfl⟩

end Command
end SwiftMacro
