import Mathlib.Data.List.Forall2
import Mathlib.Logic.Relation
import SwiftMacro.Proofs.Dispatch
import SwiftMacro.Proofs.Sites
/-!
# Batches

A batch expands each site with diagnostics of its own, so its outcomes are those of the sites one by
one, or the error of the first site that ends it (`expandAll_eq_ok_iff`, `expandAll_eq_error_iff`).
On a pool the sites are tasks that start and finish in any order; each leaves its result in its own
place. `Pool.Step` is one such event. What every step keeps (`Tracks.step`) holds after every run, so
the results do not show the order (`batch_pointwise`).

The sites that are found in a source end a batch in one way only, and `sourceBatch_aborts_iff` says
when.
-/

namespace SwiftMacro

variable (registry : Registry) (services : Services)

/-! ## One site -/

/-- The outcome of a site that is expanded on its own and does not end a batch. -/
def Site.Settles (site : Site) (o : SiteOutcome) : Prop :=
  o.site = site ∧ site.expand registry services [] = (o.result, o.diagnostics) ∧
    ∀ e, o.result = .error e → e.isFatal = false

/-- The error of a site that ends a batch when it is expanded on its own. -/
def Site.Aborts (site : Site) (e : ExpansionError) : Prop :=
  (site.expand registry services []).1 = .error e ∧ e.isFatal = true

section Outcome

variable {registry services} {site : Site}

theorem outcome_eq_ok_iff {o : SiteOutcome} :
    site.outcome registry services = .ok o ↔ site.Settles registry services o := by
  unfold Site.outcome Site.Settles
  obtain ⟨result, diagnostics⟩ := site.expand registry services []
  obtain ⟨site', result', diagnostics'⟩ := o
  cases result with
  | ok expansion =>
    simp only [Except.ok.injEq, SiteOutcome.mk.injEq, Prod.mk.injEq]
    grind
  | error e => cases he : e.isFatal <;> simp [he] <;> grind

theorem outcome_eq_error_iff {e : ExpansionError} :
    site.outcome registry services = .error e ↔ site.Aborts registry services e := by
  unfold Site.outcome Site.Aborts
  obtain ⟨result, diagnostics⟩ := site.expand registry services []
  cases result with
  | ok expansion => simp
  | error e' => cases he : e'.isFatal <;> simp [he] <;> grind

theorem settles_or_aborts (registry : Registry) (services : Services) (site : Site) :
    (∃ o, site.Settles registry services o) ∨ ∃ e, site.Aborts registry services e := by
  cases h : site.outcome registry services with
  | ok o => exact .inl ⟨o, outcome_eq_ok_iff.1 h⟩
  | error e => exact .inr ⟨e, outcome_eq_error_iff.1 h⟩

end Outcome

/-! ## One site after the other -/

/-- Of two lists related element by element, each element has a partner in the other one. -/
theorem partners_of_forall₂ {α β : Type} {R : α → β → Prop} {as : List α} {bs : List β}
    (h : List.Forall₂ R as bs) :
    (∀ a ∈ as, ∃ b ∈ bs, R a b) ∧ ∀ b ∈ bs, ∃ a ∈ as, R a b := by
  induction h with
  | nil => simp
  | cons hab _ ih => simp only [List.mem_cons]; grind

section Sequence

variable {registry services}

theorem expandAll_cons_ok {site : Site} {sites : List Site} {outcomes : List SiteOutcome} :
    expandAll registry services (site :: sites) = .ok outcomes ↔
      ∃ o os, site.Settles registry services o ∧ expandAll registry services sites = .ok os ∧
        outcomes = o :: os := by
  simp only [expandAll, ← outcome_eq_ok_iff]
  cases site.outcome registry services with
  | error e => simp
  | ok o =>
    cases expandAll registry services sites with
    | error e => simp
    | ok os => simp [eq_comm]

theorem expandAll_cons_error {site : Site} {sites : List Site} {e : ExpansionError} :
    expandAll registry services (site :: sites) = .error e ↔
      site.Aborts registry services e ∨
        (∃ o, site.Settles registry services o) ∧ expandAll registry services sites = .error e := by
  simp only [expandAll, ← outcome_eq_ok_iff, ← outcome_eq_error_iff]
  cases site.outcome registry services with
  | error e' => simp
  | ok o =>
    cases expandAll registry services sites with
    | error e' => simp
    | ok os => simp

/-- A batch that goes through gives each site its own outcome, in order. -/
theorem expandAll_eq_ok_iff {sites : List Site} {outcomes : List SiteOutcome} :
    expandAll registry services sites = .ok outcomes ↔
      List.Forall₂ (Site.Settles registry services) sites outcomes := by
  induction sites generalizing outcomes with
  | nil => simp [expandAll, eq_comm]
  | cons site sites ih =>
    rw [expandAll_cons_ok, List.forall₂_cons_left_iff]
    simp only [ih]

/-- A batch that does not go through gives the error of the first site that ends it. -/
theorem expandAll_eq_error_iff {sites : List Site} {e : ExpansionError} :
    expandAll registry services sites = .error e ↔
      ∃ front site back, sites = front ++ site :: back ∧
        (∀ s ∈ front, ∃ o, s.Settles registry services o) ∧ site.Aborts registry services e := by
  induction sites with
  | nil => simp [expandAll]
  | cons site sites ih =>
    rw [expandAll_cons_error, ih]
    constructor
    · rintro (haborts | ⟨hsettles, front, site', back, rfl, hfront, haborts⟩)
      · exact ⟨[], site, sites, rfl, by simp, haborts⟩
      · refine ⟨site :: front, site', back, rfl, ?_, haborts⟩
        intro s hs
        rcases List.mem_cons.1 hs with rfl | hs
        · exact hsettles
        · exact hfront s hs
    · rintro ⟨front, site', back, hsites, hfront, haborts⟩
      cases front with
      | nil =>
        obtain ⟨rfl, rfl⟩ := List.cons.inj hsites
        exact .inl haborts
      | cons s front =>
        obtain ⟨rfl, rfl⟩ := List.cons.inj hsites
        refine .inr ⟨hfront site List.mem_cons_self, front, site', back, rfl, ?_, haborts⟩
        exact fun t ht => hfront t (List.mem_cons_of_mem _ ht)

/-- One more site that does not end the batch gives one more outcome and changes no other. -/
theorem expandAll_insert {front back : List Site} {site : Site} {o : SiteOutcome}
    {os os' : List SiteOutcome} (hsite : site.Settles registry services o)
    (hlength : os.length = front.length) :
    expandAll registry services (front ++ site :: back) = .ok (os ++ o :: os') ↔
      expandAll registry services (front ++ back) = .ok (os ++ os') := by
  induction front generalizing os with
  | nil =>
    obtain rfl := List.length_eq_zero_iff.1 hlength
    simp only [List.nil_append, expandAll_cons_ok, List.cons.injEq]
    constructor
    · rintro ⟨_, _, -, hback, -, rfl⟩
      exact hback
    · intro hback
      exact ⟨o, os', hsite, hback, rfl, rfl⟩
  | cons s front ih =>
    obtain ⟨p, os, rfl⟩ := List.exists_cons_of_length_eq_add_one hlength
    have ih := ih (Nat.succ.inj hlength)
    simp only [List.cons_append, expandAll_cons_ok, List.cons.injEq]
    constructor
    · rintro ⟨_, _, hs, hback, rfl, rfl⟩
      exact ⟨p, _, hs, ih.1 hback, rfl, rfl⟩
    · rintro ⟨_, _, hs, hback, rfl, rfl⟩
      exact ⟨p, _, hs, ih.2 hback, rfl, rfl⟩

end Sequence

/-! ## Tasks on a pool -/

/-- A site on its way through a pool. -/
inductive Task where
  | waiting (site : Site)
  | running (site : Site)
  | finished (result : Except ExpansionError SiteOutcome)

namespace Task

/-- The result, once there is one. -/
def result? : Task → Option (Except ExpansionError SiteOutcome)
  | finished result => some result
  | _ => none

/-- The task belongs to the site: it is on its way or holds the result of expanding it on its own. -/
def Tracks (site : Site) : Task → Prop
  | waiting s | running s => s = site
  | finished result => result = site.outcome registry services

end Task

/-- One event on a pool: a task starts, or it finishes and leaves its result in its own place. -/
inductive Pool.Step : List Task → List Task → Prop
  | start (front back : List Task) (site : Site) :
      Step (front ++ .waiting site :: back) (front ++ .running site :: back)
  | finish (front back : List Task) (site : Site) :
      Step (front ++ .running site :: back)
        (front ++ .finished (site.outcome registry services) :: back)

/-- Tasks after any number of events. -/
def Pool.Runs : List Task → List Task → Prop := Relation.ReflTransGen (Pool.Step registry services)

/-- Each task belongs to the site in its place. -/
def Tracks (sites : List Site) (tasks : List Task) : Prop :=
  List.Forall₂ (Task.Tracks registry services) sites tasks

section Pool

variable {registry services} {sites : List Site} {tasks tasks' : List Task}

theorem tracks_waiting (sites : List Site) :
    Tracks registry services sites (sites.map .waiting) := by
  induction sites with
  | nil => exact .nil
  | cons site sites ih => exact .cons rfl ih

/-- A task may take the place of one with the same site. -/
theorem Tracks.replace {front back : List Task} {old new : Task}
    (hnew : ∀ site, old.Tracks registry services site → new.Tracks registry services site)
    (h : Tracks registry services sites (front ++ old :: back)) :
    Tracks registry services sites (front ++ new :: back) := by
  induction front generalizing sites with
  | nil =>
    obtain ⟨site, rest, hsite, hrest, rfl⟩ := List.forall₂_cons_right_iff.1 h
    exact .cons (hnew site hsite) hrest
  | cons task front ih =>
    obtain ⟨site, rest, hsite, hrest, rfl⟩ := List.forall₂_cons_right_iff.1 h
    exact .cons hsite (ih hrest)

/-- No event moves a task to another place or gives it the result of another site. -/
theorem Tracks.step (h : Tracks registry services sites tasks)
    (hstep : Pool.Step registry services tasks tasks') : Tracks registry services sites tasks' := by
  cases hstep with
  | start front back site =>
    refine h.replace fun site' htracks => ?_
    exact htracks
  | finish front back site =>
    refine h.replace fun site' htracks => ?_
    obtain rfl : site = site' := htracks
    exact rfl

theorem Tracks.run (h : Tracks registry services sites tasks)
    (hrun : Pool.Runs registry services tasks tasks') : Tracks registry services sites tasks' := by
  induction hrun with
  | refl => exact h
  | tail _ hstep ih => exact ih.step hstep

/-- When all tasks are finished, the results are those of the sites one by one. -/
theorem Tracks.results (h : Tracks registry services sites tasks)
    (hdone : ∀ task ∈ tasks, task.result?.isSome = true) :
    tasks.filterMap Task.result? = sites.map fun site => site.outcome registry services := by
  induction h with
  | nil => rfl
  | @cons site task sites tasks hsite _ ih =>
    have hrest := ih fun t ht => hdone t (List.mem_cons_of_mem _ ht)
    have htask := hdone task List.mem_cons_self
    cases task with
    | waiting | running => cases htask
    | finished result =>
      obtain rfl : result = site.outcome registry services := hsite
      rw [List.map_cons, ← hrest]
      rfl

/-- Events on the other tasks do not keep a task from running. -/
theorem Pool.Runs.cons (task : Task) (h : Pool.Runs registry services tasks tasks') :
    Pool.Runs registry services (task :: tasks) (task :: tasks') := by
  induction h with
  | refl => exact .refl
  | tail _ hstep ih =>
    refine ih.tail ?_
    cases hstep with
    | start front back site => exact .start (task :: front) back site
    | finish front back site => exact .finish (task :: front) back site

/-- However far a batch has come, it can be finished. -/
theorem exists_finished (registry : Registry) (services : Services) (tasks : List Task) :
    ∃ final, Pool.Runs registry services tasks final ∧
      ∀ task ∈ final, task.result?.isSome = true := by
  induction tasks with
  | nil => exact ⟨[], .refl, by simp⟩
  | cons task tasks ih =>
    -- The tasks behind can run to their end while this one waits or runs.
    obtain ⟨final, hruns, hdone⟩ := ih
    have hfinish : ∀ site, Pool.Runs registry services (.running site :: tasks)
        (.finished (site.outcome registry services) :: final) := fun site =>
      .head (.finish [] tasks site) (hruns.cons _)
    have hhead : ∀ result, ∀ t ∈ Task.finished result :: final, t.result?.isSome = true := by
      intro result t ht
      rcases List.mem_cons.1 ht with rfl | ht
      · rfl
      · exact hdone t ht
    cases task with
    | waiting site => exact ⟨_, .head (.start [] tasks site) (hfinish site), hhead _⟩
    | running site => exact ⟨_, hfinish site, hhead _⟩
    | finished result => exact ⟨_, hruns.cons _, hhead _⟩

end Pool

theorem collect_eq_expandAll (sites : List Site) :
    collect (sites.map fun site => site.outcome registry services) =
      expandAll registry services sites := by
  induction sites with
  | nil => rfl
  | cons site sites ih =>
    rw [List.map_cons, expandAll]
    cases site.outcome registry services with
    | error e => rfl
    | ok o =>
      simp only [collect, ih]
      cases expandAll registry services sites <;> rfl

/-- A batch gives each site the outcome it has on its own, in order, or the error of the first site
that ends it; a site that does not end it changes no other outcome. On a pool, every order of events
ends with the same result. -/
theorem batch_pointwise (sites : List Site) :
    ((∀ site ∈ sites, ∀ e, ¬ site.Aborts registry services e) →
      ∃ outcomes, expandAll registry services sites = .ok outcomes ∧
        List.Forall₂ (Site.Settles registry services) sites outcomes) ∧
    (∀ front site back e, sites = front ++ site :: back →
      (∀ s ∈ front, ∀ e', ¬ s.Aborts registry services e') → site.Aborts registry services e →
      expandAll registry services sites = .error e) ∧
    (∀ front back site o os os', sites = front ++ back → site.Settles registry services o →
      os.length = front.length →
      (expandAll registry services (front ++ site :: back) = .ok (os ++ o :: os') ↔
        expandAll registry services sites = .ok (os ++ os'))) ∧
    expandAllParallel registry services sites = expandAll registry services sites ∧
    ∀ tasks, Pool.Runs registry services (sites.map .waiting) tasks →
      ((∀ task ∈ tasks, task.result?.isSome = true) →
        collect (tasks.filterMap Task.result?) = expandAll registry services sites) ∧
      ∃ final, Pool.Runs registry services tasks final ∧
        ∀ task ∈ final, task.result?.isSome = true := by
  have hsettles : ∀ site : Site, (∀ e, ¬ site.Aborts registry services e) →
      ∃ o, site.Settles registry services o := fun site hsite =>
    (settles_or_aborts registry services site).resolve_right fun ⟨e, he⟩ => hsite e he
  refine ⟨fun hall => ?_, ?_, ?_, collect_eq_expandAll registry services sites, fun tasks hruns => ?_⟩
  · cases h : expandAll registry services sites with
    | ok outcomes => exact ⟨outcomes, rfl, expandAll_eq_ok_iff.1 h⟩
    | error e =>
      obtain ⟨front, site, back, rfl, -, haborts⟩ := expandAll_eq_error_iff.1 h
      exact absurd haborts (hall site (by simp) e)
  · rintro front site back e rfl hfront haborts
    exact expandAll_eq_error_iff.2
      ⟨front, site, back, rfl, fun s hs => hsettles s (hfront s hs), haborts⟩
  · rintro front back site o os os' rfl hsite hlength
    exact expandAll_insert hsite hlength
  · have htracks := (tracks_waiting sites).run hruns
    refine ⟨fun hdone => ?_, exists_finished registry services tasks⟩
    rw [htracks.results hdone, collect_eq_expandAll]

/-! ## The sites of a source -/

section Source

variable {registry services} {source : Source}

/-- A macro that is found takes a site in its role; the site does not end a batch. -/
theorem settles_of_role {site : Site} {entry : MacroEntry}
    (hentry : registry.Finds site.macroName entry) (hrole : entry.role = site.role) :
    ∃ o, site.Settles registry services o := by
  rcases settles_or_aborts registry services site with hsettles | ⟨e, herror, hfatal⟩
  · exact hsettles
  -- A fatal answer says that the name is unknown or the role another one; neither is so here.
  · have hentry := Registry.lookup?_eq_some_iff.2 hentry
    have hanswers := answers_of_expand site registry services []
    rw [herror] at hanswers
    generalize (site.expand registry services []).2 = after at hanswers
    cases hanswers with
    | unknown hnone => rw [hnone] at hentry; cases hentry
    | mismatch hentry' hne =>
      obtain rfl := Option.some.inj (hentry.symm.trans hentry')
      exact absurd hrole hne
    | rejects => cases hfatal

/-- A macro that is found and is for another role ends the batch. -/
theorem aborts_of_role {site : Site} {entry : MacroEntry}
    (hentry : registry.Finds site.macroName entry) (hrole : entry.role ≠ site.role) :
    site.Aborts registry services (.roleMismatch site.macroName entry.role site.role) := by
  refine ⟨?_, rfl⟩
  exact ((answers_of_expand site registry services []).mismatch_iff _ _ _).2
    ⟨rfl, rfl, hrole, entry, Registry.lookup?_eq_some_iff.2 hentry, rfl⟩

variable (registry) in
/-- The node is a macro use with this name, and the name is that of a macro for attributes. -/
def Registry.Misuse (n : Node) (name : String) : Prop :=
  ∃ generics arguments entry, n.shape = .macroUse name generics arguments ∧
    registry.Finds name entry ∧ entry.role = .accessor

variable (registry) in
/-- Whether the node is a macro use with the name of a macro for attributes. -/
def Registry.misuses (n : Node) : Bool := n.macroName?.any registry.isAttached

theorem misuses_iff {n : Node} : registry.misuses n = true ↔ ∃ name, registry.Misuse n name := by
  simp only [Registry.misuses, Option.any_eq_true, Registry.Misuse, Node.macroName?_eq_some_iff,
    Registry.isAttached_iff]
  grind

theorem Registry.Misuse.name_unique {n : Node} {name name' : String} (h : registry.Misuse n name)
    (h' : registry.Misuse n name') : name = name' := by
  obtain ⟨_, _, _, hshape, -⟩ := h
  obtain ⟨_, _, _, hshape', -⟩ := h'
  injection hshape.symm.trans hshape'

theorem attributes_of_macroName? {n : Node} {name : String} (h : n.macroName? = some name) :
    n.attributes = [] := by
  obtain ⟨shape, span⟩ := n
  cases shape <;> first | rfl | cases h

/-- An attribute makes a site only if its macro is for attributes, so it never ends a batch. -/
theorem settles_of_accessorSite? {declaration mark : Node} {site : Site}
    (h : registry.accessorSite? source declaration mark = some site) :
    ∃ o, site.Settles registry services o := by
  obtain ⟨name, _, _, entry, -, hentry, hrole, rfl⟩ :=
    (registry.accessorSite?_eq_some_iff source).1 h
  exact settles_of_role hentry hrole

/-- Of the sites at a node, none ends a batch unless the node is misused. -/
theorem settles_of_mem_sitesAt {n : Node} (hn : registry.misuses n = false) {site : Site}
    (hsite : site ∈ registry.sitesAt source n) : ∃ o, site.Settles registry services o := by
  rw [Registry.sitesAt_eq, List.mem_append, List.mem_filterMap, Option.mem_toList] at hsite
  rcases hsite with ⟨mark, -, hmark⟩ | hself
  · exact settles_of_accessorSite? hmark
  · obtain ⟨name, generics, arguments, hshape, hknown, rfl⟩ :=
      (registry.expressionSite?_eq_some_iff source n).1 hself
    obtain ⟨entry, hentry⟩ := Registry.exists_finds_iff.2 hknown
    refine settles_of_role hentry ?_
    cases hrole : entry.role with
    | expression => rfl
    | accessor =>
      -- Then the name would be one for attributes, and the node misused.
      have hmisuse := misuses_iff.2 ⟨name, generics, arguments, entry, hshape, hentry, hrole⟩
      exact absurd hmisuse (by simp [hn])

/-- A misused node has one site, and it ends the batch. -/
theorem sitesAt_of_misuse (services : Services) (source : Source) {n : Node} {name : String}
    (h : registry.Misuse n name) : ∃ site, registry.sitesAt source n = [site] ∧
      site.Aborts registry services (.roleMismatch name .accessor .expression) := by
  obtain ⟨generics, arguments, entry, hshape, hentry, hrole⟩ := h
  have hself : registry.expressionSite? source n = some ⟨name, .expression, n, none, source⟩ :=
    (registry.expressionSite?_eq_some_iff source n).2
      ⟨name, generics, arguments, hshape, Registry.exists_finds_iff.1 ⟨entry, hentry⟩, rfl⟩
  have hattributes := attributes_of_macroName? (Node.macroName?_eq_some_iff.2 ⟨_, _, hshape⟩)
  refine ⟨⟨name, .expression, n, none, source⟩, ?_, ?_⟩
  · rw [Registry.sitesAt_eq, hattributes, hself]
    rfl
  · rw [← hrole]
    exact aborts_of_role hentry (by rw [hrole]; nofun)

theorem expandAll_append_error {front back : List Site} {e : ExpansionError}
    (hfront : ∀ site ∈ front, ∃ o, site.Settles registry services o) :
    expandAll registry services (front ++ back) = .error e ↔
      expandAll registry services back = .error e := by
  induction front with
  | nil => rfl
  | cons site front ih =>
    have hsite := hfront site List.mem_cons_self
    have hnot : ¬ site.Aborts registry services e := by
      obtain ⟨o, ho⟩ := hsite
      rw [← outcome_eq_error_iff, outcome_eq_ok_iff.2 ho]
      nofun
    rw [List.cons_append, expandAll_cons_error, ih fun s hs => hfront s (List.mem_cons_of_mem _ hs)]
    simp [hsite, hnot]

/-- The first misused node of a walk is what ends the batch of its sites. -/
theorem expandAll_sitesAt_error {nodes : List Node} {e : ExpansionError} :
    expandAll registry services (nodes.flatMap (registry.sitesAt source)) = .error e ↔
      ∃ n name, nodes.find? registry.misuses = some n ∧ registry.Misuse n name ∧
        e = .roleMismatch name .accessor .expression := by
  induction nodes with
  | nil => simp [expandAll]
  | cons n nodes ih =>
    rw [List.flatMap_cons]
    cases hn : registry.misuses n with
    | false =>
      rw [expandAll_append_error fun site hsite => settles_of_mem_sitesAt hn hsite, ih]
      simp [hn]
    | true =>
      obtain ⟨name, hmisuse⟩ := misuses_iff.1 hn
      obtain ⟨site, hsites, haborts⟩ := sitesAt_of_misuse services source hmisuse
      have herror := outcome_eq_error_iff.2 haborts
      simp only [hsites, List.cons_append, List.nil_append, expandAll, herror,
        List.find?_cons_of_pos hn, Except.error.injEq, Option.some.injEq]
      constructor
      · rintro rfl
        exact ⟨n, name, rfl, hmisuse, rfl⟩
      · rintro ⟨_, name', rfl, hmisuse', rfl⟩
        rw [hmisuse.name_unique hmisuse']

end Source

/-- The batch of all sites of a source fails exactly if some macro use in it, at any depth, has the name
of a macro for attributes, and then with the wrong role of the first such use. No name is unknown, and no
site in the role of an accessor ends the batch. -/
theorem sourceBatch_aborts_iff (source : Source) (items : List Node) :
    let batch := expandAll registry services (registry.sites source items)
    (∀ name, batch ≠ .error (.unknownMacro name)) ∧
    ((∃ e, batch = .error e) ↔
      ∃ address n name, nodeAt? items address = some n ∧ registry.Misuse n name) ∧
    (∀ e, batch = .error e ↔ ∃ address n name, nodeAt? items address = some n ∧
      registry.Misuse n name ∧ e = .roleMismatch name .accessor .expression ∧
      ∀ earlier m, earlier.Before address → nodeAt? items earlier = some m →
        ∀ name', ¬ registry.Misuse m name') ∧
    ∀ site ∈ registry.sites source items, site.role = .accessor →
      ∃ o, site.Settles registry services o := by
  have hfirst := fun n => (listed_nodes items).find?_eq_some_iff (p := registry.misuses) (a := n)
  simp only [misuses_iff, ← Bool.not_eq_true, not_exists] at hfirst
  have herror : ∀ e, expandAll registry services (registry.sites source items) = .error e ↔ _ :=
    fun e => expandAll_sitesAt_error
  simp only [hfirst] at herror
  refine ⟨fun name hname => ?_, ?_, fun e => ?_, fun site hsite hrole => ?_⟩
  · obtain ⟨_, _, _, _, h⟩ := (herror _).1 hname
    cases h
  · constructor
    · rintro ⟨e, he⟩
      obtain ⟨n, name, ⟨address, hn, -⟩, hmisuse, -⟩ := (herror e).1 he
      exact ⟨address, n, name, hn, hmisuse⟩
    · rintro ⟨address, n, name, hn, hmisuse⟩
      have hmem := (listed_nodes items).mem_iff.2 ⟨address, hn⟩
      obtain ⟨m, hm⟩ := Option.isSome_iff_exists.1
        (List.find?_isSome.2 ⟨n, hmem, misuses_iff.2 ⟨name, hmisuse⟩⟩)
      obtain ⟨name', hmisuse'⟩ := misuses_iff.1 (List.find?_some hm)
      exact ⟨_, expandAll_sitesAt_error.2 ⟨m, name', hm, hmisuse', rfl⟩⟩
  · rw [herror]
    constructor
    · rintro ⟨n, name, ⟨address, hn, -, hearlier⟩, hmisuse, rfl⟩
      exact ⟨address, n, name, hn, hmisuse, rfl, hearlier⟩
    · rintro ⟨address, n, name, hn, hmisuse, rfl, hearlier⟩
      exact ⟨n, name, ⟨address, hn, ⟨name, hmisuse⟩, hearlier⟩, hmisuse, rfl⟩
  · obtain ⟨n, -, hsite⟩ := List.mem_flatMap.1 hsite
    rw [Registry.sitesAt_eq, List.mem_append, List.mem_filterMap, Option.mem_toList] at hsite
    rcases hsite with ⟨mark, -, hmark⟩ | hself
    · exact settles_of_accessorSite? hmark
    · rw [registry.role_of_mem_expressionSite? source n (Option.mem_toList.2 hself)] at hrole
      cases hrole

/-- The misused name stands inside a macro use that is in order. -/
theorem sourceBatch_aborts_nested : ∃ items,
    readSource "let x = #stringify(f(#iCloudKeyValue<Int>(1)))" = .ok items ∧
    expandAll Registry.standard default (Registry.standard.sites ⟨"f", ""⟩ items) =
      .error (.roleMismatch "iCloudKeyValue" .accessor .expression) := by
  let address : Address :=
    (0, [(.bindings, 0), (.initial, 0), (.arguments, 0), (.arguments, 0)])
  obtain ⟨items, hitems, hmisused⟩ := exists_of_okAnd
    (by decide +kernel : okAnd (readSource "let x = #stringify(f(#iCloudKeyValue<Int>(1)))")
      (fun items => (nodeAt? items address).any Registry.standard.misuses) = true)
  obtain ⟨n, hn, hmisuses⟩ := (Option.any_eq_true _ _).1 hmisused
  obtain ⟨name, hmisuse⟩ := misuses_iff.1 hmisuses
  obtain ⟨-, hiff, hfirst, -⟩ := sourceBatch_aborts_iff Registry.standard default ⟨"f", ""⟩ items
  obtain ⟨e, he⟩ := hiff.2 ⟨address, n, name, hn, hmisuse⟩
  obtain ⟨_, _, name', -, ⟨_, _, entry, -, hentry, hrole⟩, rfl, -⟩ := (hfirst e).1 he
  -- One macro of the standard registry is for attributes.
  have hname : ∀ entry ∈ Registry.standard, entry.role = .accessor → entry.name = "iCloudKeyValue" := by
    simp only [Registry.standard, List.forall_mem_cons, List.not_mem_nil, false_implies, implies_true]
    decide
  obtain ⟨front, back, hsplit, rfl, -⟩ := hentry
  have hmem : entry ∈ Registry.standard := by
    rw [hsplit]
    exact List.mem_append_right _ List.mem_cons_self
  exact ⟨items, hitems, hname entry hmem hrole ▸ he⟩

end SwiftMacro
