import Mathlib.Data.List.DropRight
import SwiftMacro.Proofs.BlankTexts
/-!
# Misspelled configurations

A key that names no field is refused by a strict schema, whatever stands beside it. All schemas of a
configuration are strict but that of the section `url`, which skips such an entry. So a misspelled key is
an error everywhere else, and in `url` the configuration is read as if the entry were not there
(`misspelled_refused_outside_url`): what is meant to narrow the allowed schemes is lost without a word.
-/

namespace SwiftMacro

open Yaml (Value Document)

namespace Yaml.Value

/-- The entries of a mapping. -/
def entries : Value → List (Value × Value)
  | mapping _ es => es
  | _ => []

/-- Whether a value is a text. -/
def isText : Value → Bool
  | scalar _ _ _ => true
  | _ => false

/-- Whether a value is one of some names. -/
def isNamed (names : List String) : Value → Bool
  | scalar _ text _ => names.contains text
  | _ => false

theorem isNamed_unique {v : Value} {a b : String} (ha : v.isNamed [a] = true) (hb : v.isNamed [b] = true) :
    a = b := by
  cases v with
  | scalar head text plain =>
    simp only [isNamed, List.contains_cons, List.contains_nil, Bool.or_false, beq_iff_eq] at ha hb
    exact ha.symm.trans hb
  | _ => cases ha

end Yaml.Value

namespace Config

/-! ## Entries of a schema -/

namespace Schema

variable {σ : Type} {s : Schema σ} {path : Path} {name : String} {key value : Value}
  {es : List (Value × Value)}

theorem find?_eq_none : s.find? name = none ↔ s.names.contains name = false := by
  rw [find?, names, List.find?_eq_none, ← Bool.not_eq_true, List.contains_iff_mem, List.mem_map]
  constructor
  · rintro h ⟨field, hfield, rfl⟩
    exact h field hfield (beq_self_eq_true _)
  · exact fun h field hfield heq => h ⟨field, hfield, beq_iff_eq.1 heq⟩

/-- Whether an entry is refused wherever it stands. -/
def Refuses (s : Schema σ) (path : Path) (e : Value × Value) : Prop :=
  ∀ mark seen record rest, ∃ error, s.entries path mark seen record (e :: rest) = .error error

/-- An entry that is refused is refused behind any others. -/
theorem entries_error {e : Value × Value} (h : s.Refuses path e) (he : e ∈ es) (mark : Yaml.Mark)
    (seen : List String) (record : σ) : ∃ error, s.entries path mark seen record es = .error error := by
  induction es generalizing seen record with
  | nil => cases he
  | cons first rest ih =>
    rcases List.mem_cons.1 he with rfl | hrest
    · exact h mark seen record rest
    obtain ⟨key, value⟩ := first
    unfold entries
    split
    · exact ⟨_, rfl⟩
    split
    · split
      · exact ⟨_, rfl⟩
      split
      · exact ⟨_, rfl⟩
      · exact ih hrest _ _
    · split
      · exact ⟨_, rfl⟩
      split
      · exact ⟨_, rfl⟩
      · exact ih hrest _ _

/-- A key that names no field is refused if the schema is strict or if the key is no text. -/
theorem refuses_of_key (hkey : key.isNamed s.names = false) (hs : s.strict = true ∨ key.isText = false) :
    s.Refuses path (key, value) := by
  intro mark seen record rest
  unfold entries
  cases key with
  | scalar head name plain =>
    have hstrict : s.strict = true := hs.resolve_right nofun
    simp [Decoder.text, find?_eq_none.2 hkey, hstrict]
  | broken problem => exact ⟨_, rfl⟩
  | _ head =>
    simp only [Decoder.text, Decoder.refuse]
    exact ⟨_, rfl⟩

/-- A field is refused if its value is. -/
theorem refuses_of_value {field : Field σ} (hkey : key.isNamed [name] = true)
    (hfind : s.find? name = some field)
    (hvalue : ∃ error, field.set (path ++ [.field name]) value = .error error) :
    s.Refuses path (key, value) := by
  obtain ⟨error, hvalue⟩ := hvalue
  cases key with
  | scalar head text plain =>
    obtain rfl : text = name := by simpa [Yaml.Value.isNamed] using hkey
    intro mark seen record rest
    unfold entries
    simp only [Decoder.text, hfind, hvalue]
    split <;> exact ⟨_, rfl⟩
  | _ => cases hkey

/-- Whether an entry is skipped if the schema is not strict: its key is a text that names no field, and its
value can be read to its end. -/
def isSkipped (s : Schema σ) (e : Value × Value) : Bool :=
  e.1.isText && !e.1.isNamed s.names && e.2.problem?.isNone

theorem entries_cons_skipped (hs : s.strict = false) (hskipped : s.isSkipped (key, value) = true)
    (mark : Yaml.Mark) (seen : List String) (record : σ) :
    s.entries path mark seen record ((key, value) :: es) = s.entries path mark seen record es := by
  obtain ⟨⟨htext, hkey⟩, hvalue⟩ := (by simpa [isSkipped] using hskipped :
    (key.isText = true ∧ key.isNamed s.names = false) ∧ value.problem? = none)
  cases key with
  | scalar head name plain =>
    rw [entries]
    simp [Decoder.text, find?_eq_none.2 hkey, hs, hvalue]
  | _ => cases htext

/-- What is skipped might as well be left out. -/
theorem entries_filter (hs : s.strict = false) (mark : Yaml.Mark) (seen : List String) (record : σ) :
    s.entries path mark seen record (es.filter fun e => !s.isSkipped e) =
      s.entries path mark seen record es := by
  induction es generalizing seen record with
  | nil => rfl
  | cons first rest ih =>
    by_cases hskipped : s.isSkipped first = true
    · rw [List.filter_cons_of_neg (by simpa using hskipped), ih, entries_cons_skipped hs hskipped]
    · rw [List.filter_cons_of_pos (by simpa using hskipped), entries, entries]
      simp only [ih]

/-- Entries are read alike if their keys are the same and their values are read alike. -/
theorem entries_map (hs : s.strict = true) {f : Value × Value → Value × Value}
    (hkey : ∀ e ∈ es, (f e).1 = e.1)
    (hvalue : ∀ e ∈ es, ∀ name field, e.1.isNamed [name] = true → s.find? name = some field →
      field.set (path ++ [.field name]) (f e).2 = field.set (path ++ [.field name]) e.2)
    (mark : Yaml.Mark) (seen : List String) (record : σ) :
    s.entries path mark seen record (es.map f) = s.entries path mark seen record es := by
  induction es generalizing seen record with
  | nil => rfl
  | cons first rest ih =>
    have hrest := ih (fun e he => hkey e (List.mem_cons_of_mem _ he)) fun e he =>
      hvalue e (List.mem_cons_of_mem _ he)
    have hset := hvalue first List.mem_cons_self
    rw [List.map_cons, entries, entries, hkey first List.mem_cons_self]
    obtain ⟨key, value⟩ := first
    cases key with
    | scalar head name plain =>
      simp only [Decoder.text]
      cases hfind : s.find? name with
      | none => simp only [hs, if_true]
      | some field =>
        simp only [hset name field (by simp [Yaml.Value.isNamed]) hfind, hrest]
    | _ => rfl

/-- A mapping is refused for any key of it that is. -/
theorem decoder_error {initial : σ} {v : Value} {e : Value × Value} (he : e ∈ v.entries)
    (hkey : e.1.isNamed s.names = false) (hs : s.strict = true ∨ e.1.isText = false) :
    ∃ error, s.decoder initial path v = .error error := by
  cases v with
  | mapping head es => exact entries_error (refuses_of_key hkey hs) he head.mark [] initial
  | _ => cases he

end Schema

/-! ## The configuration -/

/-- The sections, and the fields of each. -/
def sections : List (String × List String) :=
  [("url", urlSchema.names), ("key_value_store", storeSchema.names), ("symbols", symbolsSchema.names),
    ("logging", loggingSchema.names)]

/-- What is refused about the keys of a configuration. -/
inductive Misspelled (es : List (Value × Value)) : Prop where
  /-- A key is no section. -/
  | outside {e : Value × Value} (he : e ∈ es) (hkey : e.1.isNamed schema.names = false)
  /-- A key in a section is none of its fields. In the section `url` it must not even be a text. -/
  | inside {s : String × List String} {e f : Value × Value} (hs : s ∈ sections) (he : e ∈ es)
      (hsection : e.1.isNamed [s.1] = true) (hf : f ∈ e.2.entries) (hkey : f.1.isNamed s.2 = false)
      (hurl : s.1 = "url" → f.1.isText = false)

variable {σ : Type} {es : List (Value × Value)}

theorem set_sectionField (name : String) (s : Schema σ) (initial : σ) (set : σ → Config → Config)
    (path : Path) (v : Value) :
    (sectionField name s initial set).set path v = (s.decoder initial path v).map set := by
  simp only [sectionField]
  cases s.decoder initial path v <;> rfl

/-- A mapping in which a section is refused is refused. -/
theorem entries_error_of_section {s : Schema σ} {initial : σ} {set : σ → Config → Config} {name : String}
    {e f : Value × Value} (hfind : schema.find? name = some (sectionField name s initial set)) (he : e ∈ es)
    (hsection : e.1.isNamed [name] = true) (hf : f ∈ e.2.entries) (hkey : f.1.isNamed s.names = false)
    (hs : s.strict = true ∨ f.1.isText = false) (path : Path) (mark : Yaml.Mark) :
    ∃ error, schema.entries path mark [] default es = .error error := by
  refine Schema.entries_error (Schema.refuses_of_value hsection hfind ?_) he mark [] default
  obtain ⟨error, h⟩ : ∃ error, s.decoder initial (path ++ [.field name]) e.2 = .error error :=
    Schema.decoder_error hf hkey hs
  exact ⟨error, by rw [set_sectionField, h]; rfl⟩

/-- A mapping with a misspelled key is refused. -/
theorem Misspelled.entries_error (h : Misspelled es) (path : Path) (mark : Yaml.Mark) :
    ∃ error, schema.entries path mark [] default es = .error error := by
  cases h with
  | outside he hkey => exact Schema.entries_error (Schema.refuses_of_key hkey (.inl rfl)) he mark [] default
  | inside hs he hsection hf hkey hurl =>
    simp only [sections, List.mem_cons, List.not_mem_nil, or_false] at hs
    rcases hs with rfl | rfl | rfl | rfl
    · exact entries_error_of_section (s := urlSchema) rfl he hsection hf hkey (.inr (hurl rfl)) path mark
    · exact entries_error_of_section (s := storeSchema) rfl he hsection hf hkey (.inl rfl) path mark
    · exact entries_error_of_section (s := symbolsSchema) rfl he hsection hf hkey (.inl rfl) path mark
    · exact entries_error_of_section (s := loggingSchema) rfl he hsection hf hkey (.inl rfl) path mark

/-- An entry without what the section `url` skips. -/
def withoutSkipped (e : Value × Value) : Value × Value :=
  match e with
  | (key, .mapping head fs) =>
      if key.isNamed ["url"] then (key, .mapping head (fs.filter fun f => !urlSchema.isSkipped f))
      else (key, .mapping head fs)
  | e => e

theorem withoutSkipped_fst (e : Value × Value) : (withoutSkipped e).1 = e.1 := by
  unfold withoutSkipped
  split
  · split <;> rfl
  · rfl

/-- A field reads its value as before: only `url` has something to skip, and skips it. -/
theorem set_withoutSkipped {e : Value × Value} {name : String} {field : Field Config}
    (hkey : e.1.isNamed [name] = true) (hfind : schema.find? name = some field) (path : Path) :
    field.set path (withoutSkipped e).2 = field.set path e.2 := by
  obtain ⟨key, value⟩ := e
  cases value with
  | mapping head fs =>
    unfold withoutSkipped
    simp only
    split
    next hurl =>
      obtain rfl : "url" = name := Yaml.Value.isNamed_unique hurl hkey
      obtain rfl := Option.some.inj hfind
      rw [set_sectionField, set_sectionField]
      exact congrArg _ (Schema.entries_filter rfl head.mark [] default)
    next => rfl
  | _ => rfl

theorem entries_withoutSkipped (path : Path) (mark : Yaml.Mark) :
    schema.entries path mark [] default (es.map withoutSkipped) = schema.entries path mark [] default es :=
  Schema.entries_map rfl (fun e _ => withoutSkipped_fst e)
    (fun _ _ _ _ hkey hfind => set_withoutSkipped hkey hfind _) mark [] default

theorem isWhitespace_of_trim {s : List Char} (h : (Text.trim s).isEmpty = true) :
    ∀ c ∈ s, Text.isWhitespace c = true := by
  have hback : ∀ c ∈ s.dropWhile Text.isWhitespace, Text.isWhitespace c = true :=
    List.rdropWhile_eq_nil_iff.1 (List.isEmpty_iff.1 h)
  intro c hc
  rw [← List.takeWhile_append_dropWhile (p := Text.isWhitespace) (l := s)] at hc
  exact (List.mem_append.1 hc).elim List.mem_takeWhile_imp (hback c)

/-- A text that is a mapping is not taken for one in which everything is left out. -/
theorem parse_of_mapping {text : String} {head : Yaml.Head}
    (hroot : (Document.ofText text).root = some (.mapping head es)) : parse text =
      ofDocument (.ofText text) := by
  unfold parse
  rw [if_neg]
  exact fun h => Yaml.root_ne_mapping_of_isWhitespace (isWhitespace_of_trim h) head es hroot

/-- A misspelled key is refused at top level and in every section but `url`. A text that is none of the
fields of `url` is skipped there: the configuration is what it is without that entry, which is refused
only for what else is in it. -/
theorem misspelled_refused_outside_url {text : String} {head : Yaml.Head}
    (hroot : (Document.ofText text).root = some (.mapping head es)) :
    (Misspelled es → ∃ defect, parse text = .error defect) ∧
      parse text =
        ofDocument { Document.ofText text with root := some (.mapping head (es.map withoutSkipped)) } := by
  rw [parse_of_mapping hroot]
  unfold ofDocument
  simp only [hroot, Schema.decoder]
  refine ⟨fun h => ?_, ?_⟩
  · obtain ⟨error, herror⟩ := h.entries_error [] head.mark
    exact ⟨.undecodable error, by rw [herror]⟩
  · rw [entries_withoutSkipped]

theorem misspelled_refused_outside_url_catalogue : ∃ head es,
    (Document.ofText "symbols: \x7bcatalogue: a\x7d").root = some (.mapping head es) ∧ Misspelled es ∧
      ∃ defect, parse "symbols: \x7bcatalogue: a\x7d" = .error defect := by
  have hroot : (Document.ofText "symbols: \x7bcatalogue: a\x7d").root = some (.mapping ⟨⟨0, 0, 0⟩, none⟩
      [(.scalar ⟨⟨0, 0, 0⟩, none⟩ "symbols" true, .mapping ⟨⟨9, 0, 9⟩, none⟩
        [(.scalar ⟨⟨10, 0, 10⟩, none⟩ "catalogue" true, .scalar ⟨⟨21, 0, 21⟩, none⟩ "a" true)])]) := rfl
  have hkey : Misspelled [(.scalar ⟨⟨0, 0, 0⟩, none⟩ "symbols" true, .mapping ⟨⟨9, 0, 9⟩, none⟩
      [(.scalar ⟨⟨10, 0, 10⟩, none⟩ "catalogue" true, .scalar ⟨⟨21, 0, 21⟩, none⟩ "a" true)])] :=
    .inside (s := ("symbols", symbolsSchema.names)) (by simp [sections]) List.mem_cons_self rfl
      List.mem_cons_self rfl (by decide)
  exact ⟨_, _, hroot, hkey, (misspelled_refused_outside_url hroot).1 hkey⟩

/-- A misspelled key of the section `url` is skipped, and the schemes stay what they are by default. -/
theorem misspelled_schemes_ignored : ∃ head es e f,
    (Document.ofText "url: \x7ballowed_scheme: [https]\x7d").root = some (.mapping head es) ∧
      e ∈ es ∧ e.1.isNamed ["url"] = true ∧ f ∈ e.2.entries ∧ f.1.isNamed urlSchema.names = false ∧
      parse "url: \x7ballowed_scheme: [https]\x7d" = .ok default :=
  have hroot : (Document.ofText "url: \x7ballowed_scheme: [https]\x7d").root =
      some (.mapping ⟨⟨0, 0, 0⟩, none⟩ [(.scalar ⟨⟨0, 0, 0⟩, none⟩ "url" true,
        .mapping ⟨⟨5, 0, 5⟩, none⟩ [(.scalar ⟨⟨6, 0, 6⟩, none⟩ "allowed_scheme" true,
          .sequence ⟨⟨22, 0, 22⟩, none⟩ [.scalar ⟨⟨23, 0, 23⟩, none⟩ "https" true])])]) := rfl
  ⟨_, _, _, _, hroot, List.mem_cons_self, rfl, List.mem_cons_self, rfl, by decide +kernel⟩

end Config
end SwiftMacro
