import Mathlib
import SwiftMacro.Url
/-!
# Verdicts on URLs

What is wrong with the text of a URL does not depend on which schemes are allowed. The check looks at
the scheme in three places: where `//` is missing, where the reader finds the place of the host empty, and
where the reader gives a URL, and then in lower case. A policy cannot tell the spellings apart
(`UrlPolicy.allows_congr`), so each text has one verdict (`UrlVerdict.Decides`), and a policy decides
nothing but whether the scheme passes (`url_verdict_decides`). All this holds for any reader that finds a
scheme where the text has one (`Url.KeepsSchemes`).
-/

namespace SwiftMacro

namespace Url

/-! ## Schemes -/

variable {s text rest : List Char}

/-- A scheme: a letter, and letters, digits, `+`, `-` and `.` behind it. -/
def IsScheme (s : List Char) : Prop :=
  ∃ first more, s = first :: more ∧ first.isAlpha = true ∧ ∀ c ∈ more, isSchemeChar c = true

theorem IsScheme.ne_colon (h : IsScheme s) : ∀ c ∈ s, (c != ':') = true := by
  obtain ⟨first, more, rfl, hfirst, hmore⟩ := h
  intro c hc
  rw [bne_iff_ne]
  rintro rfl
  rcases List.mem_cons.1 hc with rfl | hc
  · cases hfirst
  · cases hmore ':' hc

theorem scheme?_eq_some : scheme? text = some (s, rest) ↔ IsScheme s ∧ text = s ++ ':' :: rest := by
  constructor
  · intro h
    have htext := List.takeWhile_append_dropWhile (p := (· != ':')) (l := text)
    have hdrop : text.drop (text.takeWhile (· != ':')).length = text.dropWhile (· != ':') :=
      (congrArg (List.drop _) htext).symm.trans List.drop_left
    unfold scheme? at h
    simp only [hdrop] at h
    split at h
    next first more c back hfront hback =>
      have hcolon := List.head?_dropWhile_not (· != ':') text
      rw [hback] at hcolon
      split at h
      next hscheme =>
        simp only [Bool.and_eq_true, List.all_eq_true] at hscheme
        obtain rfl : c = ':' := by simpa using hcolon
        cases h
        exact ⟨⟨first, more, hfront, hscheme.1, hscheme.2⟩, by rw [← hback, htext]⟩
      next => cases h
    next => cases h
  · rintro ⟨hs, rfl⟩
    have htake : (s ++ ':' :: rest).takeWhile (· != ':') = s := by
      rw [List.takeWhile_append_of_pos hs.ne_colon, List.takeWhile_cons_of_neg (by decide), List.append_nil]
    obtain ⟨first, more, rfl, hfirst, hmore⟩ := hs
    have hall : (first.isAlpha && more.all isSchemeChar) = true := by
      rw [hfirst, List.all_eq_true.2 hmore, Bool.and_self]
    simp only [scheme?, htake, List.drop_left]
    exact if_pos hall

theorem opensAuthority_iff : opensAuthority s = true ↔ ∃ rest, s = '/' :: '/' :: rest := by
  unfold opensAuthority
  split
  next rest => simp
  next hother => simpa using fun rest h => hother rest h

/-- The place behind a scheme and its colon lies between two characters, and there the rest starts. -/
theorem exists_before_of_scheme? {text : String} (h : scheme? text.toList = some (s, rest)) :
    ∃ before : String, text = before ++ String.ofList rest ∧
      before.utf8ByteSize = (String.ofList s).utf8ByteSize + 1 := by
  obtain ⟨-, htext⟩ := scheme?_eq_some.1 h
  refine ⟨String.ofList s ++ ":", ?_, ?_⟩
  · apply String.toList_inj.1
    simp [htext]
  · rw [String.utf8ByteSize_append]
    rfl

/-! ## Readers -/

/-- No character of the text is blank, a control character or a backslash. The reader gets no other
text. -/
def IsClean (text : String) : Prop := ∀ c ∈ text.toList, isExcluded c = false

/-- The reader gives a URL, or finds the place of its host empty, only where the text starts with a
scheme, and it gives the scheme in lower case. What it does where blanks have to be cut off first, or a
backslash read as a slash, is left open. -/
structure KeepsSchemes (parse : Parser) : Prop where
  ofOk : ∀ text url, IsClean text → parse text = .ok url → ∃ scheme rest,
    scheme? text.toList = some (scheme, rest) ∧
      url.scheme = UrlPolicy.foldCase (String.ofList scheme)
  ofEmptyHost : ∀ text, IsClean text → parse text = .error (.inHost .emptyHost) → ∃ scheme rest,
    scheme? text.toList = some (scheme, rest)

theorem parse_eq_ok {text : String} {url : Parsed} : parse text = .ok url ↔ ∃ scheme rest,
    scheme? text.toList = some (scheme, rest) ∧
      url.scheme = UrlPolicy.foldCase (String.ofList scheme) ∧
        hostOf url.scheme (rest.drop 2) = .ok url.host := by
  obtain ⟨lower, host⟩ := url
  unfold parse
  cases scheme? text.toList with
  | none => simp
  | some split =>
    obtain ⟨scheme, rest⟩ := split
    cases hhost : hostOf (UrlPolicy.foldCase (String.ofList scheme)) (rest.drop 2) <;> grind

theorem keepsSchemes_parse : KeepsSchemes parse where
  ofOk text url _ h := by
    obtain ⟨scheme, rest, hscheme, hlower, -⟩ := parse_eq_ok.1 h
    exact ⟨scheme, rest, hscheme, hlower⟩
  ofEmptyHost text _ h := by
    unfold parse at h
    split at h
    next => cases h
    next scheme rest hscheme => exact ⟨scheme, rest, hscheme⟩

end Url

open Url

/-! ## Policies -/

namespace UrlPolicy

variable {p q : UrlPolicy} {s t : String}

theorem foldCase_foldCase (s : String) : foldCase (foldCase s) = foldCase s := by
  simp [foldCase, Function.comp_def]

/-- A policy does not tell spellings of a scheme apart. -/
theorem allows_congr (p : UrlPolicy) (h : foldCase s = foldCase t) : p.allows s = p.allows t := by
  unfold allows
  rw [h]

/-- Every scheme that the one policy allows is allowed by the other, in whatever case either spells it. -/
def Within (p q : UrlPolicy) : Prop := p.allowedSchemes.map foldCase ⊆ q.allowedSchemes.map foldCase

theorem allows_iff : p.allows s = true ↔ foldCase s ∈ p.allowedSchemes.map foldCase := by
  simp [allows]

theorem Within.allows (h : p.Within q) (hs : p.allows s = true) : q.allows s = true :=
  allows_iff.2 (h (allows_iff.1 hs))

theorem Within.allows_eq (hpq : p.Within q) (hqp : q.Within p) (s : String) : p.allows s = q.allows s :=
  Bool.eq_iff_iff.2 ⟨hpq.allows, hqp.allows⟩

theorem refuseHost_eq (p : UrlPolicy) (s : String) : p.refuseHost s =
    if p.allows s then .error .invalidUrlHost else .error (.invalidUrlScheme s) := by
  unfold refuseHost check
  cases p.allows s <;> rfl

theorem judge_ok (p : UrlPolicy) (written : Option String) (url : Parsed) : p.judge written (.ok url) =
    if p.allows url.scheme then (if url.hasHost then .ok () else .error .invalidUrlHost)
    else .error (.invalidUrlScheme url.scheme) := by
  simp only [judge, check]
  by_cases hscheme : p.allows url.scheme = true
  · rw [if_pos hscheme, if_pos hscheme]
    rfl
  · rw [if_neg hscheme, if_neg hscheme]
    rfl

theorem refuseHost_ne_ok (p : UrlPolicy) (s : String) : p.refuseHost s ≠ .ok () := by
  rw [refuseHost_eq]
  split <;> exact nofun

/-- Only a URL that was read, with an allowed scheme and a host, passes. -/
theorem judge_eq_ok {written : Option String} {read : Except ParseProblem Parsed} :
    p.judge written read = .ok () ↔
      ∃ url, read = .ok url ∧ p.allows url.scheme = true ∧ url.hasHost = true := by
  rcases read with (_ | _ | _) | url
  · simp [judge]
  · simp [judge, refuseHost_ne_ok]
  · simp [judge]
  · rw [judge_ok]
    by_cases hscheme : p.allows url.scheme = true <;> by_cases hhost : url.hasHost = true <;>
      simp [hscheme, hhost]

end UrlPolicy

/-! ## Verdicts -/

/-- What the text of a URL amounts to, whatever schemes are allowed. -/
inductive UrlVerdict where
  | unparsable | noScheme | noHost | fine
deriving DecidableEq, Repr

/-- A policy that allows the scheme of a text gives this answer, and any other refuses the scheme, in
some spelling that is the same for all of them. -/
def AnswersBehindScheme (text : String) (answer : UrlPolicy → Except Failure Unit)
    (allowed : Except Failure Unit) : Prop :=
  ∃ scheme rest reported, scheme? text.toList = some (scheme, rest) ∧
    UrlPolicy.foldCase reported = UrlPolicy.foldCase (String.ofList scheme) ∧
    ∀ p, answer p = if p.allows (String.ofList scheme) then allowed
      else .error (.invalidUrlScheme reported)

/-- The answers that a verdict stands for, one for each policy. -/
def UrlVerdict.Decides (text : String) (answer : UrlPolicy → Except Failure Unit) : UrlVerdict → Prop
  | unparsable => ∀ p, answer p = .error .invalidUrl
  | noScheme => ∀ p, answer p = .error (.invalidUrlScheme "?")
  | noHost => AnswersBehindScheme text answer (.error .invalidUrlHost)
  | fine => AnswersBehindScheme text answer (.ok ())

section Policies

variable {text : String} {answer : UrlPolicy → Except Failure Unit} {allowed : Except Failure Unit}
  {verdict : UrlVerdict} {p q : UrlPolicy}

theorem AnswersBehindScheme.congr (h : AnswersBehindScheme text answer allowed) (hpq : p.Within q)
    (hqp : q.Within p) : answer p = answer q := by
  obtain ⟨scheme, rest, reported, -, -, hanswer⟩ := h
  rw [hanswer p, hanswer q, hpq.allows_eq hqp]

/-- Behind a scheme, a policy gives the answer for an allowed scheme or refuses it. -/
theorem AnswersBehindScheme.eq_error (h : AnswersBehindScheme text answer allowed) {failure : Failure}
    (herror : answer p = .error failure) : allowed = .error failure ∨
      ∃ reported, failure = .invalidUrlScheme reported ∧ ∃ scheme, IsScheme scheme ∧
        UrlPolicy.foldCase reported = UrlPolicy.foldCase (String.ofList scheme) := by
  obtain ⟨scheme, rest, reported, hscheme, hspelling, hanswer⟩ := h
  rw [hanswer p] at herror
  split at herror
  · exact .inl herror
  · exact .inr ⟨reported, (Except.error.inj herror).symm, scheme, (scheme?_eq_some.1 hscheme).1, hspelling⟩

/-- Policies that allow the same schemes give the same answer. -/
theorem UrlVerdict.Decides.congr (h : verdict.Decides text answer) (hpq : p.Within q)
    (hqp : q.Within p) : answer p = answer q := by
  cases verdict with
  | unparsable | noScheme => exact (h p).trans (h q).symm
  | noHost | fine => exact AnswersBehindScheme.congr h hpq hqp

/-- What a policy accepts is accepted by every policy that allows more. -/
theorem UrlVerdict.Decides.mono (h : verdict.Decides text answer) (hpq : p.Within q)
    (hok : answer p = .ok ()) : answer q = .ok () := by
  cases verdict with
  | unparsable | noScheme =>
    rw [h p] at hok
    cases hok
  | noHost | fine =>
    obtain ⟨scheme, rest, reported, -, -, hanswer⟩ := h
    rw [hanswer] at hok ⊢
    by_cases hscheme : p.allows (String.ofList scheme) = true
    · rw [if_pos hscheme] at hok
      rw [if_pos (hpq.allows hscheme), hok]
    · rw [if_neg hscheme] at hok
      cases hok

end Policies

/-! ## The verdict on a text -/

section Check

variable {parse : Parser} {text : String}

/-- Where the reader decides, the verdict is that on what it made of the text. -/
theorem exists_verdict_of_judge (hparse : KeepsSchemes parse) (hclean : IsClean text)
    {written : Option String}
    (hwritten : written = (scheme? text.toList).map fun split => String.ofList split.1)
    {answer : UrlPolicy → Except Failure Unit} (h : ∀ p, answer p = p.judge written (parse text)) :
    ∃ verdict : UrlVerdict, verdict.Decides text answer := by
  cases hread : parse text with
  | error problem =>
    rw [hread] at h
    rcases problem with _ | _ | _
    · exact ⟨.noScheme, h⟩
    · obtain ⟨scheme, rest, hscheme⟩ := hparse.ofEmptyHost text hclean hread
      refine ⟨.noHost, scheme, rest, String.ofList scheme, hscheme, rfl, fun p => ?_⟩
      rw [h p, hwritten, hscheme]
      exact p.refuseHost_eq (String.ofList scheme)
    · exact ⟨.unparsable, h⟩
  | ok url =>
    obtain ⟨scheme, rest, hscheme, hlower⟩ := hparse.ofOk text url hclean hread
    have hspelling : UrlPolicy.foldCase url.scheme = UrlPolicy.foldCase (String.ofList scheme) := by
      rw [hlower, UrlPolicy.foldCase_foldCase]
    have hanswer : ∀ p : UrlPolicy, answer p = if p.allows (String.ofList scheme) then
        (if url.hasHost then .ok () else .error .invalidUrlHost)
        else .error (.invalidUrlScheme url.scheme) := by
      intro p
      rw [h p, hread, p.judge_ok, p.allows_congr hspelling]
    by_cases hhost : url.hasHost = true
    · refine ⟨.fine, scheme, rest, url.scheme, hscheme, hspelling, fun p => ?_⟩
      rw [hanswer p, if_pos hhost]
    · refine ⟨.noHost, scheme, rest, url.scheme, hscheme, hspelling, fun p => ?_⟩
      rw [hanswer p, if_neg hhost]

theorem exists_verdict (hparse : KeepsSchemes parse) (text : String) :
    ∃ verdict : UrlVerdict, verdict.Decides text (checkUrlWith parse · text) := by
  unfold checkUrlWith
  by_cases hbad : (text.toList.isEmpty || text.toList.any isExcluded) = true
  · exact ⟨.unparsable, fun p => if_pos hbad⟩
  · have hclean : IsClean text := by
      simpa [IsClean] using (Bool.or_eq_false_iff.1 (Bool.eq_false_iff.2 hbad)).2
    simp only [if_neg hbad]
    cases hscheme : scheme? text.toList with
    | none => exact exists_verdict_of_judge hparse hclean (by rw [hscheme]; rfl) fun p => rfl
    | some split =>
      obtain ⟨scheme, rest⟩ := split
      by_cases hopens : opensAuthority rest = true
      · exact exists_verdict_of_judge hparse hclean (by rw [hscheme]; rfl) fun p => if_pos hopens
      · refine ⟨.noHost, scheme, rest, String.ofList scheme, hscheme, rfl, fun p => ?_⟩
        exact (if_neg hopens).trans (p.refuseHost_eq _)

/-- A refusal is about the text, its host or its scheme, and a scheme that is reported is the mark for a
missing one or, up to case, what the text starts with. -/
theorem checkUrlWith_eq_error (hparse : KeepsSchemes parse) {p : UrlPolicy} {failure : Failure}
    (h : checkUrlWith parse p text = .error failure) :
    failure = .invalidUrl ∨ failure = .invalidUrlHost ∨ ∃ reported, failure = .invalidUrlScheme reported ∧
      (reported = "?" ∨ ∃ scheme, IsScheme scheme ∧
        UrlPolicy.foldCase reported = UrlPolicy.foldCase (String.ofList scheme)) := by
  obtain ⟨verdict, hverdict⟩ := exists_verdict hparse text
  cases verdict with
  | unparsable => exact .inl (Except.error.inj (h.symm.trans (hverdict p)))
  | noScheme => exact .inr (.inr ⟨"?", Except.error.inj (h.symm.trans (hverdict p)), .inl rfl⟩)
  | noHost =>
    rcases AnswersBehindScheme.eq_error hverdict h with hhost | ⟨reported, hreported, hscheme⟩
    · exact .inr (.inl (Except.error.inj hhost).symm)
    · exact .inr (.inr ⟨reported, hreported, .inr hscheme⟩)
  | fine =>
    rcases AnswersBehindScheme.eq_error hverdict h with hok | ⟨reported, hreported, hscheme⟩
    · cases hok
    · exact .inr (.inr ⟨reported, hreported, .inr hscheme⟩)

end Check

/-- Each text has a verdict that all policies share. Policies that allow the same schemes agree, a policy
that allows more refuses no more, and where a scheme is cut off the text is cut between characters. -/
theorem url_verdict_decides {parse : Parser} (hparse : KeepsSchemes parse) (text : String) :
    (∃ verdict : UrlVerdict, verdict.Decides text (checkUrlWith parse · text)) ∧
    (∀ p q : UrlPolicy, p.Within q → q.Within p →
      checkUrlWith parse p text = checkUrlWith parse q text) ∧
    (∀ p q : UrlPolicy, p.Within q → checkUrlWith parse p text = .ok () →
      checkUrlWith parse q text = .ok ()) ∧
    ∀ scheme rest, scheme? text.toList = some (scheme, rest) → ∃ before : String,
      text = before ++ String.ofList rest ∧
        before.utf8ByteSize = (String.ofList scheme).utf8ByteSize + 1 := by
  obtain ⟨verdict, hverdict⟩ := exists_verdict hparse text
  refine ⟨⟨verdict, hverdict⟩, fun p q hpq hqp => ?_, fun p q hpq hok => ?_, fun scheme rest hscheme => ?_⟩
  · exact hverdict.congr hpq hqp
  · exact hverdict.mono hpq hok
  · exact exists_before_of_scheme? hscheme

/-- The scheme of the text, of the narrow policy and of the wide one are spelled in three ways. -/
theorem url_verdict_decides_spellings : KeepsSchemes Url.parse ∧
    (⟨["HTTP"]⟩ : UrlPolicy).Within ⟨["ftp", "hTTp"]⟩ ∧
    checkUrl ⟨["HTTP"]⟩ "HtTp://[::1]" = .ok () ∧
    checkUrl ⟨["ftp", "hTTp"]⟩ "HtTp://[::1]" = .ok () ∧
    checkUrl ⟨["HTTP"]⟩ "HtTp://[::1]" = checkUrl ⟨["http", "Http"]⟩ "HtTp://[::1]" ∧
    ∃ before : String, "HtTp://[::1]" = before ++ "//[::1]" ∧ before.utf8ByteSize = 5 := by
  obtain ⟨-, hcongr, hmono, hcut⟩ := url_verdict_decides keepsSchemes_parse "HtTp://[::1]"
  have hwithin : (⟨["HTTP"]⟩ : UrlPolicy).Within ⟨["ftp", "hTTp"]⟩ := by
    unfold UrlPolicy.Within
    decide
  have hok : checkUrl ⟨["HTTP"]⟩ "HtTp://[::1]" = .ok () := rfl
  refine ⟨keepsSchemes_parse, hwithin, hok, hmono _ _ hwithin hok, hcongr _ _ ?_ ?_, ?_⟩
  · unfold UrlPolicy.Within
    decide
  · unfold UrlPolicy.Within
    decide
  · exact hcut "HtTp".toList "//[::1]".toList rfl

end SwiftMacro
