import Mathlib
import SwiftMacro.Proofs.Domains
import SwiftMacro.Proofs.Results
import SwiftMacro.Proofs.Verdicts
/-!
# Hosts that are written in a URL

An accepted URL has its host in the place where a reader looks for it, between `scheme://` and the path,
with one exception. The schemes of the web skip all slashes behind the colon, so with a third slash that
place is empty, and the host is found further behind (`host_written_iff`). The schemes of files and all
others take the text behind `//` as it is.
-/

namespace SwiftMacro

namespace Url

/-! ## The place of the host -/

/-- The text behind the last `@`, or all of it. -/
def behindUser (authority : List Char) : List Char := (authority.reverse.takeWhile (· != '@')).reverse

/-- The host as it is written in the text behind `scheme://`: what stands before the path, without user,
password and port. -/
def writtenHost (text : List Char) : List Char :=
  (splitPort false (behindUser (text.takeWhile (!endsAuthority ·)))).1

variable {s text rest : List Char} {host : Host}

theorem behindUser_of_not_mem (h : '@' ∉ s) : behindUser s = s := by
  have hall : ∀ c ∈ s.reverse, (c != '@') = true := fun c hc => by
    simpa using fun heq : c = '@' => h (heq ▸ List.mem_reverse.1 hc)
  have htake : (s.reverse ++ []).takeWhile (· != '@') = s.reverse ++ [] :=
    List.takeWhile_append_of_pos hall
  rw [List.append_nil] at htake
  rw [behindUser, htake, List.reverse_reverse]

theorem eq_behindUser {more user : Bool} (h : dropUser more s = .ok (user, rest)) :
    rest = behindUser s := by
  by_cases hat : '@' ∈ s
  · have hsplit : splitLast '@' s = some (s.take (s.length - (behindUser s).length - 1), behindUser s) :=
      if_pos (List.contains_iff_mem.2 hat)
    rw [dropUser, hsplit] at h
    -- What the user is does not matter, only whether the part in front of the last `@` is empty.
    generalize s.take (s.length - (behindUser s).length - 1) = user' at h
    cases user' with
    | nil =>
      simp only at h
      split at h
      · cases h
      · exact (Prod.mk.inj (Except.ok.inj h)).2.symm
    | cons => exact (Prod.mk.inj (Except.ok.inj h)).2.symm
  · have hsplit : splitLast '@' s = none := if_neg (by simpa using hat)
    rw [dropUser, hsplit] at h
    cases h
    exact (behindUser_of_not_mem hat).symm

theorem fst_splitPort_eq_nil : (splitPort false s).1 = [] ↔ s = [] ∨ s.head? = some ':' := by
  cases s with
  | nil => simp [splitPort]
  | cons c s =>
    by_cases hc : c = ':' <;> simp [splitPort, hc]

theorem writtenHost_of_slash (h : text.head? = some '/') : writtenHost text = [] := by
  obtain ⟨rest, rfl⟩ := List.head?_eq_some_iff.1 h
  rfl

/-! ## One kind of schemes after the other -/

theorem writtenHost_of_webHost (h : webHost text = .ok host) : writtenHost text ≠ [] := by
  intro hnil
  unfold webHost at h
  obtain ⟨⟨user, rest⟩, hrest, h⟩ := bind_eq_ok.1 h
  rw [writtenHost, ← eq_behindUser hrest] at hnil
  simp only [hnil, List.isEmpty_nil, if_true] at h
  cases h

theorem writtenHost_of_otherHost (h : otherHost text = .ok (some host)) : writtenHost text ≠ [] := by
  intro hnil
  unfold otherHost at h
  obtain ⟨⟨user, rest⟩, hrest, h⟩ := bind_eq_ok.1 h
  rw [writtenHost, ← eq_behindUser hrest] at hnil
  have hwritten : Host.ofWritten [] = .ok (.written []) := rfl
  simp only [hnil, hwritten] at h
  obtain ⟨host', hhost, h⟩ := bind_eq_ok.1 h
  cases hhost
  have hempty : (Host.written []).isEmpty = true := rfl
  rw [if_pos hempty] at h
  split at h <;> cases h

/-- The place of the host in a file URL has no room for a user or a port. -/
theorem writtenHost_of_fileHost (h : fileHost text = .ok (some host)) : writtenHost text ≠ [] := by
  obtain ⟨place, hplace⟩ : ∃ place, text.takeWhile (!endsAuthority ·) = place := ⟨_, rfl⟩
  unfold fileHost at h
  simp only [hplace] at h
  split at h
  next => cases h
  next hwritten =>
    obtain ⟨host', hhost, h⟩ := bind_eq_ok.1 h
    obtain ⟨hat, hcolon⟩ := Host.free_of_ofDomain hhost
    have hempty : place ≠ [] := by
      rintro rfl
      exact hwritten rfl
    rw [writtenHost, hplace, behindUser_of_not_mem hat, ne_eq, fst_splitPort_eq_nil, not_or]
    exact ⟨hempty, hcolon⟩

/-- A text is split into a scheme and what follows `://` in one way only. -/
theorem eq_of_scheme? {s' rest' : List Char} (h : scheme? text = some (s, '/' :: '/' :: rest))
    (hs : IsScheme s') (htext : text = s' ++ "://".toList ++ rest') : s' = s ∧ rest' = rest := by
  have hsplit : scheme? text = some (s', '/' :: '/' :: rest') :=
    scheme?_eq_some.2 ⟨hs, htext.trans (List.append_assoc _ _ _)⟩
  rw [h] at hsplit
  cases hsplit
  exact ⟨rfl, rfl⟩

end Url

open Url

/-- What is accepted has none of the characters that are left out, and a host behind an allowed scheme. -/
theorem checkUrl_eq_ok {policy : UrlPolicy} {text : String} (h : checkUrl policy text = .ok ()) :
    IsClean text ∧ ∃ scheme rest host,
      text.toList = scheme ++ "://".toList ++ rest ∧ IsScheme scheme ∧
        policy.allows (String.ofList scheme) = true ∧
        hostOf (UrlPolicy.foldCase (String.ofList scheme)) rest = .ok (some host) := by
  unfold checkUrl checkUrlWith at h
  simp only at h
  split at h
  next => cases h
  next hclean =>
    simp only [Bool.or_eq_true, not_or, List.any_eq_true, not_exists, not_and] at hclean
    refine ⟨fun c hc => Bool.eq_false_iff.2 (hclean.2 c hc), ?_⟩
    split at h
    next hnone =>
      -- Without a scheme the reader gives no URL.
      obtain ⟨url, hread, -, -⟩ := UrlPolicy.judge_eq_ok.1 h
      obtain ⟨scheme, rest, hscheme, -⟩ := parse_eq_ok.1 hread
      cases hnone.symm.trans hscheme
    next scheme rest hscheme =>
      split at h
      next hopens =>
        obtain ⟨⟨lower, found⟩, hread, hallows, hfound⟩ := UrlPolicy.judge_eq_ok.1 h
        obtain ⟨scheme', rest', hscheme', rfl, hhost⟩ := parse_eq_ok.1 hread
        obtain ⟨rfl, rfl⟩ : scheme = scheme' ∧ rest = rest' := by simpa using hscheme.symm.trans hscheme'
        obtain ⟨hs, htext⟩ := scheme?_eq_some.1 hscheme
        obtain ⟨rest, rfl⟩ := opensAuthority_iff.1 hopens
        obtain ⟨host, rfl, -⟩ := (Option.any_eq_true _ _).1 hfound
        refine ⟨scheme, rest, host, ?_, hs, ?_, hhost⟩
        · rw [htext, List.append_assoc]
          rfl
        · rwa [policy.allows_congr (UrlPolicy.foldCase_foldCase _)] at hallows
      next => exact absurd h (policy.refuseHost_ne_ok _)

/-- What the schemes of the web take the host from. -/
theorem writtenHost_of_hostOf {scheme : String} {text : List Char} {host : Host}
    (h : hostOf scheme text = .ok (some host)) :
    (scheme ∈ webSchemes ∧ writtenHost (text.dropWhile (· == '/')) ≠ []) ∨ writtenHost text ≠ [] := by
  unfold hostOf at h
  split at h
  next hweb =>
    cases hhost : webHost (text.dropWhile (· == '/')) with
    | error => simp [hhost, Except.map] at h
    | ok host' => exact .inl ⟨List.contains_iff_mem.1 hweb, writtenHost_of_webHost hhost⟩
  next =>
    split at h
    next => exact .inr (writtenHost_of_fileHost h)
    next => exact .inr (writtenHost_of_otherHost h)

/-- An accepted URL starts with an allowed scheme and has none of the characters that are left out. Its host
is written behind `scheme://`, unless a third slash stands there. That happens for the schemes of the web
only, and then the host is written behind all slashes. -/
theorem host_written_iff {policy : UrlPolicy} {text : String} (h : checkUrl policy text = .ok ()) :
    ∃ scheme rest, text.toList = scheme ++ "://".toList ++ rest ∧ IsScheme scheme ∧
      (∃ allowed ∈ policy.allowedSchemes,
        UrlPolicy.foldCase allowed = UrlPolicy.foldCase (String.ofList scheme)) ∧
      (∀ c ∈ text.toList, Text.isWhitespace c = false ∧ Text.isControl c = false ∧ c ≠ '\\') ∧
      (writtenHost rest ≠ [] ↔ rest.head? ≠ some '/') ∧
      (rest.head? = some '/' → UrlPolicy.foldCase (String.ofList scheme) ∈ webSchemes ∧
        writtenHost (rest.dropWhile (· == '/')) ≠ []) := by
  obtain ⟨hclean, scheme, rest, host, htext, hscheme, hallows, hhost⟩ := checkUrl_eq_ok h
  have hallowed : ∃ allowed ∈ policy.allowedSchemes,
      UrlPolicy.foldCase allowed = UrlPolicy.foldCase (String.ofList scheme) := by
    simpa [UrlPolicy.allows] using hallows
  refine ⟨scheme, rest, htext, hscheme, hallowed, fun c hc => ?_, ⟨fun hne hslash => ?_, fun hslash => ?_⟩,
    fun hslash => ?_⟩
  · simpa [isExcluded, and_assoc] using hclean c hc
  · exact hne (writtenHost_of_slash hslash)
  · rcases writtenHost_of_hostOf hhost with ⟨-, hne⟩ | hne
    · have hdrop : rest.dropWhile (· == '/') = rest := by
        cases rest with
        | nil => rfl
        | cons c rest => exact List.dropWhile_cons_of_neg (by simpa using hslash)
      rwa [hdrop] at hne
    · exact hne
  · exact (writtenHost_of_hostOf hhost).resolve_right fun hne => hne (writtenHost_of_slash hslash)

theorem host_written_iff_user : checkUrl default "HTTP://a:b@[::1]:80/" = .ok () ∧
    ∃ scheme rest, "HTTP://a:b@[::1]:80/".toList = scheme ++ "://".toList ++ rest ∧ IsScheme scheme ∧
      writtenHost rest ≠ [] := by
  have h : checkUrl default "HTTP://a:b@[::1]:80/" = .ok () := rfl
  obtain ⟨scheme, rest, htext, hscheme, -, -, hiff, -⟩ := host_written_iff h
  obtain ⟨-, rfl⟩ : scheme = "HTTP".toList ∧ rest = "a:b@[::1]:80/".toList :=
    eq_of_scheme? rfl hscheme htext
  exact ⟨h, scheme, _, htext, hscheme, hiff.2 (by decide)⟩

/-- A third slash leaves the place of the host empty. -/
theorem host_not_written : checkUrl default "http:///[::1]" = .ok () ∧
    ¬ ∃ scheme rest, "http:///[::1]".toList = scheme ++ "://".toList ++ rest ∧ IsScheme scheme ∧
      writtenHost rest ≠ [] := by
  refine ⟨rfl, ?_⟩
  rintro ⟨scheme, rest, htext, hscheme, hne⟩
  obtain ⟨-, rfl⟩ : scheme = "http".toList ∧ rest = "/[::1]".toList := eq_of_scheme? rfl hscheme htext
  exact hne (writtenHost_of_slash rfl)

end SwiftMacro
