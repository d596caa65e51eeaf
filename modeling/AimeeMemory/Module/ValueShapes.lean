import AimeeMemory.Module.Extract
import AimeeMemory.Lib.Choice
import Mathlib.Data.List.GetD
import Mathlib.Tactic.IntervalCases

/-!
# The shapes of a value

`ClassifyValue` of `extract.go` tries five recognisers in turn. What follows here is what
each of them demands of the bytes: an alphabet that every byte is of, and a byte that is
there. Most pairs are apart by one byte of the one that the alphabet of the other has not;
the two forms with colons, a hardware address and an IPv6 address, are apart by their groups.

## What is proved

* `isIPv4_bytes`, `isMAC_bytes`, `isIPv6_bytes`, `isISODate_bytes`: the alphabets.
* **`valueShapes_disjoint`**: no string is of two shapes, so the order of the tests decides
  nothing.
-/

namespace AimeeMemory.Module

open AimeeMemory.Lib
open AimeeMemory.Core (Text text)

/-- The tests of `ClassifyValue`, in its order. -/
def valueTests : List ((Text → Bool) × ValueKind) :=
  [(isIPv4, .ipv4), (isMAC, .mac), (isIPv6, .ipv6), (isEmail, .email), (isISODate, .date)]

/-- `ClassifyValue` with its tests in some order. -/
def classifyIn (tests : List ((Text → Bool) × ValueKind)) (token : Text) : ValueKind :=
  if token = [] then .none
  else
    match tests.find? fun test => test.1 token with
    | some test => test.2
    | none => .none

theorem classifyIn_valueTests (token : Text) : classifyIn valueTests token = classifyValue token := by
  rw [classifyIn, classifyValue, valueTests]
  split
  · rfl
  · simp only [List.find?_cons, List.find?_nil]
    cases isIPv4 token <;> cases isMAC token <;> cases isIPv6 token <;> cases isEmail token <;>
      cases isISODate token <;> rfl

/-! ## Bytes by index -/

/-- A text of a known length, byte by byte. -/
theorem eq_map_byteAt (t : Text) : t = (List.range t.length).map (byteAt t) := by
  refine List.ext_getElem (by simp) fun i hi _ => ?_
  rw [List.getElem_map, List.getElem_range, byteAt, List.getD_eq_getElem _ _ hi]

theorem exists_byteAt {t : Text} {c : UInt8} (h : c ∈ t) : ∃ i < t.length, byteAt t i = c := by
  obtain ⟨i, hi, rfl⟩ := List.mem_iff_getElem.1 h
  exact ⟨i, hi, List.getD_eq_getElem _ _ hi⟩

theorem byteAt_mem {t : Text} {i : ℕ} (h : i < t.length) : byteAt t i ∈ t := by
  rw [byteAt, List.getD_eq_getElem _ _ h]
  exact List.getElem_mem h

/-! ## What each shape demands -/

/-- An octet is digits. -/
theorem octet_digits {t : Text} {k i n val m v : ℕ} (h : octet t k i n val = some (m, v)) :
    n ≤ m ∧ ∀ j, n ≤ j → j < m → isDigit (byteAt t (i + j)) := by
  induction k generalizing n val with
  | zero =>
    cases h
    exact ⟨le_rfl, fun j h1 h2 => absurd h2 (by omega)⟩
  | succ k ih =>
    rw [octet] at h
    split at h
    · rename_i hdigit
      split at h
      · cases h
      · obtain ⟨hle, hrest⟩ := ih h
        refine ⟨by omega, fun j h1 h2 => ?_⟩
        rcases Nat.eq_or_lt_of_le h1 with rfl | hlt
        · exact hdigit.2
        · exact hrest j hlt h2
    · cases h
      exact ⟨le_rfl, fun j h1 h2 => absurd h2 (by omega)⟩

/-- One turn of the loop reads digits, and a dot behind them where more follows. -/
theorem isIPv4Loop_bytes {t : Text} {k i octets : ℕ} (hk : t.length ≤ i + k) (h : isIPv4Loop t k i octets = true)
    {j : ℕ} (hi : i ≤ j) (hj : j < t.length) : isDigit (byteAt t j) ∨ byteAt t j = ch '.' := by
  induction k generalizing i octets with
  | zero => omega
  | succ k ih =>
    rw [isIPv4Loop, if_pos (by omega)] at h
    split at h
    · cases h
    · rename_i n val hoctet
      obtain ⟨-, hdigits⟩ := octet_digits hoctet
      split at h
      · cases h
      · rename_i hn
        rcases Nat.lt_or_ge j (i + n) with hlt | hge
        · left
          have hdigit := hdigits (j - i) (Nat.zero_le _) (by omega)
          rwa [Nat.add_sub_cancel' hi] at hdigit
        · split at h
          · rename_i hdot
            rcases Nat.eq_or_lt_of_le hge with rfl | hlt
            · exact .inr hdot.2
            · exact ih (by omega) h hlt
          · split at h
            · cases h
            · omega

theorem isIPv4_bytes {t : Text} (h : isIPv4 t) : ∀ c ∈ t, isDigit c ∨ c = ch '.' := by
  intro c hc
  obtain ⟨j, hj, rfl⟩ := exists_byteAt hc
  exact isIPv4Loop_bytes (Nat.zero_add _).ge h (Nat.zero_le j) hj

/-- Six groups of two digits with one separator between them. -/
structure IsMAC (t : Text) (sep : UInt8) : Prop where
  length : t.length = 17
  either : sep = ch ':' ∨ sep = ch '-'
  separated : ∀ g < 5, byteAt t (g * 3 + 2) = sep
  hex : ∀ g < 6, isHex (byteAt t (g * 3)) ∧ isHex (byteAt t (g * 3 + 1))

theorem isMAC_form {t : Text} (h : isMAC t) : IsMAC t (byteAt t 2) := by
  simp only [isMAC, Bool.decide_and, Bool.and_eq_true, decide_eq_true_eq, List.all_eq_true,
    List.mem_range, Bool.or_eq_true] at h
  obtain ⟨hlen, hsep, hgroups⟩ := h
  refine ⟨hlen, hsep, fun g hg => ?_, fun g hg => (hgroups g hg).1⟩
  rcases (hgroups g (by omega)).2 with hge | heq
  · omega
  · exact heq

/-- A byte of an address is a digit, or the separator at its place. -/
theorem IsMAC.byte {t : Text} {sep : UInt8} (h : IsMAC t sep) {i : ℕ} (hi : i < 17) :
    (i % 3 ≠ 2 ∧ isHex (byteAt t i)) ∨ (i % 3 = 2 ∧ byteAt t i = sep) := by
  obtain ⟨g, r, hr, rfl⟩ : ∃ g r, r < 3 ∧ i = g * 3 + r := ⟨i / 3, i % 3, by omega, by omega⟩
  interval_cases r
  · exact .inl ⟨by omega, (h.hex g (by omega)).1⟩
  · exact .inl ⟨by omega, (h.hex g (by omega)).2⟩
  · exact .inr ⟨by omega, h.separated g (by omega)⟩

theorem isMAC_bytes {t : Text} (h : isMAC t) : ∀ c ∈ t, isHex c ∨ c = ch ':' ∨ c = ch '-' := by
  have hmac := isMAC_form h
  intro c hc
  obtain ⟨i, hi, rfl⟩ := exists_byteAt hc
  rcases hmac.byte (hmac.length ▸ hi) with ⟨-, hhex⟩ | ⟨-, hsep⟩
  · exact .inl hhex
  · rw [hsep]
    exact .inr hmac.either

theorem isIPv6_bytes {t : Text} (h : isIPv6 t) : ∀ c ∈ t, isHex c ∨ c = ch ':' := by
  rw [isIPv6] at h
  split at h
  · cases h
  · split at h
    · cases h
    · rename_i hall
      rw [Bool.not_eq_true', Bool.not_eq_false, List.all_eq_true] at hall
      intro c hc
      simpa using hall c hc

theorem colon_mem_of_isIPv6 {t : Text} (h : isIPv6 t) : ch ':' ∈ t := by
  rw [isIPv6] at h
  split at h
  · cases h
  · rename_i hmem
    exact not_not.1 hmem

theorem at_mem_of_isEmail {t : Text} (h : isEmail t) : ch '@' ∈ t := by
  rw [isEmail] at h
  split at h
  · cases h
  · rename_i at_ hat
    rw [indexByte] at hat
    obtain ⟨hlt, hfound, -⟩ := List.findIdx?_eq_some_iff_getElem.1 hat
    rw [← of_decide_eq_true hfound]
    exact List.getElem_mem hlt

/-- A date has ten bytes, dashes at two of them and digits elsewhere. -/
theorem isISODate_form {t : Text} (h : isISODate t) :
    t.length = 10 ∧ byteAt t 4 = ch '-' ∧ ∀ i < 10, isDigit (byteAt t i) ∨ byteAt t i = ch '-' := by
  rw [isISODate] at h
  split at h
  · cases h
  rename_i hform
  simp only [not_or, not_not] at hform
  obtain ⟨hlen, h4, h7⟩ := hform
  split at h
  · cases h
  rename_i hdigits
  refine ⟨hlen, h4, fun i hi => ?_⟩
  rw [eq_map_byteAt t, hlen] at hdigits
  simp [allDigits, slice, List.range_succ] at hdigits
  interval_cases i <;> simp [*]

theorem isISODate_bytes {t : Text} (h : isISODate t) : ∀ c ∈ t, isDigit c ∨ c = ch '-' := by
  obtain ⟨hlen, -, hbytes⟩ := isISODate_form h
  intro c hc
  obtain ⟨i, hi, rfl⟩ := exists_byteAt hc
  exact hbytes i (hlen ▸ hi)

theorem dash_mem_of_isISODate {t : Text} (h : isISODate t) : ch '-' ∈ t := by
  obtain ⟨hlen, hdash, -⟩ := isISODate_form h
  rw [← hdash]
  exact byteAt_mem (by omega)

/-! ## Two forms with colons -/

/-- Every colon ends a group, and the end of the text the last one. -/
theorem ipv6Groups_count {t : Text} {groups length n : ℕ} (h : ipv6Groups t groups length = some n) :
    n = groups + t.count (ch ':') + 1 := by
  induction t generalizing groups length with
  | nil =>
    rw [ipv6Groups] at h
    split at h
    · cases h
    · cases h
      rfl
  | cons c t ih =>
    rw [ipv6Groups] at h
    split at h
    · rename_i hc
      split at h
      · cases h
      · rw [ih h, hc, List.count_cons_self]
        omega
    · rename_i hc
      rw [ih h, List.count_cons_of_ne hc]

theorem colon_not_hex : isHex (ch ':') = false := by decide

/-- No two separators of a hardware address meet. -/
theorem IsMAC.no_run {t : Text} {sep : UInt8} (h : IsMAC t sep) : ¬text "::" <:+: t := by
  rintro ⟨before, after, rfl⟩
  have hcolon : text "::" = [ch ':', ch ':'] := by decide
  rw [hcolon] at h
  have hlen := h.length
  simp only [List.length_append, List.length_cons, List.length_nil] at hlen
  have hfirst : byteAt (before ++ [ch ':', ch ':'] ++ after) before.length = ch ':' := by simp [byteAt]
  have hsecond : byteAt (before ++ [ch ':', ch ':'] ++ after) (before.length + 1) = ch ':' := by
    simp [byteAt]
  -- one of the two places is a digit's
  have hone := h.byte (show before.length < 17 by omega)
  have htwo := h.byte (show before.length + 1 < 17 by omega)
  rw [hfirst, colon_not_hex] at hone
  rw [hsecond, colon_not_hex] at htwo
  have h1 : before.length % 3 = 2 := by simpa using hone.resolve_left (by simp) |>.1
  have h2 : (before.length + 1) % 3 = 2 := by simpa using htwo.resolve_left (by simp) |>.1
  omega

/-- The colons of a hardware address are five at most. -/
theorem IsMAC.count_colon {t : Text} {sep : UInt8} (h : IsMAC t sep) : t.count (ch ':') ≤ 5 := by
  rw [eq_map_byteAt t, h.length, List.count, List.countP_map]
  calc (List.range 17).countP ((· == ch ':') ∘ byteAt t)
      ≤ (List.range 17).countP fun i => i % 3 = 2 := by
        refine List.countP_mono_left fun i hi hcolon => ?_
        rcases h.byte (List.mem_range.1 hi) with ⟨-, hdigit⟩ | ⟨heq, -⟩
        · rw [show byteAt t i = ch ':' from eq_of_beq hcolon, colon_not_hex] at hdigit
          cases hdigit
        · exact decide_eq_true heq
    _ = 5 := by decide

theorem not_isIPv6_of_isMAC {t : Text} (h : isMAC t) : ¬isIPv6 t := by
  have hmac := isMAC_form h
  intro h6
  rw [isIPv6] at h6
  split at h6
  · cases h6
  split at h6
  · cases h6
  split at h6
  · rename_i hrun
    exact hmac.no_run hrun
  · have hcount := ipv6Groups_count (of_decide_eq_true h6)
    have hle := hmac.count_colon
    omega

/-! ## No two shapes -/

/-- Two shapes are apart where every byte of the one is of an alphabet, and a byte of the other
is not. -/
theorem apart_of_mem {p q : Text → Bool} {alphabet : UInt8 → Prop} {c : UInt8} (hp : ∀ {t}, p t → ∀ d ∈ t, alphabet d)
    (hq : ∀ {t}, q t → c ∈ t) (hc : ¬alphabet c) (t : Text) : ¬(p t ∧ q t) :=
  fun h => hc (hp h.1 c (hq h.2))

theorem mac_sep_mem {t : Text} (h : isMAC t) : ch ':' ∈ t ∨ ch '-' ∈ t := by
  have hmac := isMAC_form h
  have hmem : byteAt t 2 ∈ t := byteAt_mem (by rw [hmac.length]; omega)
  rcases hmac.either with heq | heq
  · exact .inl (heq ▸ hmem)
  · exact .inr (heq ▸ hmem)

/-- No string is recognised by two of the tests. -/
theorem valueTests_pairwise (t : Text) : valueTests.Pairwise fun p q => ¬(p.1 t ∧ q.1 t) := by
  have hipv4mac : ¬(isIPv4 t ∧ isMAC t) := by
    rintro ⟨h4, hmac⟩
    rcases mac_sep_mem hmac with hmem | hmem
    · exact absurd (isIPv4_bytes h4 _ hmem) (by decide)
    · exact absurd (isIPv4_bytes h4 _ hmem) (by decide)
  have hmacdate : ¬(isMAC t ∧ isISODate t) := by
    rintro ⟨hmac, hdate⟩
    have hlen := (isMAC_form hmac).length
    rw [(isISODate_form hdate).1] at hlen
    omega
  simp only [valueTests, List.pairwise_cons, List.mem_cons, List.not_mem_nil, or_false, forall_eq_or_imp, forall_eq]
  refine ⟨⟨hipv4mac, ?_, ?_, ?_⟩, ⟨?_, ?_, hmacdate⟩, ⟨?_, ?_⟩, ?_, by simp⟩
  · exact apart_of_mem isIPv4_bytes colon_mem_of_isIPv6 (by decide) t
  · exact apart_of_mem isIPv4_bytes at_mem_of_isEmail (by decide) t
  · exact apart_of_mem isIPv4_bytes dash_mem_of_isISODate (by decide) t
  · exact fun h => not_isIPv6_of_isMAC h.1 h.2
  · exact apart_of_mem isMAC_bytes at_mem_of_isEmail (by decide) t
  · exact apart_of_mem isIPv6_bytes at_mem_of_isEmail (by decide) t
  · exact apart_of_mem isIPv6_bytes dash_mem_of_isISODate (by decide) t
  · exact fun h => apart_of_mem isISODate_bytes at_mem_of_isEmail (by decide) t h.symm

/-- **Value shapes are disjoint**: of the five recognisers at most one holds of a string, so
that `ClassifyValue` is the same in every order of its tests. -/
theorem valueShapes_disjoint :
    (∀ t : Text, (valueTests.countP fun test => test.1 t) ≤ 1) ∧
      ∀ tests : List ((Text → Bool) × ValueKind), valueTests.Perm tests → ∀ t, classifyIn tests t = classifyValue t := by
  refine ⟨fun t => countP_le_one (valueTests_pairwise t), fun tests hperm t => ?_⟩
  rw [← classifyIn_valueTests, classifyIn, classifyIn, find?_perm (valueTests_pairwise t) hperm]

end AimeeMemory.Module
