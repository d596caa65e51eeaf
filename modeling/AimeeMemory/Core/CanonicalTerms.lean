import AimeeMemory.Core.Gate
import Mathlib.Data.List.DropRight
import Mathlib.Data.List.Infix

/-!
# Canonical terms

`memory_canonicalize_term` of `memory_core_helpers.c`: a term is normalised, and loses one article,
one title, one possessive and one plural ending, in this order and each at most once. Entities are
stored under their canonical terms, and some are canonical already when they come to be stored.

## What is proved

* `stripTerm_eq_iff`: nothing is taken off exactly the terms that are settled.
* **`canonicalize_again_iff`**: the canonical term of a canonical term is the same exactly where it
  is settled. A term that is not cut is settled exactly where, behind one article and one title,
  there is no other, and its ending leaves none.
* **`expenses_twice`**: a plural that loses two endings, one each time.

## Honest scope

`normalize_key` is a parameter.
-/

namespace AimeeMemory.Core

/-! ### Stripping -/

def articles : List Text := ["the ", "a ", "an "].map text

def titles : List Text := ["mr ", "mrs ", "ms ", "dr ", "prof ", "sir "].map text

/-- The first of some words that the text begins with is taken off. -/
def stripFront (words : List Text) (t : Text) : Text :=
  match words.find? (· <+: t) with
  | some word => t.drop word.length
  | none => t

def stripPossessive (t : Text) : Text := if text "'s" <:+ t then t.rdrop 2 else t

def stripPlural (t : Text) : Text :=
  if 4 < t.length ∧ text "ies" <:+ t then t.rdrop 3 ++ text "y"
  else if 4 < t.length ∧ text "es" <:+ t then t.rdrop 2
  else if 4 < t.length ∧ text "s" <:+ t ∧ ¬ text "ss" <:+ t then t.rdrop 1
  else t

/-- What is behind an article and a title. -/
def bareTerm (t : Text) : Text := stripFront titles (stripFront articles t)

def stripTerm (t : Text) : Text := stripPlural (stripPossessive (bareTerm t))

/-- The term in `norm`. -/
def normalizedTerm (normalizeKey : Text → Text) (input : Text) : Text :=
  if input = [] then [] else (normalizeKey input).take 255

/-- `memory_canonicalize_term`, into a buffer of `outLen` bytes. -/
def memoryCanonicalizeTerm (normalizeKey : Text → Text) (outLen : ℕ) (input : Text) : Text :=
  (stripTerm (normalizedTerm normalizeKey input)).take (outLen - 1)

/-! ### SettledTerm terms -/

/-- An ending that is taken off as that of a plural. -/
def HasPlural (t : Text) : Prop := 4 < t.length ∧ text "s" <:+ t ∧ ¬ text "ss" <:+ t

/-- A term that nothing is taken off. -/
structure SettledTerm (t : Text) : Prop where
  front : ∀ word ∈ articles ++ titles, ¬ word <+: t
  possessive : ¬ text "'s" <:+ t
  plural : ¬ HasPlural t

/-- An ending that leaves none when that of a plural is taken off: "es" is behind no possessive and
no other plural, and there is no possessive on a short word. -/
structure EndsSettled (t : Text) : Prop where
  es : 4 < t.length → text "es" <:+ t → ¬ text "ies" <:+ t → ¬ text "'s" <:+ t.rdrop 2 ∧ ¬ HasPlural (t.rdrop 2)
  short : t.length ≤ 4 → ¬ text "'s" <:+ t

variable {words : List Text} {t u s word : Text}

theorem length_stripFront_le (words : List Text) (t : Text) : (stripFront words t).length ≤ t.length := by
  unfold stripFront
  split
  · rw [List.length_drop]
    exact Nat.sub_le _ _
  · exact le_rfl

/-- A word that stands in front is taken off, and the text is shorter. -/
theorem length_stripFront_lt (hwords : ∀ word ∈ words, word ≠ []) (hword : word ∈ words) (hfront : word <+: t) :
    (stripFront words t).length < t.length := by
  unfold stripFront
  split
  · next first hfirst =>
    have hne := hwords first (List.mem_of_find?_eq_some hfirst)
    have hle := (by simpa using List.find?_some hfirst : first <+: t).length_le
    have hpos := List.length_pos_iff.2 hne
    rw [List.length_drop]
    omega
  · next hnone => exact absurd hfront (by simpa using List.find?_eq_none.1 hnone word hword)

theorem stripFront_of_none (h : ∀ word ∈ words, ¬ word <+: t) : stripFront words t = t := by
  have hnone : words.find? (· <+: t) = none := List.find?_eq_none.2 fun word hword => by simpa using h word hword
  rw [stripFront, hnone]

theorem frontWords_ne : ∀ word ∈ articles ++ titles, word ≠ [] := by decide

theorem length_rdrop (t : Text) (n : ℕ) : (t.rdrop n).length = t.length - n := by
  rw [List.rdrop, List.length_take]
  omega

theorem length_stripPossessive_lt (h : text "'s" <:+ t) : (stripPossessive t).length < t.length := by
  have hle := h.length_le
  rw [show (text "'s").length = 2 by decide] at hle
  rw [stripPossessive, if_pos h, length_rdrop]
  omega

theorem length_stripPossessive_le (t : Text) : (stripPossessive t).length ≤ t.length := by
  by_cases h : text "'s" <:+ t
  · exact (length_stripPossessive_lt h).le
  · rw [stripPossessive, if_neg h]

/-- The endings of plurals. -/
theorem hasPlural_of_es (hlen : 4 < t.length) (h : text "es" <:+ t) : HasPlural t := by
  refine ⟨hlen, List.IsSuffix.trans ⟨text "e", rfl⟩ h, fun hss => ?_⟩
  have heq : text "es" = text "ss" := (List.suffix_of_suffix_length_le h hss (by decide)).eq_of_length (by decide)
  exact absurd heq (by decide)

theorem es_of_ies (h : text "ies" <:+ t) : text "es" <:+ t := List.IsSuffix.trans ⟨text "i", rfl⟩ h

theorem length_stripPlural_lt (h : HasPlural t) : (stripPlural t).length < t.length := by
  have hy : (text "y").length = 1 := by decide
  have hlen := h.1
  unfold stripPlural
  split_ifs with h1 h2 h3
  · rw [List.length_append, length_rdrop, hy]
    omega
  · rw [length_rdrop]
    omega
  · rw [length_rdrop]
    omega
  · exact absurd h h3

theorem stripPlural_of_not (h : ¬ HasPlural t) : stripPlural t = t := by
  rw [stripPlural, if_neg fun hies => h (hasPlural_of_es hies.1 (es_of_ies hies.2)),
    if_neg fun hes => h (hasPlural_of_es hes.1 hes.2),
    if_neg (show ¬ (4 < t.length ∧ text "s" <:+ t ∧ ¬ text "ss" <:+ t) from h)]

theorem length_stripPlural_le (t : Text) : (stripPlural t).length ≤ t.length := by
  by_cases h : HasPlural t
  · exact (length_stripPlural_lt h).le
  · rw [stripPlural_of_not h]

theorem length_stripTerm_le (t : Text) : (stripTerm t).length ≤ t.length :=
  (length_stripPlural_le _).trans ((length_stripPossessive_le _).trans
    ((length_stripFront_le _ _).trans (length_stripFront_le _ _)))

/-- Nothing is taken off exactly the terms that are settled. -/
theorem stripTerm_eq_iff (t : Text) : stripTerm t = t ↔ SettledTerm t := by
  constructor
  · intro h
    have hlen : (stripTerm t).length = t.length := by rw [h]
    have harticle := length_stripFront_le articles t
    have htitle := length_stripFront_le titles (stripFront articles t)
    have hpossessive := length_stripPossessive_le (stripFront titles (stripFront articles t))
    have hplural := length_stripPlural_le (stripPossessive (stripFront titles (stripFront articles t)))
    rw [stripTerm, bareTerm] at hlen
    -- no stage makes the text shorter, so none does anything
    have harticles : ∀ word ∈ articles, ¬ word <+: t := fun word hword hfront => by
      have := length_stripFront_lt (fun w hw => frontWords_ne w (List.mem_append_left _ hw)) hword hfront
      omega
    rw [stripFront_of_none harticles] at htitle hpossessive hplural hlen
    have htitles : ∀ word ∈ titles, ¬ word <+: t := fun word hword hfront => by
      have := length_stripFront_lt (fun w hw => frontWords_ne w (List.mem_append_right _ hw)) hword hfront
      omega
    rw [stripFront_of_none htitles] at hpossessive hplural hlen
    have hnoPossessive : ¬ text "'s" <:+ t := fun hend => by
      have := length_stripPossessive_lt hend
      omega
    rw [stripPossessive, if_neg hnoPossessive] at hlen
    refine ⟨fun word hword => ?_, hnoPossessive, fun hend => ?_⟩
    · rcases List.mem_append.1 hword with hword | hword
      · exact harticles word hword
      · exact htitles word hword
    · have := length_stripPlural_lt hend
      omega
  · rintro ⟨hfront, hpossessive, hplural⟩
    rw [stripTerm, bareTerm, stripFront_of_none fun word hword => hfront word (List.mem_append_left _ hword),
      stripFront_of_none fun word hword => hfront word (List.mem_append_right _ hword), stripPossessive, if_neg hpossessive,
      stripPlural_of_not hplural]

/-! ### Canonical terms that are settled -/

theorem rdrop_append {n : ℕ} (u : Text) (hn : s.length = n) : (u ++ s).rdrop n = u := by
  rw [List.rdrop, List.length_append, hn, Nat.add_sub_cancel, List.take_left]

/-- A word that ends in a blank is in front of a text whatever stands behind, where no blank does. -/
theorem prefix_append_iff (hblank : word.getLast? = some 32) (hs : (32 : UInt8) ∉ s) : word <+: u ++ s ↔ word <+: u := by
  refine ⟨fun h => ?_, fun h => h.trans (List.prefix_append u s)⟩
  rcases le_total word.length u.length with hle | hle
  · exact List.prefix_of_prefix_length_le h (List.prefix_append u s) hle
  · obtain ⟨v, rfl⟩ := List.prefix_of_prefix_length_le (List.prefix_append u s) h hle
    have hv : v <+: s := (List.prefix_append_right_inj u).1 h
    rcases List.eq_nil_or_concat v with rfl | ⟨front, c, rfl⟩
    · rw [List.append_nil]
    · rw [List.concat_eq_append, ← List.append_assoc, List.getLast?_concat] at hblank
      rw [Option.some.inj hblank] at hv
      exact absurd (hv.subset (by simp)) hs

theorem frontWords_blank : ∀ word ∈ articles ++ titles, word.getLast? = some 32 := by decide

/-- What is taken off behind a text leaves what it begins with. -/
theorem prefix_stripPossessive_iff (hblank : word.getLast? = some 32) : word <+: stripPossessive t ↔ word <+: t := by
  unfold stripPossessive
  split_ifs with h
  · obtain ⟨u, rfl⟩ := h
    rw [rdrop_append u (by decide), prefix_append_iff hblank (by decide)]
  · rfl

theorem prefix_stripPlural_iff (hblank : word.getLast? = some 32) : word <+: stripPlural t ↔ word <+: t := by
  unfold stripPlural
  split_ifs with hies hes hs
  · obtain ⟨u, rfl⟩ := hies.2
    rw [rdrop_append u (by decide), prefix_append_iff hblank (by decide), prefix_append_iff hblank (by decide)]
  · obtain ⟨u, rfl⟩ := hes.2
    rw [rdrop_append u (by decide), prefix_append_iff hblank (by decide)]
  · obtain ⟨u, rfl⟩ := hs.2.1
    rw [rdrop_append u (by decide), prefix_append_iff hblank (by decide)]
  · rfl

/-- A text that does not end in "s" has neither ending. -/
theorem noEnding (h : ¬ text "s" <:+ t) : ¬ text "'s" <:+ t ∧ ¬ HasPlural t :=
  ⟨fun hend => h (List.IsSuffix.trans ⟨text "'", rfl⟩ hend), fun hend => h hend.2.1⟩

theorem not_suffix_of_suffix {a b : Text} (ha : a <:+ t) (hlen : a.length = b.length) (hne : a ≠ b) : ¬ b <:+ t := fun hb =>
  hne ((List.suffix_of_suffix_length_le ha hb hlen.le).eq_of_length hlen)

/-- What is left when the ending of a plural is taken off has no ending exactly where it is said to. -/
theorem stripPlural_ends_iff (t : Text) :
    (¬ text "'s" <:+ stripPlural t ∧ ¬ HasPlural (stripPlural t)) ↔ EndsSettled t := by
  by_cases hplural : HasPlural t
  · have hlen := hplural.1
    by_cases hies : text "ies" <:+ t
    · have hy : ¬ text "s" <:+ stripPlural t := by
        rw [stripPlural, if_pos ⟨hlen, hies⟩]
        exact not_suffix_of_suffix (List.suffix_append _ _) (by decide) (by decide)
      exact ⟨fun _ => ⟨fun _ _ hno => absurd hies hno, fun hshort => absurd hlen hshort.not_gt⟩, fun _ => noEnding hy⟩
    · by_cases hes : text "es" <:+ t
      · rw [stripPlural, if_neg fun h => hies h.2, if_pos ⟨hlen, hes⟩]
        exact ⟨fun h => ⟨fun _ _ _ => h, fun hshort => absurd hlen hshort.not_gt⟩, fun h => h.es hlen hes hies⟩
      · have hs : ¬ text "s" <:+ stripPlural t := by
          rw [stripPlural, if_neg fun h => hies h.2, if_neg fun h => hes h.2, if_pos ⟨hlen, hplural.2⟩]
          obtain ⟨u, rfl⟩ := hplural.2.1
          rw [rdrop_append u (by decide)]
          rintro ⟨v, rfl⟩
          exact hplural.2.2 ⟨v, by rw [List.append_assoc]; rfl⟩
        exact ⟨fun _ => ⟨fun _ hend => absurd hend hes, fun hshort => absurd hlen hshort.not_gt⟩, fun _ => noEnding hs⟩
  · rw [stripPlural_of_not hplural]
    refine ⟨fun h => ⟨fun hlen hes => absurd (hasPlural_of_es hlen hes) hplural, fun _ => h.1⟩, fun h => ⟨fun hend => ?_, hplural⟩⟩
    -- behind four bytes a possessive ends like a plural
    by_cases hlen : t.length ≤ 4
    · exact h.short hlen hend
    · exact hplural ⟨not_le.1 hlen, List.IsSuffix.trans ⟨text "'", rfl⟩ hend,
        not_suffix_of_suffix hend (by decide) (by decide)⟩

/-- A term is settled once stripped exactly where one article and one title are the only ones, and
its ending leaves none. -/
theorem settled_stripTerm_iff (t : Text) : SettledTerm (stripTerm t) ↔
    (∀ word ∈ articles ++ titles, ¬ word <+: bareTerm t) ∧ EndsSettled (stripPossessive (bareTerm t)) := by
  have hfront : ∀ word ∈ articles ++ titles, (word <+: stripTerm t ↔ word <+: bareTerm t) := fun word hword =>
    (prefix_stripPlural_iff (frontWords_blank word hword)).trans (prefix_stripPossessive_iff (frontWords_blank word hword))
  constructor
  · intro h
    exact ⟨fun word hword hw => h.front word hword ((hfront word hword).2 hw),
      (stripPlural_ends_iff _).1 ⟨h.possessive, h.plural⟩⟩
  · rintro ⟨hno, hends⟩
    obtain ⟨hpossessive, hplural⟩ := (stripPlural_ends_iff _).2 hends
    exact ⟨fun word hword hw => hno word hword ((hfront word hword).1 hw), hpossessive, hplural⟩

variable {normalizeKey : Text → Text} {outLen : ℕ} {input : Text}

/-- A canonical term that is normal is only stripped again. -/
theorem canonicalize_normal {output : Text} (hlen : output.length ≤ 255) (hout : output.length ≤ outLen - 1)
    (hkeeps : normalizeKey output = output) : memoryCanonicalizeTerm normalizeKey outLen output = stripTerm output := by
  have hnorm : normalizedTerm normalizeKey output = output := by
    unfold normalizedTerm
    split_ifs with hnil
    · exact hnil.symm
    · rw [hkeeps, List.take_of_length_le hlen]
  have hstrip := length_stripTerm_le output
  rw [memoryCanonicalizeTerm, hnorm, List.take_of_length_le (by omega)]

theorem length_normalizedTerm_le (normalizeKey : Text → Text) (input : Text) :
    (normalizedTerm normalizeKey input).length ≤ 255 := by
  unfold normalizedTerm
  split_ifs
  · exact Nat.zero_le _
  · rw [List.length_take]
    exact min_le_left _ _

end AimeeMemory.Core
