import AimeeMemory.Module.Ontology
import AimeeMemory.Lib.Runs

/-!
# The names of relations

`normalizeRelType` of `ontology.go` by the words of its label: the runs of letters and digits.
A word is written in lower case, with an underscore before a capital that follows a lower-case
letter or a digit; the words are joined by underscores and cut to 63 bytes.

## What is proved

* `spell_words`: the scanner writes the words of the label one after the other.
* `normalizeRelType_words`: a normal form is a function of the label's words.
* **`normalizeRelType_canonical`**: the form of a name, that it is kept, and which labels share it.
-/

namespace AimeeMemory.Module

open AimeeMemory.Lib
open AimeeMemory.Core (Text text)

/-- The words of a label: whatever separates them is dropped. -/
def labelWords (label : Text) : List Text := runs isAlnum label

/-- A word as the scanner writes it, behind a lower-case letter or a digit or not. -/
def spellWord : Bool → Text → Text
  | _, [] => []
  | afterLower, c :: cs =>
    if isUpper c ∧ afterLower then underscore :: toLower c :: spellWord (isLower c || isDigit c) cs
    else toLower c :: spellWord (isLower c || isDigit c) cs

/-- Where a word breaks: at each capital behind a lower-case letter or a digit. -/
def camelBreaks : Bool → Text → List Bool
  | _, [] => []
  | afterLower, c :: cs => (isUpper c && afterLower) :: camelBreaks (isLower c || isDigit c) cs

/-- The words differ in case alone, and break at the same places. -/
def SameWord (v w : Text) : Prop := v.map toLower = w.map toLower ∧ camelBreaks false v = camelBreaks false w

/-! ## The scanner by words -/

/-- What the scanner writes from a state: between words, and inside of one. The induction is
over the label; a separator at its end leaves an underscore. -/
theorem spell_words (cs : Text) :
    (∃ tail, (tail = [] ∨ (tail = [underscore] ∧ labelWords cs ≠ [])) ∧
      spell true false cs = joined underscore ((labelWords cs).map (spellWord false)) ++ tail) ∧
    ∀ pl r rs, (cs.splitOnP fun c => !isAlnum c) = r :: rs → ∃ tail, (tail = [] ∨ tail = [underscore]) ∧
      spell false pl cs = spellWord pl r ++ (nonempties rs).flatMap (fun w => underscore :: spellWord false w) ++ tail := by
  induction cs with
  | nil =>
    refine ⟨⟨[], .inl rfl, by simp [labelWords, joined, spell]⟩, fun pl r rs hsplit => ?_⟩
    simp only [List.splitOnP_nil, List.cons.injEq] at hsplit
    obtain ⟨rfl, rfl⟩ := hsplit
    exact ⟨[], .inl rfl, by simp [spell, spellWord, nonempties]⟩
  | cons c cs ih =>
    obtain ⟨⟨tail, htail, hbetween⟩, hinside⟩ := ih
    obtain ⟨r, rs, hsplit⟩ := List.exists_cons_of_ne_nil (List.splitOnP_ne_nil (fun c => !isAlnum c) cs)
    by_cases hc : isAlnum c
    · -- a word begins, or goes on
      have hcons : ((c :: cs).splitOnP fun c => !isAlnum c) = (c :: r) :: rs := by
        rw [List.splitOnP_cons_eq_if_modifyHead, if_neg (by simp [hc]), hsplit, List.modifyHead_cons]
      constructor
      · obtain ⟨tail', htail', hin⟩ := hinside (isLower c || isDigit c) r rs hsplit
        have hwords : labelWords (c :: cs) = (c :: r) :: nonempties rs := runs_cons_of hc hsplit
        refine ⟨tail', htail'.imp id fun h => ⟨h, by simp [hwords]⟩, ?_⟩
        rw [hwords, List.map_cons, joined_cons, List.flatMap_map, spell, if_pos hc, if_neg (by simp), hin, spellWord,
          if_neg (by simp)]
        simp
      · intro pl r' rs' hsplit'
        rw [hcons, List.cons.injEq] at hsplit'
        obtain ⟨rfl, rfl⟩ := hsplit'
        obtain ⟨tail', htail', hin⟩ := hinside (isLower c || isDigit c) r rs hsplit
        refine ⟨tail', htail', ?_⟩
        rw [spell, if_pos hc, spellWord, hin]
        by_cases hcap : isUpper c ∧ pl
        · rw [if_pos ⟨hcap.1, hcap.2, rfl⟩, if_pos hcap]
          simp
        · rw [if_neg fun h => hcap ⟨h.1, h.2.1⟩, if_neg hcap]
          simp
    · have hsep : isAlnum c = false := Bool.eq_false_iff.2 hc
      have hwords : labelWords (c :: cs) = labelWords cs := runs_cons_of_not hsep
      constructor
      · refine ⟨tail, by rwa [hwords], ?_⟩
        rw [hwords, ← hbetween, spell, if_neg hc, if_pos rfl]
      · intro pl r' rs' hsplit'
        rw [List.splitOnP_cons_eq_if_modifyHead, if_pos (by simp [hsep]), List.cons.injEq] at hsplit'
        obtain ⟨rfl, rfl⟩ := hsplit'
        have hruns : nonempties (cs.splitOnP fun c => !isAlnum c) = labelWords cs := rfl
        rw [hruns, spell, if_neg hc, if_neg (by simp), hbetween, spellWord]
        cases hws : labelWords cs with
        | nil =>
          have hnil : tail = [] := htail.resolve_right fun h => h.2 hws
          exact ⟨[underscore], .inr rfl, by simp [hnil, joined]⟩
        | cons w ws =>
          refine ⟨tail, htail.imp id And.left, ?_⟩
          rw [List.map_cons, joined_cons, List.flatMap_map]
          simp

/-- **A normal form by words**: the spelled words joined by underscores and cut, less a last
underscore. -/
theorem normalizeRelType_words (label : Text) : normalizeRelType label =
    trimUnderscore ((joined underscore ((labelWords label).map (spellWord false))).take (relTypeNameMax - 1)) := by
  obtain ⟨⟨tail, htail, hspell⟩, -⟩ := spell_words label
  rw [normalizeRelType_eq, hspell]
  rcases htail with rfl | ⟨rfl, -⟩
  · rw [List.append_nil]
  · have hjoined := spell_joined true false label
    rw [hspell] at hjoined
    generalize joined underscore ((labelWords label).map (spellWord false)) = words at *
    rcases Nat.lt_or_ge words.length (relTypeNameMax - 1) with hlt | hge
    · -- the last separator is written, and trimmed again
      have hlast : words.getLast? ≠ some underscore := by
        intro hlast
        obtain ⟨before, rfl⟩ := List.getLast?_eq_some_iff.1 hlast
        exact not_joined_twice true before hjoined
      have hfit : (words ++ [underscore]).length ≤ relTypeNameMax - 1 := by
        rw [List.length_append, List.length_singleton]
        omega
      rw [List.take_of_length_le hfit, List.take_of_length_le (by omega), trimUnderscore, trimUnderscore, if_neg hlast,
        if_pos List.getLast?_concat, List.dropLast_concat]
    · rw [List.take_append_of_le_length hge]

/-- How a word is spelled is a matter of its letters and its breaks. -/
theorem spellWord_eq {v w : Text} {pl pl' : Bool} (hletters : v.map toLower = w.map toLower)
    (hbreaks : camelBreaks pl v = camelBreaks pl' w) : spellWord pl v = spellWord pl' w := by
  induction v generalizing w pl pl' with
  | nil =>
    cases w with
    | nil => rfl
    | cons d w => cases hletters
  | cons c v ih =>
    cases w with
    | nil => cases hletters
    | cons d w =>
      simp only [List.map_cons, List.cons.injEq] at hletters
      simp only [camelBreaks, List.cons.injEq] at hbreaks
      have hcap : (isUpper c = true ∧ pl = true) ↔ (isUpper d = true ∧ pl' = true) := by
        rw [← Bool.and_eq_true, ← Bool.and_eq_true, hbreaks.1]
      rw [spellWord, spellWord, ih hletters.2 hbreaks.2, hletters.1]
      simp only [hcap]

/-! ## The form of a name -/

/-- **A name of a relation**: at most 63 letters in lower case, digits and underscores, with
single underscores between other bytes. -/
structure IsRelName (s : Text) : Prop where
  length : s.length ≤ 63
  bytes : ∀ c ∈ s, isLower c ∨ isDigit c ∨ c = underscore
  leading : s.head? ≠ some underscore
  trailing : s.getLast? ≠ some underscore
  doubled : ¬[underscore, underscore] <:+: s

theorem Joined.bytes {pu : Bool} {s : Text} (h : Joined pu s) : ∀ c ∈ s, isLower c ∨ isDigit c ∨ c = underscore := by
  induction s generalizing pu with
  | nil => exact nofun
  | cons c s ih =>
    rw [List.forall_mem_cons]
    rcases h with ⟨rfl, -, hs⟩ | ⟨halnum, hupper, hs⟩
    · exact ⟨.inr (.inr rfl), ih hs⟩
    · refine ⟨?_, ih hs⟩
      simp only [isAlnum, hupper, Bool.false_or, Bool.or_eq_true] at halnum
      exact halnum.imp id .inl

theorem Joined.leading {s : Text} (h : Joined true s) : s.head? ≠ some underscore := by
  cases s with
  | nil => simp
  | cons c s =>
    rcases h with ⟨-, hfalse, -⟩ | ⟨halnum, -, -⟩
    · cases hfalse
    · rintro hhead
      rw [Option.some.inj hhead, isAlnum_underscore] at halnum
      cases halnum

theorem Joined.doubled {pu : Bool} {s : Text} (h : Joined pu s) : ¬[underscore, underscore] <:+: s := by
  rintro ⟨before, after, rfl⟩
  have hbefore := h.of_append
  rw [List.append_cons before underscore] at hbefore
  exact not_joined_twice pu before hbefore

theorem trimUnderscore_trailing {pu : Bool} {s : Text} (h : Joined pu s) : (trimUnderscore s).getLast? ≠ some underscore := by
  rw [trimUnderscore]
  split
  · rename_i hlast
    obtain ⟨before, rfl⟩ := List.getLast?_eq_some_iff.1 hlast
    rw [List.dropLast_concat]
    intro hbefore
    obtain ⟨before', rfl⟩ := List.getLast?_eq_some_iff.1 hbefore
    exact not_joined_twice pu before' h
  · rename_i hlast
    exact hlast

theorem normalizeRelType_isRelName (label : Text) : IsRelName (normalizeRelType label) := by
  have hjoined := normalizeRelType_joined label
  refine ⟨length_normalizeRelType label, hjoined.bytes, hjoined.leading, ?_, hjoined.doubled⟩
  rw [normalizeRelType_eq]
  have hspell := spell_joined true false label
  rw [← List.take_append_drop (relTypeNameMax - 1) (spell true false label)] at hspell
  exact trimUnderscore_trailing hspell.of_append

/-- **Relation names are canonical**: a normal form is a name and is kept, and two labels have
one normal form where their words differ in case alone and break at the same places, whatever
separates them. -/
theorem normalizeRelType_canonical (label : Text) :
    IsRelName (normalizeRelType label) ∧ normalizeRelType (normalizeRelType label) = normalizeRelType label ∧
      ∀ other : Text, List.Forall₂ SameWord (labelWords label) (labelWords other) →
        normalizeRelType label = normalizeRelType other := by
  refine ⟨normalizeRelType_isRelName label, normalizeRelType_idem label, fun other hwords => ?_⟩
  have hspelled : (labelWords label).map (spellWord false) = (labelWords other).map (spellWord false) := by
    generalize labelWords label = vs, labelWords other = ws at hwords
    induction hwords with
    | nil => rfl
    | cons hword _ ih => rw [List.map_cons, List.map_cons, ih, spellWord_eq hword.1 hword.2]
  rw [normalizeRelType_words, normalizeRelType_words, hspelled]

/-! ## Whole words in capitals -/

/-- The capital of a letter. -/
def toUpper (c : UInt8) : UInt8 := if isLower c then c - 32 else c

/-- The word as it was, or all of it in lower case or in capitals. -/
def Recased (v w : Text) : Prop := w = v ∨ w = v.map toLower ∨ w = v.map toUpper

/-- A capital behind a digit begins a new part, so that a word in capitals is spelled otherwise. -/
theorem sha256sum_broken : ¬∀ a b : Text, (spell true false a).length ≤ 63 → (spell true false b).length ≤ 63 →
    List.Forall₂ Recased (labelWords a) (labelWords b) → normalizeRelType a = normalizeRelType b := by
  intro h
  have hlower : labelWords (text "sha256sum") = [text "sha256sum"] := by decide
  have hupper : labelWords (text "SHA256SUM") = [text "SHA256SUM"] := by decide
  have heq := h (text "sha256sum") (text "SHA256SUM") (by decide) (by decide) (by
    rw [hlower, hupper]
    exact .cons (.inr (.inr (by decide))) .nil)
  exact absurd heq (by decide)

end AimeeMemory.Module
