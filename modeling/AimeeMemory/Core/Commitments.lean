import AimeeMemory.Core.Gate
import AimeeMemory.Core.Transcripts
import Mathlib.Data.List.GetD

/-!
# Commitments

`memory_detect_commitment_shape` of `memory_lifecycle.c`: whether a content reads as a
commitment of ours, in which of three bands, and for how long. The phrases are looked for as
they stand, anywhere in a lower-case copy of the first 1023 bytes.

## What is proved

* `detects_iff`: the answer is the presence of a tag or of a phrase in the copy.
* **`commitmentOurs_iff`**: what a commitment says begins a word, except where a phrase stands
  only at the end of longer words.
-/

namespace AimeeMemory.Core

open AimeeMemory.Lib

/-- Our own future: `future_agent`. -/
def futurePhrases : List Text :=
  [text "i'll ", text "i will ", text "we'll ", text "we will ", text "i'm going to ", text "we're going to ",
    text "i am going to ", text "we are going to ", text "i plan to ", text "we plan to "]

/-- `explicit_tag`. -/
def explicitTags : List Text := [text "pending:", text "todo:", text "[pending]", text "[todo]"]

/-- `date_markers`. -/
def commitmentDateMarkers : List Text :=
  [text "by monday", text "by tuesday", text "by wednesday", text "by thursday", text "by friday", text "by saturday",
    text "by sunday", text "by eod", text "by end of day", text "by noon", text "by morning", text "by tomorrow",
    text "by next week", text "by 2026", text "by 2027"]

/-- `relative_markers`. -/
def commitmentRelativeMarkers : List Text :=
  [text "this week", text "next week", text "today", text "tomorrow", text "next month", text "this month",
    text "in a few days"]

/-- What the module takes from its header and from `util_lower_copy`: the copy of a content into the
1024 bytes of a buffer is a beginning of its lower-case form, and all of it where it fits. -/
structure CommitmentEnv where
  lowerCopy : Text → Text
  /-- `MEMORY_LIFECYCLE_TTL_DEFAULT_RELATIVE_DAYS`. -/
  ttlRelativeDays : ℤ
  /-- `MEMORY_LIFECYCLE_TTL_DEFAULT_OPEN_ENDED_DAYS`. -/
  ttlOpenEndedDays : ℤ
  begins : ∀ content, lowerCopy content <+: content.map tolower
  whole : ∀ content, content.length < 1024 → lowerCopy content = content.map tolower

/-- `lc_contains_phrase`. -/
def lcContainsPhrase (contentLc phrase : Text) : Bool := (strstr contentLc phrase).isSome

/-- What `memory_detect_commitment_shape` returns and writes: the shape, cut to its buffer, and the
days to live. -/
structure CommitmentShape where
  detected : Bool
  shape : Text
  ttlDays : ℤ
  deriving DecidableEq

/-- `memory_detect_commitment_shape`. A content that is not there is an empty one. -/
def memoryDetectCommitmentShape (env : CommitmentEnv) (content : Text) (shapeOutLen : ℕ) : CommitmentShape :=
  if content = [] then ⟨false, [], 0⟩
  else
    let lc := env.lowerCopy content
    let futureAgent := futurePhrases.any (lcContainsPhrase lc)
    let explicitTag := explicitTags.any (lcContainsPhrase lc)
    if !futureAgent ∧ !explicitTag then ⟨false, [], 0⟩
    else if commitmentDateMarkers.any (lcContainsPhrase lc) then ⟨true, (text "date").take (shapeOutLen - 1), env.ttlRelativeDays⟩
    else if commitmentRelativeMarkers.any (lcContainsPhrase lc) then
      ⟨true, (text "relative").take (shapeOutLen - 1), env.ttlRelativeDays⟩
    else ⟨true, (text "open-ended").take (shapeOutLen - 1), env.ttlOpenEndedDays⟩

/-! ## What is detected -/

theorem any_lcContainsPhrase {phrases : List Text} {t : Text} :
    phrases.any (lcContainsPhrase t) = true ↔ ∃ p ∈ phrases, p <:+: t := by
  simp only [List.any_eq_true, lcContainsPhrase, strstr_isSome]

/-- The answer is that a tag or a phrase stands in the copy. -/
theorem detects_iff (env : CommitmentEnv) (content : Text) (shapeOutLen : ℕ) :
    (memoryDetectCommitmentShape env content shapeOutLen).detected = true ↔
      (∃ p ∈ explicitTags, p <:+: env.lowerCopy content) ∨ ∃ p ∈ futurePhrases, p <:+: env.lowerCopy content := by
  rw [← any_lcContainsPhrase, ← any_lcContainsPhrase, memoryDetectCommitmentShape]
  split
  · rename_i hempty
    have hcopy : env.lowerCopy content = [] := by rw [env.whole content (by rw [hempty]; decide), hempty]; rfl
    rw [hcopy]
    decide
  · simp only
    split
    · rename_i hneither
      simp only [Bool.not_eq_true'] at hneither
      simp [hneither]
    · rename_i heither
      have hone : explicitTags.any (lcContainsPhrase (env.lowerCopy content)) = true ∨
          futurePhrases.any (lcContainsPhrase (env.lowerCopy content)) = true := by
        by_contra hnone
        rw [not_or, Bool.not_eq_true, Bool.not_eq_true] at hnone
        exact heither (by simp [hnone])
      simp only [hone, iff_true]
      split
      · rfl
      · split <;> rfl

/-- A phrase stands at a place of a text. -/
def StandsAt (p t : Text) (i : ℕ) : Prop := i ≤ t.length ∧ p <+: t.drop i

/-- The place is not inside of a word: no letter and no digit comes before it. -/
def BeginsWord (t : Text) (i : ℕ) : Prop := i = 0 ∨ isalnum (t.getD (i - 1) 0) = false

/-- A commitment of ours, by the lower-case content: a tag, or a phrase that begins a word. -/
def SaysOurs (t : Text) : Prop :=
  (∃ p ∈ explicitTags, p <:+: t) ∨ ∃ p ∈ futurePhrases, ∃ i < t.length, StandsAt p t i ∧ BeginsWord t i

/-- **A commitment is ours**: what is detected says so. -/
def CommitmentOurs (env : CommitmentEnv) (content : Text) : Prop :=
  ∀ shapeOutLen, (memoryDetectCommitmentShape env content shapeOutLen).detected = true → SaysOurs (content.map tolower)

/-- A phrase stands in the copy behind a letter or a digit: at the end of a longer word. -/
def EndsLongerWord (t : Text) : Prop := ∃ p ∈ futurePhrases, ∃ i < t.length, StandsAt p t i ∧ ¬BeginsWord t i

/-! ## Places -/

/-- A phrase somewhere in a text stands at a place of it. -/
theorem exists_standsAt {p t : Text} (hp : p ≠ []) (h : p <:+: t) : ∃ i < t.length, StandsAt p t i := by
  obtain ⟨pre, post, rfl⟩ := h
  have hpos : 0 < p.length := List.length_pos_iff.2 hp
  have hlen : (pre ++ p ++ post).length = pre.length + p.length + post.length := by
    simp only [List.length_append]
  refine ⟨pre.length, by omega, by omega, ?_⟩
  rw [List.append_assoc, List.drop_left]
  exact List.prefix_append p post

theorem StandsAt.isInfix {p t : Text} {i : ℕ} (h : StandsAt p t i) : p <:+: t :=
  h.2.isInfix.trans (List.drop_suffix i t).isInfix

/-- What stands at a place of a beginning stands there in the whole. -/
theorem StandsAt.mono {p s t : Text} {i : ℕ} (h : StandsAt p s i) (hst : s <+: t) : StandsAt p t i := by
  obtain ⟨rest, rfl⟩ := hst
  obtain ⟨hi, hp⟩ := h
  refine ⟨by rw [List.length_append]; omega, ?_⟩
  rw [List.drop_append_of_le_length hi]
  exact hp.trans (List.prefix_append _ _)

theorem BeginsWord.mono {s t : Text} {i : ℕ} (h : BeginsWord s i) (hi : i ≤ s.length) (hst : s <+: t) : BeginsWord t i := by
  obtain ⟨rest, rfl⟩ := hst
  rcases Nat.eq_zero_or_pos i with rfl | hpos
  · exact .inl rfl
  · right
    rw [List.getD_append _ _ _ _ (by omega)]
    exact h.resolve_left (by omega)

theorem futurePhrases_ne_nil : ∀ p ∈ futurePhrases, p ≠ [] := by decide

/-- **When a commitment is ours**: where a phrase stands in the copy at the end of a longer word, the
content says so elsewhere. -/
theorem commitmentOurs_iff (env : CommitmentEnv) (content : Text) :
    CommitmentOurs env content ↔ (EndsLongerWord (env.lowerCopy content) → SaysOurs (content.map tolower)) := by
  constructor
  · rintro h ⟨p, hp, i, -, hstands, -⟩
    exact h 0 ((detects_iff env content 0).2 (.inr ⟨p, hp, hstands.isInfix⟩))
  · intro h shapeOutLen hdetected
    have hbegins := env.begins content
    rcases (detects_iff env content shapeOutLen).1 hdetected with ⟨p, hp, htag⟩ | ⟨p, hp, hphrase⟩
    · exact .inl ⟨p, hp, htag.trans hbegins.isInfix⟩
    · obtain ⟨i, hi, hstands⟩ := exists_standsAt (futurePhrases_ne_nil p hp) hphrase
      by_cases hword : BeginsWord (env.lowerCopy content) i
      · exact .inr ⟨p, hp, i, hi.trans_le hbegins.length_le, hstands.mono hbegins, hword.mono hi.le hbegins⟩
      · exact h ⟨p, hp, i, hi, hstands, hword⟩

/-! ## A third party -/

/-- A copy of the first 1023 bytes, with days to live. -/
def sampleCommitmentEnv : CommitmentEnv where
  lowerCopy content := (content.map tolower).take 1023
  ttlRelativeDays := 7
  ttlOpenEndedDays := 30
  begins content := List.take_prefix _ _
  whole content h := List.take_of_length_le (by rw [List.length_map]; omega)

instance (p t : Text) (i : ℕ) : Decidable (StandsAt p t i) := by
  unfold StandsAt
  infer_instance

instance (t : Text) (i : ℕ) : Decidable (BeginsWord t i) := by
  unfold BeginsWord
  infer_instance

instance (t : Text) : Decidable (SaysOurs t) := by
  unfold SaysOurs
  infer_instance

/-- The name ends in the pronoun, and the host's future is taken for ours. -/
theorem hawaii_will : ¬∀ (env : CommitmentEnv) (content : Text), CommitmentOurs env content := by
  intro h
  have hdetected : (memoryDetectCommitmentShape sampleCommitmentEnv (text "Hawaii will host the summit") 16).detected = true := by
    rw [detects_iff, sampleCommitmentEnv.whole _ (by decide)]
    decide
  have hours := h sampleCommitmentEnv (text "Hawaii will host the summit") 16 hdetected
  exact absurd hours (by decide)

end AimeeMemory.Core
