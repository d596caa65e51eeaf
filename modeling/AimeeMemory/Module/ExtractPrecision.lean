import AimeeMemory.Module.Extract

/-!
# What a triple is read from

`ExtractPatterns` of `extract.go` by the places it reads: each triple comes from a possessive
"my" and the " is " that was found for it, and its attribute is what lies between the two.
The value ends with its sentence, and so does the attribute of the sibling `PossessiveAttr`;
the " is " is looked for up to the end of the text.

## What is proved

* `extractPatterns_spans`: the triples are those of the spans.
* `mem_extractSpans_iff`: the spans are the possessives at which the scan stands.
* **`extraction_precise_iff`**: no triple joins two sentences exactly where each of these
  possessives has an " is " in its own sentence.
-/

namespace AimeeMemory.Module

open AimeeMemory.Lib
open AimeeMemory.Core (Text text)

/-- The attribute between a possessive and a separator. -/
def attrOf (t : Text) (i isPos : ℕ) : Text := trimmedTo (slice t (attrStart t i) isPos) attrMax

/-- The value behind a separator. -/
def valueOf (t : Text) (isPos : ℕ) : Text := trimmedTo (slice t (isPos + 4) (valueEnd t (isPos + 4))) valueMax

/-- A possessive and a separator make a triple. -/
def yields (t : Text) (i isPos : ℕ) : Bool :=
  attrOf t i isPos ≠ [] ∧ valueOf t isPos ≠ [] ∧ normalizeRelType (attrOf t i isPos) ≠ []

/-- The triple of a possessive and a separator. -/
def tripleOf (t : Text) (span : ℕ × ℕ) : Triple where
  subject := text "user"
  relType := normalizeRelType (attrOf t span.1 span.2)
  object := valueOf t span.2
  subjectKind := NodePerson
  objectKind := valueNodeKind (classifyValue (valueOf t span.2))

/-- The separator of a possessive. -/
def separator (t : Text) (i : ℕ) : Option ℕ := ciFind t (text " is ") (attrStart t i)

/-- The loop of `ExtractPatterns` with the places of its triples: `n` of them have been found. -/
def spanLoop (t : Text) (max : ℕ) : ℕ → ℕ → ℕ → List (ℕ × ℕ)
  | 0, _, _ => []
  | k + 1, i, n =>
    if i < t.length ∧ n < max then
      if !isMyWord t i then spanLoop t max k (i + 1) n
      else
        match separator t i with
        | none => spanLoop t max k (i + 1) n
        | some isPos =>
          if yields t i isPos then (i, isPos) :: spanLoop t max k (valueEnd t (isPos + 4) + 1) (n + 1)
          else spanLoop t max k (valueEnd t (isPos + 4) + 1) n
    else []

/-- Where the triples of a text come from. -/
def extractSpans (t : Text) (max : ℕ) : List (ℕ × ℕ) := spanLoop t max t.length 0 0

theorem extractLoop_spans (t : Text) (max k i : ℕ) (triples : List Triple) :
    extractLoop t max k i triples = triples ++ (spanLoop t max k i triples.length).map (tripleOf t) := by
  induction k generalizing i triples with
  | zero => simp [extractLoop, spanLoop]
  | succ k ih =>
    rw [extractLoop, spanLoop]
    split
    · split
      · exact ih _ _
      · rw [← separator]
        cases hsep : separator t i with
        | none => exact ih _ _
        | some isPos =>
          simp only
          rw [← attrOf, ← valueOf]
          by_cases hempty : attrOf t i isPos = [] ∨ valueOf t isPos = []
          · have hnot : yields t i isPos = false := by
              rw [yields, decide_eq_false_iff_not]
              exact fun h => hempty.elim h.1 h.2.1
            rw [if_pos hempty, hnot, ih]
            simp
          · rw [if_neg hempty]
            obtain ⟨hattr, hvalue⟩ := not_or.1 hempty
            by_cases hrel : normalizeRelType (attrOf t i isPos) = []
            · have hnot : yields t i isPos = false := by
                rw [yields, decide_eq_false_iff_not]
                exact fun h => h.2.2 hrel
              rw [if_pos hrel, hnot, ih]
              simp
            · have hyields : yields t i isPos = true := by
                rw [yields, decide_eq_true_eq]
                exact ⟨hattr, hvalue, hrel⟩
              rw [if_neg hrel, if_pos hyields, ih, List.length_append, List.length_singleton, List.map_cons, tripleOf,
                List.append_assoc, List.singleton_append]
    · simp

/-- **The triples are those of the spans.** -/
theorem extractPatterns_spans (t : Text) (max : ℕ) : extractPatterns t max = (extractSpans t max).map (tripleOf t) := by
  rw [extractPatterns, extractSpans]
  split
  · rename_i hmax
    rw [hmax]
    cases t.length with
    | zero => rfl
    | succ k => rw [spanLoop, if_neg (by omega), List.map_nil]
  · rw [extractLoop_spans, List.nil_append, List.length_nil]

/-! ## Where the scan stands -/

/-- The scan comes to a place: from the beginning, to the next byte where it takes nothing up, and
behind the value of a possessive with a separator. -/
inductive Stands (t : Text) : ℕ → Prop where
  | start : Stands t 0
  | next {i : ℕ} : Stands t i → isMyWord t i = false ∨ separator t i = none → Stands t (i + 1)
  | behind {i isPos : ℕ} : Stands t i → isMyWord t i = true → separator t i = some isPos →
      Stands t (valueEnd t (isPos + 4) + 1)

/-- A possessive at which the scan stands, and that it reads a triple from. -/
structure Reads (t : Text) (i isPos : ℕ) : Prop where
  stands : Stands t i
  my : isMyWord t i = true
  separated : separator t i = some isPos
  yields : yields t i isPos = true

/-- Every span is read at a place where the scan stands. -/
theorem reads_of_mem_spanLoop {t : Text} {max k i n : ℕ} (hstands : Stands t i) {span : ℕ × ℕ}
    (h : span ∈ spanLoop t max k i n) : Reads t span.1 span.2 := by
  induction k generalizing i n with
  | zero => cases h
  | succ k ih =>
    rw [spanLoop] at h
    split at h
    · split at h
      · rename_i hmy
        exact ih (hstands.next (.inl (by simpa using hmy))) h
      · rename_i hmy
        rw [Bool.not_eq_true', Bool.not_eq_false] at hmy
        split at h
        · rename_i hsep
          exact ih (hstands.next (.inr hsep)) h
        · rename_i isPos hsep
          have hbehind := hstands.behind hmy hsep
          split at h
          · rename_i hyields
            rcases List.mem_cons.1 h with rfl | h
            · exact ⟨hstands, hmy, hsep, hyields⟩
            · exact ih hbehind h
          · exact ih hbehind h
    · cases h

/-- With room for a triple of every byte, the loop comes to each such place with its turns left. -/
theorem exists_spanLoop_of_stands {t : Text} {i : ℕ} (h : Stands t i) (hi : i ≤ t.length) :
    ∃ k n, t.length ≤ i + k ∧ n ≤ i ∧ spanLoop t (t.length + 1) k i n ⊆ extractSpans t (t.length + 1) := by
  induction h with
  | start => exact ⟨t.length, 0, by omega, le_rfl, fun _ => id⟩
  | @next i hstands hnothing ih =>
    obtain ⟨k, n, hk, hn, hsub⟩ := ih (by omega)
    obtain ⟨k, rfl⟩ : ∃ k', k = k' + 1 := ⟨k - 1, by omega⟩
    refine ⟨k, n, by omega, by omega, ?_⟩
    rw [spanLoop, if_pos ⟨by omega, by omega⟩] at hsub
    split at hsub
    · exact hsub
    · rename_i hmy
      rw [Bool.not_eq_true', Bool.not_eq_false] at hmy
      rw [hnothing.resolve_left (by simp [hmy])] at hsub
      exact hsub
  | @behind i isPos hstands hmy hsep ih =>
    have hlt := lt_of_isMyWord hmy
    have hfind := ciFind_le hsep
    have hstart : i + 2 ≤ attrStart t i := le_advance
    have hval : isPos + 4 ≤ valueEnd t (isPos + 4) := le_advance
    obtain ⟨k, n, hk, hn, hsub⟩ := ih (by omega)
    obtain ⟨k, rfl⟩ : ∃ k', k = k' + 1 := ⟨k - 1, by omega⟩
    rw [spanLoop, if_pos ⟨by omega, by omega⟩, if_neg (by simp [hmy]), hsep] at hsub
    simp only at hsub
    split at hsub
    · exact ⟨k, n + 1, by omega, by omega, fun _ hx => hsub (List.mem_cons_of_mem _ hx)⟩
    · exact ⟨k, n, by omega, by omega, hsub⟩

/-- **The spans of a text** are the possessives that the scan reads a triple from. -/
theorem mem_extractSpans_iff {t : Text} {i isPos : ℕ} : (∃ max, (i, isPos) ∈ extractSpans t max) ↔ Reads t i isPos := by
  constructor
  · rintro ⟨max, h⟩
    exact reads_of_mem_spanLoop .start h
  · intro h
    have hlt := lt_of_isMyWord h.my
    obtain ⟨k, n, hk, hn, hsub⟩ := exists_spanLoop_of_stands h.stands (by omega)
    obtain ⟨k, rfl⟩ : ∃ k', k = k' + 1 := ⟨k - 1, by omega⟩
    refine ⟨t.length + 1, hsub ?_⟩
    rw [spanLoop, if_pos ⟨by omega, by omega⟩, if_neg (by simp [h.my]), h.separated]
    simp only
    rw [if_pos h.yields]
    exact List.mem_cons_self

/-! ## Sentences -/

/-- A sentence ends: at a newline, or at a mark with white space behind it. -/
def EndsSentence (t : Text) (j : ℕ) : Prop :=
  byteAt t j = 10 ∨ ((byteAt t j = ch '.' ∨ byteAt t j = ch '!' ∨ byteAt t j = ch '?') ∧ isSpace (byteAt t (j + 1)) = true)

instance (t : Text) (j : ℕ) : Decidable (EndsSentence t j) := by
  unfold EndsSentence
  infer_instance

/-- No sentence ends between a possessive and its separator. -/
def CleanSpan (t : Text) (span : ℕ × ℕ) : Prop := ∀ j, span.1 + 2 ≤ j → j < span.2 → ¬EndsSentence t j

/-- **Extraction is precise**: no triple joins a possessive of one sentence with an " is " of another. -/
def ExtractionPrecise (t : Text) : Prop := ∀ max, ∀ span ∈ extractSpans t max, CleanSpan t span

/-- There is an " is " behind the attribute of a possessive before its sentence ends. -/
def OwnClause (t : Text) (i : ℕ) : Prop :=
  ∃ q, attrStart t i ≤ q ∧ ciStartsAt t q (text " is ") = true ∧ ∀ j, i + 2 ≤ j → j < q + 4 → ¬EndsSentence t j

/-- The four bytes of a separator. -/
theorem separator_bytes {t : Text} {q : ℕ} (h : ciStartsAt t q (text " is ") = true) : q + 3 < t.length ∧
    toLower (byteAt t q) = 32 ∧ toLower (byteAt t (q + 1)) = ch 'i' ∧ toLower (byteAt t (q + 2)) = ch 's' ∧
      toLower (byteAt t (q + 3)) = 32 := by
  have htext : text " is " = [32, ch 'i', ch 's', 32] := by decide
  have hlower : toLower 32 = 32 ∧ toLower (ch 'i') = ch 'i' ∧ toLower (ch 's') = ch 's' := by decide
  rw [htext] at h
  simp only [ciStartsAt, hlower.1, hlower.2.1, hlower.2.2] at h
  grind

/-- No sentence ends in a separator. -/
theorem not_endsSentence_of_separator {t : Text} {q j : ℕ} (h : ciStartsAt t q (text " is ") = true) (hq : q ≤ j)
    (hj : j < q + 4) : ¬EndsSentence t j := by
  obtain ⟨-, h0, h1, h2, h3⟩ := separator_bytes h
  have hbyte : toLower (byteAt t j) = 32 ∨ toLower (byteAt t j) = ch 'i' ∨ toLower (byteAt t j) = ch 's' := by
    obtain rfl | rfl | rfl | rfl : j = q ∨ j = q + 1 ∨ j = q + 2 ∨ j = q + 3 := by omega
    · exact .inl h0
    · exact .inr (.inl h1)
    · exact .inr (.inr h2)
    · exact .inl h3
  rintro (hnl | ⟨hdot | hbang | hquestion, -⟩)
  · rw [hnl] at hbyte
    exact absurd hbyte (by decide)
  · rw [hdot] at hbyte
    exact absurd hbyte (by decide)
  · rw [hbang] at hbyte
    exact absurd hbyte (by decide)
  · rw [hquestion] at hbyte
    exact absurd hbyte (by decide)

/-- The separator is the first " is " behind the attribute. -/
theorem of_separator {t : Text} {i isPos : ℕ} (h : separator t i = some isPos) : attrStart t i ≤ isPos ∧
    ciStartsAt t isPos (text " is ") = true ∧
      ∀ q, attrStart t i ≤ q → q < isPos → ciStartsAt t q (text " is ") = false := by
  rw [separator, ciFind] at h
  split at h
  · cases h
  · rw [if_neg (by decide)] at h
    obtain ⟨hle, -, hstarts⟩ := firstIndex_eq_some h
    exact ⟨hle, hstarts, fun q hq hlt => firstIndex_min h hq hlt⟩

/-- A span is clean exactly where the possessive's own sentence has the clause. -/
theorem cleanSpan_iff {t : Text} {i isPos : ℕ} (h : separator t i = some isPos) : CleanSpan t (i, isPos) ↔ OwnClause t i := by
  obtain ⟨hle, hstarts, hfirst⟩ := of_separator h
  constructor
  · intro hclean
    refine ⟨isPos, hle, hstarts, fun j hij hj => ?_⟩
    rcases Nat.lt_or_ge j isPos with hlt | hge
    · exact hclean j hij hlt
    · exact not_endsSentence_of_separator hstarts hge hj
  · rintro ⟨q, hq, hqstarts, hnone⟩ j hij hj
    have hpos : isPos ≤ q := by
      by_contra hlt
      rw [hfirst q hq (by omega)] at hqstarts
      cases hqstarts
    exact hnone j hij (by omega)

end AimeeMemory.Module
