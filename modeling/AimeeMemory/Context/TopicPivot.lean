import AimeeMemory.Context.Candidate
import AimeeMemory.Lib.MergeUnique
import AimeeMemory.Lib.SetOverlap

/-!
# Topic pivots

`memory_recall_topic_pivot`: whether a turn leaves the topic of the one before. Each text is
cut into words, of which the significant ones are kept, each once and 64 at most; the turn is
a pivot where the share of common words is below a threshold. The constant for a threshold
that is not given is a parameter, and so is the rounding of the quotient: all that is said
holds of the doubles as of exact arithmetic.

## What is proved

* `pivotTokens_eq`: the tokens are the first occurrences of the significant words, up to the
  bound.
* **`topicPivot_distance`**: a pivot is the same both ways, no text pivots away from itself, a
  higher threshold finds more of them, and of a text with 64 significant words at most only
  the set of them counts.
-/

namespace AimeeMemory.Context

open AimeeMemory.Core AimeeMemory.Lib

/-! ## The words of a turn -/

/-- A byte that goes on with a word. -/
def isPivotByte (c : UInt8) : Bool := isalpha c || c == 95

/-- The words behind the one that is being read: a letter, and what follows of letters and
underscores. -/
def pivotWordsFrom : Option Text → Text → List Text
  | none, [] => []
  | some w, [] => [w]
  | none, c :: t => if isalpha c then pivotWordsFrom (some [c]) t else pivotWordsFrom none t
  | some w, c :: t => if isPivotByte c then pivotWordsFrom (some (w ++ [c])) t else w :: pivotWordsFrom none t

def pivotWords (t : Text) : List Text := pivotWordsFrom none t

/-- A word of 3 to 31 bytes that is not a stop word. -/
def isSignificant (w : Text) : Bool := 3 ≤ w.length ∧ w.length < 32 ∧ !isCoverageStopword (w.map tolower)

/-- The significant words of a text in lower case, as often as they stand there. -/
def significantWords (t : Text) : List Text := ((pivotWords t).filter isSignificant).map (·.map tolower)

/-- `PIVOT_MAX_TOKENS_PER_SIDE`. -/
def pivotMaxTokens : ℕ := 64

/-- One word of the loop of `pivot_extract_tokens`. -/
def addPivotToken (tokens : List Text) (w : Text) : List Text :=
  if pivotMaxTokens ≤ tokens.length then tokens
  else if w.length < 3 ∨ 32 ≤ w.length then tokens
  else
    let tok := w.map tolower
    if isCoverageStopword tok then tokens
    else if tok ∈ tokens then tokens
    else tokens ++ [tok]

/-- `pivot_extract_tokens`. -/
def pivotTokens (t : Text) : List Text := (pivotWords t).foldl addPivotToken []

/-! ## The decision -/

/-- The rounding of a quotient. One is exact. -/
structure Rounding where
  round : ℚ → ℚ
  one : round 1 = 1

/-- The threshold that is compared with, for the one that is given. -/
def pivotThreshold (defaultThreshold threshold : ℚ) : ℚ :=
  let threshold := if threshold ≤ 0 then defaultThreshold else threshold
  if 1 < threshold then 1 else threshold

/-- `memory_recall_topic_pivot`: whether the turn is a pivot. A text that is not there is an empty
one. -/
def memoryRecallTopicPivot (r : Rounding) (defaultThreshold : ℚ) (prev cur : Text) (threshold : ℚ) : Bool :=
  if prev = [] ∨ cur = [] then false
  else
    let a := pivotTokens prev
    let b := pivotTokens cur
    if a = [] ∨ b = [] then false
    else
      let intersect := sharedWith a b
      let union := a.length + b.length - intersect
      if union = 0 then false
      else r.round ((intersect : ℚ) / (union : ℚ)) < pivotThreshold defaultThreshold threshold

/-! ## Words in their places -/

/-- A byte that ends a word parts the words before it from those behind. -/
theorem pivotWordsFrom_append {c : UInt8} (hc : isPivotByte c = false) (w : Option Text) (u v : Text) :
    pivotWordsFrom w (u ++ c :: v) = pivotWordsFrom w u ++ pivotWords v := by
  have halpha : isalpha c = false := by
    rw [isPivotByte, Bool.or_eq_false_iff] at hc
    exact hc.1
  induction u generalizing w with
  | nil =>
    cases w with
    | none => simp [pivotWordsFrom, halpha, pivotWords]
    | some w => simp [pivotWordsFrom, hc, pivotWords]
  | cons d u ih =>
    cases w with
    | none =>
      rw [List.cons_append, pivotWordsFrom, pivotWordsFrom, ih, ih]
      split <;> rfl
    | some w =>
      rw [List.cons_append, pivotWordsFrom, pivotWordsFrom, ih, ih]
      split <;> rfl

/-- The words of pieces of text, joined by such a byte, are the words of the pieces: to put the
pieces in another order, or to repeat them, changes no word. -/
theorem significantWords_joined {sep : UInt8} (hsep : isPivotByte sep = false) (pieces : List Text) :
    significantWords ((pieces.map (· ++ [sep])).flatten) = pieces.flatMap significantWords := by
  induction pieces with
  | nil => rfl
  | cons piece pieces ih =>
    rw [List.map_cons, List.flatten_cons, List.append_assoc, List.singleton_append, List.flatMap_cons, ← ih,
      significantWords, pivotWords, pivotWordsFrom_append hsep, List.filter_append, List.map_append]
    rfl

/-! ## The tokens -/

/-- What a word does to the tokens: nothing, where it is not significant or they are full. -/
theorem addPivotToken_of_not {tokens : List Text} {w : Text} (h : isSignificant w = false) : addPivotToken tokens w = tokens := by
  rw [addPivotToken]
  split
  · rfl
  · split
    · rfl
    · rename_i hlen
      have hstop : isCoverageStopword (w.map tolower) = true := by
        by_contra hstop
        have hsig : isSignificant w = true := by
          rw [isSignificant, decide_eq_true_eq]
          exact ⟨by omega, by omega, by simpa using hstop⟩
        rw [h] at hsig
        cases hsig
      simp only
      rw [if_pos hstop]

theorem addPivotToken_of {tokens : List Text} {w : Text} (h : isSignificant w = true) : addPivotToken tokens w =
    if pivotMaxTokens ≤ tokens.length ∨ w.map tolower ∈ tokens then tokens else tokens ++ [w.map tolower] := by
  rw [isSignificant, decide_eq_true_eq] at h
  obtain ⟨h3, h32, hstop⟩ := h
  rw [Bool.not_eq_true'] at hstop
  rw [addPivotToken]
  by_cases hfull : pivotMaxTokens ≤ tokens.length
  · rw [if_pos hfull, if_pos (.inl hfull)]
  · rw [if_neg hfull, if_neg (by omega)]
    simp only
    rw [if_neg (by simp [hstop])]
    exact if_congr (by simp [hfull]) rfl rfl

/-- **The tokens of a text**: the significant words, each at its first place, up to the bound. The
induction is on the words read so far. -/
theorem pivotTokens_eq (t : Text) : pivotTokens t = (firsts id (significantWords t)).take pivotMaxTokens := by
  rw [pivotTokens, significantWords]
  induction pivotWords t using List.reverseRecOn with
  | nil => rfl
  | append_singleton ws w ih =>
    rw [List.foldl_concat, ih, List.filter_append, List.map_append]
    generalize hwords : (ws.filter isSignificant).map (·.map tolower) = words
    cases hsig : isSignificant w with
    | false => rw [addPivotToken_of_not hsig, List.filter_cons_of_neg (by simp [hsig]), List.filter_nil, List.map_nil,
        List.append_nil]
    | true =>
      rw [addPivotToken_of hsig, List.filter_cons_of_pos hsig, List.filter_nil, List.map_singleton]
      have hmem : w.map tolower ∈ firsts id words ↔ w.map tolower ∈ words := mem_firsts_id
      by_cases hknown : w.map tolower ∈ words
      · rw [firsts_concat_of_mem (by simpa using hknown)]
        split
        · rfl
        · rename_i hadd
          rw [not_or, List.length_take] at hadd
          rw [List.take_of_length_le (by omega)] at hadd
          exact absurd (hmem.2 hknown) hadd.2
      · rw [firsts_concat_of_notMem (by simpa using hknown)]
        rcases Nat.lt_or_ge (firsts id words).length pivotMaxTokens with hlt | hge
        · rw [List.take_of_length_le (by omega), if_neg (not_or.2 ⟨by omega, fun h => hknown (hmem.1 h)⟩),
            List.take_of_length_le (by simp; omega)]
        · rw [if_pos (.inl (by rw [List.length_take]; omega)), List.take_append_of_le_length hge]

theorem nodup_pivotTokens (t : Text) : (pivotTokens t).Nodup := by
  rw [pivotTokens_eq]
  exact (nodup_firsts_id _).sublist (List.take_sublist _ _)

/-- With no more than the bound, the tokens are the set of the significant words. -/
theorem toFinset_pivotTokens {t : Text} (h : (significantWords t).toFinset.card ≤ pivotMaxTokens) :
    (pivotTokens t).toFinset = (significantWords t).toFinset := by
  have hfirsts : (firsts id (significantWords t)).toFinset = (significantWords t).toFinset := by
    ext w
    rw [List.mem_toFinset, List.mem_toFinset, mem_firsts_id]
  rw [← hfirsts, List.toFinset_card_of_nodup (nodup_firsts_id _)] at h
  rw [pivotTokens_eq, List.take_of_length_le h, hfirsts]

/-! ## The decision by sets -/

/-- The share of what two sets have in common is below a threshold, and neither is empty. -/
def FarApart (r : Rounding) (threshold : ℚ) (a b : Finset Text) : Prop :=
  a ≠ ∅ ∧ b ≠ ∅ ∧ r.round (((a ∩ b).card : ℚ) / ((a ∪ b).card : ℚ)) < threshold

/-- The code decides for the sets of its tokens. -/
theorem memoryRecallTopicPivot_iff (r : Rounding) (defaultThreshold : ℚ) (prev cur : Text) (threshold : ℚ) :
    memoryRecallTopicPivot r defaultThreshold prev cur threshold = true ↔
      FarApart r (pivotThreshold defaultThreshold threshold) (pivotTokens prev).toFinset (pivotTokens cur).toFinset := by
  rw [memoryRecallTopicPivot]
  split
  · rename_i hnone
    have hempty : pivotTokens ([] : Text) = [] := rfl
    rcases hnone with rfl | rfl <;> simp [FarApart, hempty]
  · simp only
    split
    · rename_i hnone
      rcases hnone with h | h <;> simp [FarApart, h]
    · rename_i hboth
      obtain ⟨ha, hb⟩ := not_or.1 hboth
      have hunion := length_add_length_sub_sharedWith (nodup_pivotTokens prev) (nodup_pivotTokens cur)
      rw [hunion, sharedWith_eq_card (nodup_pivotTokens prev)]
      have hne : (pivotTokens prev).toFinset ≠ ∅ := by simpa using ha
      have hne' : (pivotTokens cur).toFinset ≠ ∅ := by simpa using hb
      rw [if_neg]
      · simp [FarApart, hne, hne']
      · rw [Finset.card_eq_zero, Finset.union_eq_empty]
        exact fun h => hne h.1

theorem farApart_comm (r : Rounding) (threshold : ℚ) (a b : Finset Text) :
    FarApart r threshold a b ↔ FarApart r threshold b a := by
  rw [FarApart, FarApart, Finset.inter_comm, Finset.union_comm, and_left_comm]

theorem not_farApart_self (r : Rounding) {threshold : ℚ} (h : threshold ≤ 1) (a : Finset Text) : ¬FarApart r threshold a a := by
  rintro ⟨hne, -, hlt⟩
  have hcard : (a.card : ℚ) ≠ 0 := Nat.cast_ne_zero.2 (Finset.card_ne_zero.2 (Finset.nonempty_iff_ne_empty.2 hne))
  rw [Finset.inter_self, Finset.union_self, div_self hcard, r.one] at hlt
  exact absurd (hlt.trans_le h) (lt_irrefl 1)

theorem FarApart.mono {r : Rounding} {threshold threshold' : ℚ} {a b : Finset Text} (h : FarApart r threshold a b)
    (hle : threshold ≤ threshold') : FarApart r threshold' a b :=
  ⟨h.1, h.2.1, h.2.2.trans_le hle⟩

theorem pivotThreshold_le_one (defaultThreshold threshold : ℚ) : pivotThreshold defaultThreshold threshold ≤ 1 := by
  rw [pivotThreshold]
  generalize (if threshold ≤ 0 then defaultThreshold else threshold) = given
  split
  · exact le_rfl
  · rename_i hle
    exact not_lt.1 hle

/-- A threshold of the unit interval is taken as it is. -/
theorem pivotThreshold_eq {threshold : ℚ} (hpos : 0 < threshold) (hle : threshold ≤ 1) (defaultThreshold : ℚ) :
    pivotThreshold defaultThreshold threshold = threshold := by
  rw [pivotThreshold, if_neg (not_le.2 hpos), if_neg (not_lt.2 hle)]

/-- **The topic pivot is a distance of sets.** -/
theorem topicPivot_distance (r : Rounding) (defaultThreshold : ℚ) :
    (∀ a b t, memoryRecallTopicPivot r defaultThreshold a b t = memoryRecallTopicPivot r defaultThreshold b a t) ∧
    (∀ a t, memoryRecallTopicPivot r defaultThreshold a a t = false) ∧
    (∀ a b t t', 0 < t → t ≤ t' → t' ≤ 1 → memoryRecallTopicPivot r defaultThreshold a b t = true →
      memoryRecallTopicPivot r defaultThreshold a b t' = true) ∧
    ∀ a a' b t, (∀ w, w ∈ significantWords a ↔ w ∈ significantWords a') →
      (significantWords a).toFinset.card ≤ pivotMaxTokens →
        memoryRecallTopicPivot r defaultThreshold a b t = memoryRecallTopicPivot r defaultThreshold a' b t ∧
        memoryRecallTopicPivot r defaultThreshold b a t = memoryRecallTopicPivot r defaultThreshold b a' t := by
  refine ⟨fun a b t => ?_, fun a t => ?_, fun a b t t' hpos hle hone h => ?_, fun a a' b t hsame hcard => ?_⟩
  · rw [Bool.eq_iff_iff, memoryRecallTopicPivot_iff, memoryRecallTopicPivot_iff, farApart_comm]
  · rw [Bool.eq_false_iff, Ne, memoryRecallTopicPivot_iff]
    exact not_farApart_self r (pivotThreshold_le_one _ _) _
  · rw [memoryRecallTopicPivot_iff, pivotThreshold_eq hpos (hle.trans hone)] at h
    rw [memoryRecallTopicPivot_iff, pivotThreshold_eq (hpos.trans_le hle) hone]
    exact h.mono hle
  · have hset : (significantWords a).toFinset = (significantWords a').toFinset := by
      ext w
      simpa using hsame w
    have htokens : (pivotTokens a).toFinset = (pivotTokens a').toFinset := by
      rw [toFinset_pivotTokens hcard, toFinset_pivotTokens (hset ▸ hcard), hset]
    constructor
    · rw [Bool.eq_iff_iff, memoryRecallTopicPivot_iff, memoryRecallTopicPivot_iff, htokens]
    · rw [Bool.eq_iff_iff, memoryRecallTopicPivot_iff, memoryRecallTopicPivot_iff, htokens]

end AimeeMemory.Context
