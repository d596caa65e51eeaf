import AimeeMemory.Recall.IndexedDays

/-!
# The spelling of months

A month has a full name and abbreviations. `memory_month_number` of `memory_core_helpers.c`
looks both up in one table, of which the abbreviations begin at January; but May has none,
and September has two. So the numbers of "jun", "jul", "aug" and "sep" are one too low.

Here the words of a text are respelled: some names of months are put for others of the same
months.

## What is proved

* **`respelled_iff`**: respelling leaves the days that a text indexes exactly where no
  misnumbered abbreviation stands for another spelling before a day; and the constraint of a
  query exactly where none does in the dates that the query is read by.
* `june_moves`: "june 5" and "jun 5".

## Honest scope

That of `AimeeMemory.Recall.RelativeDates`. Words are what blanks part.
-/

namespace AimeeMemory.Recall

open AimeeMemory.Core AimeeMemory.Lib
open AimeeMemory.Recall.Ranker (memoryTokenInNorm)

/-- The spellings of each month. -/
def spellings : List (List Text) :=
  [["january", "jan"], ["february", "feb"], ["march", "mar"], ["april", "apr"], ["may"], ["june", "jun"], ["july", "jul"],
    ["august", "aug"], ["september", "sep", "sept"], ["october", "oct"], ["november", "nov"], ["december", "dec"]].map
    (·.map text)

/-- The abbreviations that have the number of the month before. -/
def misnumbered : List Text := ["jun", "jul", "aug", "sep"].map text

/-- Two spellings of a month. -/
def SameMonth (w w' : Text) : Prop := ∃ names ∈ spellings, w ∈ names ∧ w' ∈ names

/-- The same word, or the same month. -/
def Respelled (w w' : Text) : Prop := w = w' ∨ SameMonth w w'

instance (w w' : Text) : Decidable (SameMonth w w') := inferInstanceAs (Decidable (∃ names ∈ spellings, w ∈ names ∧ w' ∈ names))

instance (w w' : Text) : Decidable (Respelled w w') := inferInstanceAs (Decidable (_ ∨ _))

/-- A text with some of its months respelled. -/
def Respells (norm norm' : Text) : Prop := List.Forall₂ Respelled (norm.splitOn 32) (norm'.splitOn 32)

instance (norm norm' : Text) : Decidable (Respells norm norm') := inferInstanceAs (Decidable (List.Forall₂ _ _ _))

/-- The same spelling, or two that both have the number of their month. -/
def SpelledAlike (w w' : Text) : Prop := w = w' ∨ w ∉ misnumbered ∧ w' ∉ misnumbered

instance (w w' : Text) : Decidable (SpelledAlike w w') := inferInstanceAs (Decidable (_ ∨ _))

/-- The months of the days in a text. -/
def datedMonths (tokens : List Text) : List Text := tokens.tails.filterMap datedMonthAt

/-- The month of the date that tokens begin with: the first of them, or the second behind a number. -/
def monthWord : List Text → Option Text
  | a :: rest =>
    if memoryIsMonthToken a then some a else if (scanInt a).isSome then rest.head?.filter (memoryIsMonthToken ·) else none
  | [] => none

/-- The months of the dates that the constraint of a query is made of. -/
def monthWordsRead (tokens : List Text) : Option (DateConstraintMode × Option Text × Option (Option Text)) :=
  explicitConstraint (fun ts => (memoryParseDateTokensTaking ts).map fun date => (monthWord ts, date.2)) tokens

/-! ## Months as words -/

variable {w w' t t' : Text} {ts ts' : List Text}

theorem mem_months_of_spelling : ∀ names ∈ spellings, ∀ w ∈ names, w ∈ months := by decide

theorem SameMonth.left (h : SameMonth w w') : memoryIsMonthToken w := by
  obtain ⟨names, hnames, hw, -⟩ := h
  exact decide_eq_true (mem_months_of_spelling names hnames w hw)

theorem SameMonth.symm (h : SameMonth w w') : SameMonth w' w := by
  obtain ⟨names, hnames, hw, hw'⟩ := h
  exact ⟨names, hnames, hw', hw⟩

/-- Two spellings of a month have one number exactly if they are spelled alike. -/
theorem SameMonth.number_eq_iff (h : SameMonth w w') : memoryMonthNumber w = memoryMonthNumber w' ↔ SpelledAlike w w' := by
  have hall : ∀ names ∈ spellings, ∀ w ∈ names, ∀ w' ∈ names,
      memoryMonthNumber w = memoryMonthNumber w' ↔ SpelledAlike w w' := by decide
  obtain ⟨names, hnames, hw, hw'⟩ := h
  exact hall names hnames w hw w' hw'

theorem Respelled.number_eq_iff (h : Respelled w w') : memoryMonthNumber w = memoryMonthNumber w' ↔ SpelledAlike w w' := by
  rcases h with rfl | h
  · exact iff_of_true rfl (.inl rfl)
  · exact h.number_eq_iff

theorem Respelled.isMonth_eq (h : Respelled w w') : memoryIsMonthToken w = memoryIsMonthToken w' := by
  rcases h with rfl | h
  · rfl
  · rw [h.left, h.symm.left]

/-- A word that is not a month is the same word in both texts. -/
theorem Respelled.eq_iff (h : Respelled t t') (hw : memoryIsMonthToken w = false) : t = w ↔ t' = w := by
  rcases h with rfl | h
  · exact Iff.rfl
  · refine iff_of_false ?_ ?_
    · rintro rfl
      rw [h.left] at hw
      cases hw
    · rintro rfl
      rw [h.symm.left] at hw
      cases hw

theorem Respelled.eq_of_not_month (h : Respelled t t') (ht : memoryIsMonthToken t = false) : t = t' := by
  rcases h with rfl | h
  · rfl
  · rw [h.left] at ht
    cases ht

theorem Respelled.scanInt_eq (h : Respelled t t') : scanInt t = scanInt t' := by
  rcases h with rfl | h
  · rfl
  · rw [month_scanInt h.left, month_scanInt h.symm.left]

theorem Respelled.atoi_eq (h : Respelled t t') : atoi t = atoi t' := by rw [atoi, atoi, h.scanInt_eq]

theorem Respelled.take (h : Respelled t t') (n : ℕ) (hn : 9 ≤ n) : Respelled (t.take n) (t'.take n) := by
  rcases h with rfl | h
  · exact .inl rfl
  · have hshort : ∀ w ∈ months, w.length ≤ 9 := by decide
    rw [List.take_of_length_le (Nat.le_trans (hshort t (of_decide_eq_true h.left)) hn),
      List.take_of_length_le (Nat.le_trans (hshort t' (of_decide_eq_true h.symm.left)) hn)]
    exact .inr h

/-- The tokens of a respelled text are respelled. -/
theorem Respells.tokens {norm norm' : Text} (h : Respells norm norm') (n : ℕ) :
    List.Forall₂ Respelled (memorySplitTokens norm n) (memorySplitTokens norm' n) := by
  have hfilter : List.Forall₂ Respelled ((norm.splitOn 32).filter (· ≠ [])) ((norm'.splitOn 32).filter (· ≠ [])) := by
    refine List.rel_filter (fun w w' hw => ?_) h
    simp only [decide_eq_true_eq]
    exact not_congr (hw.eq_iff (by decide))
  refine List.forall₂_take n ?_
  rw [List.forall₂_map_left_iff, List.forall₂_map_right_iff]
  exact hfilter.imp fun w w' hw => hw.take 63 (by omega)

/-- A term that is no month stands in both texts or in neither. -/
theorem Respells.inNorm_eq {norm norm' : Text} (h : Respells norm norm') (hne : w ≠ []) (hblank : 32 ∉ w)
    (hw : memoryIsMonthToken w = false) : memoryTokenInNorm norm w = memoryTokenInNorm norm' w := by
  have hmem : ∀ {xs ys : List Text}, List.Forall₂ Respelled xs ys → (w ∈ xs ↔ w ∈ ys) := by
    intro xs ys hxs
    induction hxs with
    | nil => exact Iff.rfl
    | cons hhead _ ih => rw [List.mem_cons, List.mem_cons, ih, eq_comm, hhead.eq_iff hw, eq_comm]
  rw [Bool.eq_iff_iff, memoryTokenInNorm_iff hblank hne, memoryTokenInNorm_iff hblank hne, hmem h]

/-! ## The days of a text -/

variable {d : Date} {tok tok' : Text} {rest rest' : List Text}

theorem lastRefs_respelled (h : Respelled t t') : lastRefs d t = lastRefs d t' := by
  rcases h with rfl | h
  · rfl
  · have hnone : ∀ w, memoryIsMonthToken w → lastRefs d w = [] := by
      intro w hw
      have hall : ∀ w ∈ months, w ≠ text "week" ∧ w ≠ text "month" ∧ w ≠ text "year" ∧ memoryIsWeekdayToken w = false := by
        decide
      obtain ⟨hweek, hmonth, hyear, hweekday⟩ := hall w (of_decide_eq_true hw)
      rw [lastRefs, if_neg hweek, if_neg hmonth, if_neg hyear, hweekday, if_neg Bool.false_ne_true]
    rw [hnone t h.left, hnone t' h.symm.left]

theorem agoRefs_respelled (h : Respelled t t') (n : ℤ) : agoRefs d n t = agoRefs d n t' := by
  simp only [agoRefs, h.eq_iff (show memoryIsMonthToken (text "days") = false by decide),
    h.eq_iff (show memoryIsMonthToken (text "day") = false by decide),
    h.eq_iff (show memoryIsMonthToken (text "weeks") = false by decide),
    h.eq_iff (show memoryIsMonthToken (text "week") = false by decide),
    h.eq_iff (show memoryIsMonthToken (text "months") = false by decide),
    h.eq_iff (show memoryIsMonthToken (text "month") = false by decide)]

/-- What is indexed for a word that is no month does not depend on the spelling of the words behind it. -/
theorem absoluteDays_word (h : memoryIsMonthToken tok = false) (hrest : List.Forall₂ Respelled rest rest') :
    absoluteDays (temporalRefsAt (some d) (tok :: rest)) = absoluteDays (temporalRefsAt (some d) (tok :: rest')) := by
  cases hrest with
  | nil => rfl
  | @cons next next' more more' hnext hmore =>
    rw [temporalRefsAt.eq_def, temporalRefsAt.eq_def]
    simp only
    rw [h, if_neg Bool.false_ne_true, if_neg Bool.false_ne_true, lastRefs_respelled hnext]
    split
    · rfl
    · split
      · rfl
      · split
        · rfl
        · split
          · -- the ref of an order is no day
            have hordering : ∀ next : Text, absoluteDays (if tok ∈ ["before", "after", "during"].map text then
                [⟨tok ++ text ":" ++ next, .ordering, 18 / 10⟩] else []) = [] := by
              intro next
              split <;> rfl
            simp only [absoluteDays] at hordering ⊢
            rw [List.filter_cons, List.filter_cons, List.filter_append, List.filter_append, hordering, hordering]
          · cases hmore with
            | nil => rfl
            | cons hago _ =>
              simp only
              rw [agoRefs_respelled hnext]
              simp only [hago.eq_iff (show memoryIsMonthToken (text "ago") = false by decide)]

variable {normalizeKey : Text → Text}

/-- The days of a year are stored under keys of their own. -/
theorem dateWords_month_inj {year month month' day : ℤ} (hm : 0 ≤ month) (hm' : 0 ≤ month') :
    (text " ").intercalate [yearWord year, padded 2 month.natAbs, padded 2 day.natAbs] =
        (text " ").intercalate [yearWord year, padded 2 month'.natAbs, padded 2 day.natAbs] ↔ month = month' := by
  refine ⟨fun h => ?_, fun h => h ▸ rfl⟩
  simp only [List.intercalate_cons_cons, List.append_cancel_left_eq, List.append_cancel_right_eq] at h
  have hnumber := congrArg readDigits h
  rw [readDigits_padded, readDigits_padded] at hnumber
  omega

/-- One place of two texts: the same days are stored, or in each the day of a month, which are the same exactly if
the months are spelled alike. -/
theorem day_respelled (hnorm : NormalizesDates normalizeKey) (h : List.Forall₂ Respelled ts ts') :
    (absoluteDays (temporalRefsAt (some d) ts)).filterMap (memoryTemporalInsert normalizeKey) =
        (absoluteDays (temporalRefsAt (some d) ts')).filterMap (memoryTemporalInsert normalizeKey) ∧
      datedMonthAt ts = none ∧ datedMonthAt ts' = none ∨
    ∃ ref ref' month month',
      (absoluteDays (temporalRefsAt (some d) ts)).filterMap (memoryTemporalInsert normalizeKey) = [ref] ∧
      (absoluteDays (temporalRefsAt (some d) ts')).filterMap (memoryTemporalInsert normalizeKey) = [ref'] ∧
      datedMonthAt ts = some month ∧ datedMonthAt ts' = some month' ∧ (ref = ref' ↔ SpelledAlike month month') := by
  cases h with
  | nil => exact .inl ⟨rfl, rfl, rfl⟩
  | @cons tok tok' rest rest' htok hrest =>
    cases hmonth : memoryIsMonthToken tok with
    | false =>
      obtain rfl := htok.eq_of_not_month hmonth
      refine .inl ⟨by rw [absoluteDays_word hmonth hrest], ?_, ?_⟩
      · cases hrest <;> simp [datedMonthAt, hmonth]
      · cases hrest <;> simp [datedMonthAt, hmonth]
    | true =>
      have hmonth' : memoryIsMonthToken tok' := htok.isMonth_eq ▸ hmonth
      rw [absoluteDays_month hmonth, absoluteDays_month hmonth']
      cases hrest with
      | nil => exact .inl ⟨rfl, rfl, rfl⟩
      | @cons day day' more more' hday hmore =>
        have hsame : day.length ≤ 4 ∧ 0 < atoi day ∧ atoi day ≤ 31 ↔ day'.length ≤ 4 ∧ 0 < atoi day' ∧ atoi day' ≤ 31 := by
          rcases hday with rfl | hday
          · exact Iff.rfl
          · have hzero : ∀ w, memoryIsMonthToken w → atoi w = 0 := fun w hw => by rw [atoi, month_scanInt hw, Option.getD_none]
            rw [hzero day hday.left, hzero day' hday.symm.left]
            omega
        simp only [datedMonthAt, hmonth, hmonth', true_and, ← hsame]
        by_cases hdated : day.length ≤ 4 ∧ 0 < atoi day ∧ atoi day ≤ 31
        · have hpos := hdated.2.1
          have hday : atoi day = atoi day' := hday.atoi_eq
          have hstored : ∀ month, memoryIsMonthToken month →
              [⟨memoryFormatDate d.year (memoryMonthNumber month) (atoi day), .absoluteDay, 28 / 10⟩].filterMap
                (memoryTemporalInsert normalizeKey) =
              [⟨(text " ").intercalate [yearWord d.year, padded 2 (memoryMonthNumber month).natAbs, padded 2 (atoi day).natAbs],
                .absoluteDay, 28 / 10⟩] := by
            intro month hmonth
            have hm := month_number hmonth
            rw [List.filterMap_cons_some (memoryTemporalInsert_date hnorm (by omega) (Int.le_of_lt hpos) _ _), List.filterMap_nil]
          simp only [if_pos hdated, ← hday]
          refine .inr ⟨_, _, tok, tok', hstored tok hmonth, hstored tok' hmonth', rfl, rfl, ?_⟩
          have hm := month_number hmonth
          have hm' := month_number hmonth'
          rw [← htok.number_eq_iff, TemporalRef.mk.injEq, dateWords_month_inj (by omega) (by omega)]
          exact and_iff_left ⟨rfl, rfl⟩
        · simp [if_neg hdated]

/-- Respelling leaves the days that a text indexes, or moves them, by the months before days. -/
theorem absoluteDays_respelled_iff (hnorm : NormalizesDates normalizeKey) (created : Option Date) (key key' : Text)
    {content content' : Text} (h : Respells (normalizeKey content) (normalizeKey content')) :
    absoluteDays (memoryRefreshTemporalRefs normalizeKey created key content) =
        absoluteDays (memoryRefreshTemporalRefs normalizeKey created key' content') ↔
      created = none ∨ List.Forall₂ SpelledAlike (datedMonths (memorySplitTokens (normalizeKey content) 24))
        (datedMonths (memorySplitTokens (normalizeKey content') 24)) := by
  rw [absoluteDays_memoryRefreshTemporalRefs, absoluteDays_memoryRefreshTemporalRefs]
  cases created with
  | none =>
    have hnil : ∀ tss : List (List Text), (tss.flatMap fun ts =>
        (absoluteDays (temporalRefsAt none ts)).filterMap (memoryTemporalInsert normalizeKey)) = [] := by
      intro tss
      refine List.flatMap_eq_nil_iff.2 fun ts _ => ?_
      rw [absoluteDays_undated, List.filterMap_nil]
    exact iff_of_true ((hnil _).trans (hnil _).symm) (.inl rfl)
  | some d =>
    rw [flatMap_eq_iff_forall₂ (forall₂_tails (h.tokens 24)) fun ts ts' hts => day_respelled hnorm hts]
    exact ⟨.inr, fun hor => hor.resolve_left (Option.some_ne_none d)⟩

/-! ## The constraint of a query -/

/-- Dates read with the months that they are read by. -/
def DateRel (x x' : ParsedDate × Option Text) : Prop := x.1 = x'.1 ↔ Option.Rel SpelledAlike x.2 x'.2

theorem yearBehind_respelled (h : List.Forall₂ Respelled rest rest') : yearBehind rest = yearBehind rest' := by
  match h with
  | .nil => rfl
  | .cons _ .nil => rfl
  | .cons _ (.cons hc _) =>
    rw [yearBehind, yearBehind]
    rcases hc with rfl | hc
    · rfl
    · rw [month_scanInt hc.left, month_scanInt hc.symm.left, ite_self, ite_self]

theorem head_scanInt_respelled (h : List.Forall₂ Respelled rest rest') :
    rest.head?.bind scanInt = rest'.head?.bind scanInt := by
  cases h with
  | nil => rfl
  | cons hb _ => exact hb.scanInt_eq

/-- A third token that is respelled takes no part in a date. -/
theorem memoryParseDateTokensTaking_third (a b : Text) (h : List.Forall₂ Respelled rest rest') :
    memoryParseDateTokensTaking (a :: b :: rest) = memoryParseDateTokensTaking (a :: b :: rest') := by
  match h with
  | .nil => rfl
  | .cons (.inl rfl) _ => rfl
  | .cons (a := c) (b := c') (.inr hc) _ =>
    have hiso : ∀ w, memoryIsMonthToken w → isoForm a b w = fun out => (out, false) := fun w hw =>
      funext fun out => isoForm_of_letter (w := w) (by simp) (month_letter hw)
    simp only [memoryParseDateTokensTaking, dateForms, hiso c hc.left, hiso c' hc.symm.left, month_scanInt hc.left,
      month_scanInt hc.symm.left, ite_self]

/-- The same number of tokens is read as a date, and the dates are the same exactly if their months are spelled alike. -/
theorem memoryParseDateTokensTaking_respelled (h : List.Forall₂ Respelled ts ts') :
    Option.Rel (TakenRel DateRel) ((memoryParseDateTokensTaking ts).map fun date => ((date.1, monthWord ts), date.2))
      ((memoryParseDateTokensTaking ts').map fun date => ((date.1, monthWord ts'), date.2)) := by
  have hdate : ∀ {m m' : Text}, Respelled m m' → monthWord ts = some m → monthWord ts' = some m' → ∀ year day granularity,
      DateRel (⟨year, memoryMonthNumber m, day, granularity⟩, monthWord ts)
        (⟨year, memoryMonthNumber m', day, granularity⟩, monthWord ts') := by
    intro m m' hm hword hword' year day granularity
    rw [DateRel, hword, hword', ParsedDate.mk.injEq, hm.number_eq_iff]
    exact ⟨fun h => .some h.2.1, fun h => by cases h with | some h => exact ⟨rfl, h, rfl, rfl⟩⟩
  have hunread : memoryParseDateTokensTaking ts = memoryParseDateTokensTaking ts' → monthWord ts = none → monthWord ts' = none →
      Option.Rel (TakenRel DateRel) ((memoryParseDateTokensTaking ts).map fun date => ((date.1, monthWord ts), date.2))
        ((memoryParseDateTokensTaking ts').map fun date => ((date.1, monthWord ts'), date.2)) := by
    intro htaken hword hword'
    rw [htaken, hword, hword']
    cases memoryParseDateTokensTaking ts' with
    | none => exact .none
    | some date => exact .some ⟨iff_of_true rfl .none, rfl⟩
  cases h with
  | nil => exact .none
  | @cons a a' rest rest' ha hrest =>
    cases hmonth : memoryIsMonthToken a with
    | true =>
      have hmonth' : memoryIsMonthToken a' := ha.isMonth_eq ▸ hmonth
      have hread := hdate ha (by simp [monthWord, hmonth]) (by simp [monthWord, hmonth'])
      rw [memoryParseDateTokensTaking_month hmonth, memoryParseDateTokensTaking_month hmonth', head_scanInt_respelled hrest,
        yearBehind_respelled hrest]
      cases rest'.head?.bind scanInt with
      | none => exact .some ⟨hread _ _ _, rfl⟩
      | some day =>
        simp only
        split
        · cases yearBehind rest' with
          | none => exact .some ⟨hread _ _ _, rfl⟩
          | some year => exact .some ⟨hread _ _ _, rfl⟩
        · exact .some ⟨hread _ _ _, rfl⟩
    | false =>
      obtain rfl := ha.eq_of_not_month hmonth
      cases hn : scanInt a with
      | none =>
        rw [memoryParseDateTokensTaking_word hmonth hn, memoryParseDateTokensTaking_word hmonth hn]
        exact .none
      | some n =>
        cases hrest with
        | nil => exact hunread rfl (by simp [monthWord, hmonth, hn]) (by simp [monthWord, hmonth, hn])
        | @cons b b' more more' hb hmore =>
          cases hbmonth : memoryIsMonthToken b with
          | true =>
            have hbmonth' : memoryIsMonthToken b' := hb.isMonth_eq ▸ hbmonth
            have hread := hdate hb (by simp [monthWord, hmonth, hn, hbmonth]) (by simp [monthWord, hmonth, hn, hbmonth'])
            rw [memoryParseDateTokensTaking_dayMonth hmonth hn hbmonth, memoryParseDateTokensTaking_dayMonth hmonth hn hbmonth',
              yearBehind_respelled (.cons hb hmore)]
            split
            · cases yearBehind (b' :: more') with
              | none => exact .some ⟨hread _ _ _, rfl⟩
              | some year => exact .some ⟨hread _ _ _, rfl⟩
            · split
              · exact .some ⟨hread _ _ _, rfl⟩
              · exact .none
          | false =>
            obtain rfl := hb.eq_of_not_month hbmonth
            exact hunread (memoryParseDateTokensTaking_third a b hmore) (by simp [monthWord, hmonth, hn, hbmonth])
              (by simp [monthWord, hmonth, hn, hbmonth])

theorem lastNextConstraint_respelled (h : Respelled t t') (today : Date) (delta : ℤ) :
    lastNextConstraint today delta t = lastNextConstraint today delta t' := by
  rcases h with rfl | h
  · rfl
  · have hnone : ∀ w, memoryIsMonthToken w → lastNextConstraint today delta w = none := by
      intro w hw
      have hall : ∀ w ∈ months, w ≠ text "week" ∧ w ≠ text "month" ∧ w ≠ text "year" ∧ memoryIsWeekdayToken w = false := by
        decide
      obtain ⟨hweek, hmonth, hyear, hweekday⟩ := hall w (of_decide_eq_true hw)
      rw [lastNextConstraint, if_neg hweek, if_neg hmonth, if_neg hyear, hweekday, if_neg Bool.false_ne_true]
    rw [hnone t h.left, hnone t' h.symm.left]

theorem agoConstraint_respelled (h : Respelled t t') (today : Date) (amount : ℤ) :
    agoConstraint today amount t = agoConstraint today amount t' := by
  rcases h with rfl | h
  · rfl
  · have hnone : ∀ w, memoryIsMonthToken w → agoConstraint today amount w = none := by
      intro w hw
      have hall : ∀ w ∈ months, ¬ text "day" <+: w ∧ ¬ text "week" <+: w ∧ ¬ text "month" <+: w := by decide
      obtain ⟨hday, hweek, hmonth⟩ := hall w (of_decide_eq_true hw)
      rw [agoConstraint, if_neg hday, if_neg hweek, if_neg hmonth]
    rw [hnone t h.left, hnone t' h.symm.left]

theorem relativeConstraintAt_month (h : memoryIsMonthToken tok) (today : Date) :
    relativeConstraintAt today (tok :: rest) = none := by
  have hall : ∀ w ∈ months, w ≠ text "today" ∧ w ≠ text "yesterday" ∧ w ≠ text "tomorrow" ∧ w ≠ text "last" ∧
      w ≠ text "next" ∧ w.head?.any isdigit = false := by decide
  obtain ⟨htoday, hyesterday, htomorrow, hlast, hnext, hdigit⟩ := hall tok (of_decide_eq_true h)
  rw [relativeConstraintAt.eq_def]
  simp only
  rw [if_neg htoday, if_neg hyesterday, if_neg htomorrow, if_neg (not_or.2 ⟨hlast, hnext⟩), hdigit]
  split
  · exact if_neg fun hago => Bool.false_ne_true hago.1
  · rfl

/-- Relative phrases have no months. -/
theorem memoryParseRelativeTemporalConstraint_respelled (h : List.Forall₂ Respelled ts ts') (today : Date) :
    memoryParseRelativeTemporalConstraint today ts = memoryParseRelativeTemporalConstraint today ts' := by
  have hplace : ∀ us us', List.Forall₂ Respelled us us' →
      Option.Rel Eq (relativeConstraintAt today us) (relativeConstraintAt today us') := by
    intro us us' hus
    rw [optionRel_eq]
    cases hus with
    | nil => rfl
    | @cons tok tok' rest rest' htok hrest =>
      cases hmonth : memoryIsMonthToken tok with
      | true => rw [relativeConstraintAt_month hmonth, relativeConstraintAt_month (htok.isMonth_eq ▸ hmonth)]
      | false =>
        obtain rfl := htok.eq_of_not_month hmonth
        match hrest with
        | .nil => rfl
        | .cons hunit .nil => simp only [relativeConstraintAt, List.head?_cons, Option.bind_some, lastNextConstraint_respelled hunit]
        | .cons hunit (.cons hago _) =>
          simp only [relativeConstraintAt, List.head?_cons, Option.bind_some, lastNextConstraint_respelled hunit,
            agoConstraint_respelled hunit, hago.eq_iff (show memoryIsMonthToken (text "ago") = false by decide)]
  exact optionRel_eq.1 (forall₂_findSome? (forall₂_tails h) hplace)

theorem any_inNorm_eq {norm norm' : Text} (h : Respells norm norm') {terms : List String}
    (hterms : ∀ term ∈ terms, text term ≠ [] ∧ 32 ∉ text term ∧ memoryIsMonthToken (text term) = false) :
    (terms.any fun term => memoryTokenInNorm norm (text term)) = terms.any fun term => memoryTokenInNorm norm' (text term) := by
  induction terms with
  | nil => rfl
  | cons term terms ih =>
    obtain ⟨hne, hblank, hmonth⟩ := hterms term List.mem_cons_self
    rw [List.any_cons, List.any_cons, h.inNorm_eq hne hblank hmonth, ih fun t ht => hterms t (List.mem_cons_of_mem _ ht)]

/-- Respelling leaves the constraint of a query, or changes it, by the months of the dates that it is read by. -/
theorem memoryParseTemporalConstraint_respelled_iff (today : Date) {norm norm' : Text} (hnorm : Respells norm norm')
    (h : List.Forall₂ Respelled ts ts') :
    memoryParseTemporalConstraint today norm ts = memoryParseTemporalConstraint today norm' ts' ↔
      (memoryParseRelativeTemporalConstraint today ts).isSome ∨
        Option.Rel (ConstraintRel (Option.Rel SpelledAlike)) (monthWordsRead ts) (monthWordsRead ts') := by
  let read : List Text → Option ((ParsedDate × Option Text) × ℕ) :=
    fun us => (memoryParseDateTokensTaking us).map fun date => ((date.1, monthWord us), date.2)
  have hfst : ∀ us, explicitConstraint memoryParseDateTokensTaking us =
      (explicitConstraint read us).map fun c => (c.1, c.2.1.1, c.2.2.map Prod.fst) := by
    intro us
    rw [← explicitConstraint_map]
    congr 1
    funext us
    rw [Option.map_map]
    exact Option.map_id'.symm
  have hsnd : ∀ us, monthWordsRead us = (explicitConstraint read us).map fun c => (c.1, c.2.1.2, c.2.2.map Prod.snd) := by
    intro us
    rw [← explicitConstraint_map]
    simp only [read, Option.map_map]
    rfl
  have hrel : Option.Rel (ConstraintRel DateRel) (explicitConstraint read ts) (explicitConstraint read ts') := by
    refine explicitConstraint_rel (fun t t' ht w hw => ht.eq_iff ?_) (fun us us' => memoryParseDateTokensTaking_respelled) h
    have hall : ∀ w ∈ constraintWords, memoryIsMonthToken w = false := by decide
    exact hall w hw
  have hpast : memoryQueryWantsPast norm = memoryQueryWantsPast norm' := any_inNorm_eq hnorm (by decide)
  have hfuture : memoryQueryWantsFuture norm = memoryQueryWantsFuture norm' := any_inNorm_eq hnorm (by decide)
  have hnil : ts ≠ [] ↔ ts' ≠ [] := by cases h <;> simp
  rw [memoryParseTemporalConstraint, memoryParseTemporalConstraint, ← memoryParseRelativeTemporalConstraint_respelled h,
    hpast, hfuture, hfst, hfst, hsnd, hsnd]
  simp only [hnil]
  cases memoryParseRelativeTemporalConstraint today ts with
  | some c => simp
  | none =>
    rw [Option.none_or, Option.none_or]
    generalize explicitConstraint read ts = c at hrel ⊢
    generalize explicitConstraint read ts' = c' at hrel ⊢
    cases hrel with
    | none => exact iff_of_true rfl (.inr .none)
    | @some c c' hc =>
      obtain ⟨mode, first, second⟩ := c
      obtain ⟨mode', first', second'⟩ := c'
      obtain ⟨rfl, hfirst, hsecond⟩ := hc
      simp only [Option.map_some, Option.some_or, Option.some.injEq, TemporalConstraint.mk.injEq, true_and, Option.isSome_none,
        Bool.false_eq_true, false_or]
      constructor
      · rintro ⟨hfirst', hsecond'⟩
        refine .some ⟨rfl, hfirst.1 hfirst', ?_⟩
        cases hsecond with
        | none => exact .none
        | some hsecond => exact .some (hsecond.1 (Option.some.inj hsecond'))
      · rintro (⟨-, hfirst', hsecond'⟩ | _)
        refine ⟨hfirst.2 hfirst', ?_⟩
        cases hsecond with
        | none => rfl
        | some hsecond =>
          cases hsecond' with
          | some hsecond' => exact congrArg some (hsecond.2 hsecond')

/-- **Respelling the months of a text** leaves the days that it indexes exactly if the creation day is not known or the
months before days are spelled alike: no misnumbered abbreviation stands for another spelling. **Respelling those of a
query** leaves its constraint exactly if it has a relative phrase or the months that its dates are read by are. -/
theorem respelled_iff (hnormal : NormalizesDates normalizeKey) (created : Option Date) (today : Date) (key key' : Text)
    {content content' norm norm' : Text} {tokens tokens' : List Text}
    (hcontent : Respells (normalizeKey content) (normalizeKey content')) (hnorm : Respells norm norm')
    (htokens : List.Forall₂ Respelled tokens tokens') :
    (absoluteDays (memoryRefreshTemporalRefs normalizeKey created key content) =
          absoluteDays (memoryRefreshTemporalRefs normalizeKey created key' content') ↔
        created = none ∨ List.Forall₂ SpelledAlike (datedMonths (memorySplitTokens (normalizeKey content) 24))
          (datedMonths (memorySplitTokens (normalizeKey content') 24))) ∧
      (memoryParseTemporalConstraint today norm tokens = memoryParseTemporalConstraint today norm' tokens' ↔
        (memoryParseRelativeTemporalConstraint today tokens).isSome ∨
          Option.Rel (ConstraintRel (Option.Rel SpelledAlike)) (monthWordsRead tokens) (monthWordsRead tokens')) :=
  ⟨absoluteDays_respelled_iff hnormal created key key' hcontent,
    memoryParseTemporalConstraint_respelled_iff today hnorm htokens⟩

/-- In a memory of the 10th of May "june 5" is the 5th of June and "jun 5" is the 5th of May, and so in a query. -/
theorem june_moves :
    NormalizesDates hyphensToBlanks ∧ Respells (hyphensToBlanks (text "june 5")) (hyphensToBlanks (text "jun 5")) ∧
      absoluteDays (memoryRefreshTemporalRefs hyphensToBlanks (some friday) [] (text "june 5")) ≠
        absoluteDays (memoryRefreshTemporalRefs hyphensToBlanks (some friday) [] (text "jun 5")) ∧
      memoryParseTemporalConstraint friday (text "june 5") [text "june", text "5"] ≠
        memoryParseTemporalConstraint friday (text "jun 5") [text "jun", text "5"] :=
  ⟨hyphensToBlanks_normalizes, by decide, by decide +kernel, by decide⟩

/-- "march 5" is "mar 5". -/
theorem march_stays :
    absoluteDays (memoryRefreshTemporalRefs hyphensToBlanks (some friday) [] (text "march 5")) =
        absoluteDays (memoryRefreshTemporalRefs hyphensToBlanks (some friday) [] (text "mar 5")) ∧
      memoryParseTemporalConstraint friday (text "march 5") [text "march", text "5"] =
        memoryParseTemporalConstraint friday (text "mar 5") [text "mar", text "5"] := by
  have hspelled : SpelledAlike (text "march") (text "mar") := by decide
  have hcontent : Respells (hyphensToBlanks (text "march 5")) (hyphensToBlanks (text "mar 5")) := by decide
  have hnorm : Respells (text "march 5") (text "mar 5") := by decide
  have htokens : List.Forall₂ Respelled [text "march", text "5"] [text "mar", text "5"] := by decide
  have h := respelled_iff hyphensToBlanks_normalizes (some friday) friday [] [] hcontent hnorm htokens
  exact ⟨h.1.2 (.inr (.cons hspelled .nil)), h.2.2 (.inr (.some ⟨rfl, .some hspelled, .none⟩))⟩

end AimeeMemory.Recall
