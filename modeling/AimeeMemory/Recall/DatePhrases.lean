import AimeeMemory.Recall.MonthSpelling

/-!
# The date phrases of a query

A date phrase says something of a day: its year, its month, its day of the month, or some of
these. `memory_parse_temporal_constraint` makes of it a constraint on one date, with a
granularity from the year to the day, and `memory_temporal_constraint_score` compares this
with an indexed date. Here the phrases stand between words that say nothing of dates.

## What is proved

* **`matches_iff`**: dates that agree with a phrase score positively, and those of other years
  do not, exactly for the phrases of `DatePhrase.Met`: not for a month without a year, nor for
  a month and a year behind it, nor for a month counted from today; for these the date has
  no year, or a day.
* `june_2024_misses`: "june 2024" and a day of June 2024.

## Honest scope

That of `AimeeMemory.Recall.RelativeDates`. A week is no one date, and not among the phrases.
-/

namespace AimeeMemory.Recall

open AimeeMemory.Core AimeeMemory.Lib

/-! ## Phrases -/

structure YearWord where
  token : Text
  number : IsNumber token
  length_eq : token.length = 4

def YearWord.value (y : YearWord) : ℤ := readDigits y.token

structure TwoDigits where
  token : Text
  number : IsNumber token
  length_eq : token.length = 2

def TwoDigits.value (n : TwoDigits) : ℤ := readDigits n.token

/-- The day of a month, as `sscanf` reads it. -/
structure DayWord where
  token : Text
  value : ℤ
  scan : scanInt token = some value
  day : 0 < value ∧ value ≤ 31

structure MonthWord where
  token : Text
  month : memoryIsMonthToken token

/-- The number of a month, by the order of their spellings. -/
def MonthWord.value (m : MonthWord) : ℤ := spellings.findIdx (m.token ∈ ·) + 1

structure AmountWord where
  token : Text
  head : token.head?.any isdigit
  pos : 0 < atoi token

/-- The phrases that speak of one date. Weekdays count from Sunday. -/
inductive DatePhrase where
  | iso (year : YearWord) (month day : TwoDigits)
  | full (dayFirst : Bool) (month : MonthWord) (day : DayWord) (year : YearWord)
  | monthDay (dayFirst : Bool) (month : MonthWord) (day : DayWord)
  | monthYear (month : MonthWord) (year : YearWord)
  | yearMonth (year : YearWord) (month : MonthWord)
  | month (month : MonthWord)
  | year (year : YearWord)
  | today
  | yesterday
  | tomorrow
  | nearMonth (next : Bool)
  | nearYear (next : Bool)
  | nearWeekday (next : Bool) (w : Fin 7)
  | ago (amount : AmountWord) (unit : AgoUnit) (plural : Bool)

def nearWord (next : Bool) : Text := if next then text "next" else text "last"

def nearDelta (next : Bool) : ℤ := if next then 1 else -1

def DatePhrase.tokens : DatePhrase → List Text
  | .iso y m d => [y.token, m.token, d.token]
  | .full dayFirst m d y => if dayFirst then [d.token, m.token, y.token] else [m.token, d.token, y.token]
  | .monthDay dayFirst m d => if dayFirst then [d.token, m.token] else [m.token, d.token]
  | .monthYear m y => [m.token, y.token]
  | .yearMonth y m => [y.token, m.token]
  | .month m => [m.token]
  | .year y => [y.token]
  | .today => [text "today"]
  | .yesterday => [text "yesterday"]
  | .tomorrow => [text "tomorrow"]
  | .nearMonth next => [nearWord next, text "month"]
  | .nearYear next => [nearWord next, text "year"]
  | .nearWeekday next w => [nearWord next, weekdays.get w]
  | .ago amount unit plural => [amount.token, unit.word plural, text "ago"]

/-- What a phrase says of a date. -/
structure Components where
  year : Option ℤ := none
  month : Option ℤ := none
  day : Option ℤ := none

def Components.ofDate (d : Date) : Components := ⟨some d.year, some d.month, some d.day⟩

/-- A month, counted from the beginning of the year 0. -/
def Components.ofMonth (monthIndex : ℤ) : Components := ⟨some (monthIndex / 12), some (monthIndex % 12 + 1), none⟩

/-- The components of a phrase, on a day. -/
def DatePhrase.components (today : Date) : DatePhrase → Components
  | .iso y m d => ⟨some y.value, some m.value, some d.value⟩
  | .full _ m d y => ⟨some y.value, some m.value, some d.value⟩
  | .monthDay _ m d => ⟨none, some m.value, some d.value⟩
  | .monthYear m y => ⟨some y.value, some m.value, none⟩
  | .yearMonth y m => ⟨some y.value, some m.value, none⟩
  | .month m => ⟨none, some m.value, none⟩
  | .year y => ⟨some y.value, none, none⟩
  | .today => .ofDate today
  | .yesterday => .ofDate (today.shift (-1))
  | .tomorrow => .ofDate (today.shift 1)
  | .nearMonth next => .ofMonth (today.year * 12 + (today.month - 1) + nearDelta next)
  | .nearYear next => ⟨some (today.year + nearDelta next), none, none⟩
  | .nearWeekday next w => .ofDate (today.shift (w - today.weekday + nearDelta next * 7))
  | .ago amount .day _ => .ofDate (today.shift (-atoi amount.token))
  | .ago amount .week _ => .ofDate (today.shift (-atoi amount.token * 7))
  | .ago amount .month _ => .ofMonth (today.year * 12 + (today.month - 1) - atoi amount.token)

/-- A date agrees with what is said of it. -/
structure Components.Agrees (c : Components) (date : ParsedDate) : Prop where
  year : ∀ y ∈ c.year, date.year = y
  month : ∀ m ∈ c.month, date.month = m
  day : ∀ d ∈ c.day, date.day = d

/-- The granularities of the dates that are read. -/
def ParsedDate.Valid (date : ParsedDate) : Prop := 1 ≤ date.granularity ∧ date.granularity ≤ 3

/-- A query is on one date, for which the dates that agree with the phrase score positively, and those of other
years do not. -/
def DatePhrase.Matches (p : DatePhrase) (today : Date) (norm : Text) (tokens : List Text) : Prop :=
  ∃ first, memoryParseTemporalConstraint today norm tokens = some (.onDate first) ∧
    (∀ date : ParsedDate, date.Valid → (p.components today).Agrees date →
      0 < memoryTemporalConstraintScore (.onDate first) date) ∧
    ∀ date : ParsedDate, date.Valid → (∃ y ∈ (p.components today).year, date.year ≠ y) →
      memoryTemporalConstraintScore (.onDate first) date ≤ 0

/-- The phrases that are understood. -/
def DatePhrase.Met : DatePhrase → Prop
  | .full _ m _ _ => m.token ∉ misnumbered
  | .monthYear m y => y.value = 0 ∧ m.token ∉ misnumbered
  | .yearMonth y _ => ¬ (0 < y.value ∧ y.value ≤ 31)
  | .monthDay _ _ _ => False
  | .month _ => False
  | .nearMonth _ => False
  | .ago _ .month _ => False
  | _ => True

/-- The words that a constraint is looked for by. -/
def signalWords : List Text :=
  ["today", "yesterday", "tomorrow", "last", "next", "ago", "between", "before", "until", "after", "since"].map text

/-- A word that says nothing of dates. -/
structure Plain (w : Text) : Prop where
  month : memoryIsMonthToken w = false
  number : scanInt w = none
  signal : w ∉ signalWords

/-! ## The parse -/

variable {today : Date} {norm : Text} {before after ts : List Text} {first : ParsedDate} {p : DatePhrase}

/-- A reader that wants a signal word at its head reads nothing where there is none. -/
theorem findSome_tails_of_no_signal {β : Type*} {read : List Text → Option β} (h : ∀ t ∈ ts, t ∉ signalWords)
    (hnil : read [] = none) (hread : ∀ tok rest, tok :: rest ⊆ ts → tok ∉ signalWords → read (tok :: rest) = none) :
    ts.tails.findSome? read = none := by
  rw [List.findSome?_eq_none_iff]
  intro us hus
  have hmem := (List.mem_tails ..).1 hus |>.subset
  cases us with
  | nil => exact hnil
  | cons tok rest => exact hread tok rest hmem (h tok (hmem List.mem_cons_self))

theorem relative_of_no_signal (h : ∀ t ∈ ts, t ∉ signalWords) : memoryParseRelativeTemporalConstraint today ts = none := by
  refine findSome_tails_of_no_signal h rfl fun tok rest hmem htok => ?_
  simp only [signalWords, List.map_cons, List.map_nil, List.mem_cons, List.not_mem_nil, or_false, not_or] at htok
  rw [relativeConstraintAt.eq_def]
  simp only
  rw [if_neg htok.1, if_neg htok.2.1, if_neg htok.2.2.1, if_neg (not_or.2 ⟨htok.2.2.2.1, htok.2.2.2.2.1⟩)]
  split
  · rename_i unit ago rest
    have hago : ago ≠ text "ago" := by
      rintro rfl
      exact h (text "ago") (hmem (by simp)) (by decide)
    exact if_neg fun hall => hago hall.2.2
  · rfl

theorem keyword_of_no_signal {α : Type*} (read : List Text → Option (α × ℕ)) (h : ∀ t ∈ ts, t ∉ signalWords) :
    ts.tails.findSome? (keywordConstraintAt read) = none := by
  refine findSome_tails_of_no_signal h rfl fun tok rest _ htok => ?_
  simp only [signalWords, List.map_cons, List.map_nil, List.mem_cons, List.not_mem_nil, or_false, not_or] at htok
  obtain ⟨-, -, -, -, -, -, hbetween, hbefore, huntil, hafter, hsince⟩ := htok
  rw [keywordConstraintAt, if_neg hbetween, if_neg (not_or.2 ⟨hbefore, huntil⟩), if_neg (not_or.2 ⟨hafter, hsince⟩)]

/-- A date that is read behind plain words makes the constraint, where no word calls for another. -/
theorem parse_explicit {n : ℕ} (hbefore : ∀ w ∈ before, Plain w) (hts : ∀ t ∈ ts, t ∉ signalWords)
    (hread : memoryParseDateTokensTaking ts = some (first, n)) :
    memoryParseTemporalConstraint today norm (before ++ ts) = some (.onDate first) := by
  have hall : ∀ t ∈ before ++ ts, t ∉ signalWords := by
    intro t ht
    rcases List.mem_append.1 ht with h | h
    · exact (hbefore t h).signal
    · exact hts t h
  have hfirst : (before ++ ts).tails.findSome? (fun us => (memoryParseDateTokensTaking us).map fun date =>
      (DateConstraintMode.onDate, date.1, (none : Option ParsedDate))) = some (.onDate, first, none) := by
    refine findSome?_tails_of_none before (fun k hk => ?_) (by rw [hread]; rfl)
    rw [List.drop_append_of_le_length (Nat.le_of_lt hk), List.drop_eq_getElem_cons hk, List.cons_append]
    have hplain := hbefore _ (List.getElem_mem hk)
    rw [memoryParseDateTokensTaking_word hplain.month hplain.number]
    rfl
  rw [memoryParseTemporalConstraint, relative_of_no_signal hall, explicitConstraint, keyword_of_no_signal _ hall, hfirst]
  rfl

theorem Plain.relativeConstraintAt_eq {w : Text} (h : Plain w) (rest : List Text) :
    relativeConstraintAt today (w :: rest) = none := by
  have hsignal := h.signal
  simp only [signalWords, List.map_cons, List.map_nil, List.mem_cons, List.not_mem_nil, or_false, not_or] at hsignal
  have hdigit : ¬ w.head?.any isdigit := by
    intro hdigit
    obtain ⟨v, post, rfl, hv, hpost⟩ := number_append hdigit
    have hnone := h.number
    rw [scanInt_append hv hpost] at hnone
    cases hnone
  rw [relativeConstraintAt.eq_def]
  simp only
  rw [if_neg hsignal.1, if_neg hsignal.2.1, if_neg hsignal.2.2.1, if_neg (not_or.2 ⟨hsignal.2.2.2.1, hsignal.2.2.2.2.1⟩)]
  split
  · exact if_neg fun hall => hdigit hall.1
  · rfl

/-- A relative phrase behind plain words makes the constraint. -/
theorem parse_relative (hbefore : ∀ w ∈ before, Plain w) (hasked : relativeConstraintAt today ts = some (.onDate first)) :
    memoryParseTemporalConstraint today norm (before ++ ts) = some (.onDate first) := by
  have hfound : memoryParseRelativeTemporalConstraint today (before ++ ts) = some (.onDate first) := by
    refine findSome?_tails_of_none before (fun k hk => ?_) hasked
    rw [List.drop_append_of_le_length (Nat.le_of_lt hk), List.drop_eq_getElem_cons hk, List.cons_append]
    exact (hbefore _ (List.getElem_mem hk)).relativeConstraintAt_eq _
  rw [memoryParseTemporalConstraint, hfound, Option.some_or]

/-! ## What a date fits -/

/-- The dates that agree with what is said compare equal with a date, and those of other years do not. -/
def Components.Fits (c : Components) (first : ParsedDate) : Prop :=
  (∀ date : ParsedDate, date.Valid → c.Agrees date → memoryDateCompare date first = 0) ∧
    ∀ date : ParsedDate, date.Valid → (∃ y ∈ c.year, date.year ≠ y) → memoryDateCompare date first ≠ 0

/-- A query on one date matches a phrase where this date fits it. -/
theorem matches_iff_fits {tokens : List Text} (h : memoryParseTemporalConstraint today norm tokens = some (.onDate first)) :
    p.Matches today norm tokens ↔ (p.components today).Fits first := by
  have hneg : ∀ date, memoryTemporalConstraintScore (.onDate first) date ≤ 0 ↔ memoryDateCompare date first ≠ 0 := by
    intro date
    rw [← not_lt, score_onDate_pos_iff]
  rw [DatePhrase.Matches, h]
  constructor
  · rintro ⟨first', heq, hagree, hother⟩
    cases heq
    exact ⟨fun date hv ha => (score_onDate_pos_iff _ _).1 (hagree date hv ha), fun date hv hy => (hneg date).1 (hother date hv hy)⟩
  · rintro ⟨hagree, hother⟩
    exact ⟨first, rfl, fun date hv ha => (score_onDate_pos_iff _ _).2 (hagree date hv ha),
      fun date hv hy => (hneg date).2 (hother date hv hy)⟩

variable {y m m' d day : ℤ}

theorem valid_day (y m d : ℤ) : ParsedDate.Valid ⟨y, m, d, 3⟩ := by simp [ParsedDate.Valid]

/-- A date of the year that is said does not compare equal with another year. -/
theorem compare_ne_of_year {date : ParsedDate} (hfirst : first.year = y) (h : ∃ y' ∈ some y, date.year ≠ y') :
    memoryDateCompare date first ≠ 0 := by
  obtain ⟨y', hy, hne⟩ := h
  intro heq
  exact hne ((((memoryDateCompare_eq_zero_iff _ _).1 heq).1.trans hfirst).trans (Option.some.inj hy))

theorem fits_day_iff : Components.Fits ⟨some y, some m, some d⟩ ⟨y, m', d, 3⟩ ↔ m = m' := by
  constructor
  · rintro ⟨hagree, -⟩
    have hzero := hagree ⟨y, m, d, 3⟩ (valid_day _ _ _) ⟨fun _ h => Option.some.inj h, fun _ h => Option.some.inj h,
      fun _ h => Option.some.inj h⟩
    obtain ⟨-, h | ⟨h, -⟩⟩ := (memoryDateCompare_eq_zero_iff _ _).1 hzero
    · cases h
    · exact h
  · rintro rfl
    refine ⟨fun date hvalid ⟨hy, hm, hd⟩ => ?_, fun date _ h => compare_ne_of_year rfl h⟩
    exact (memoryDateCompare_eq_zero_iff _ _).2 ⟨hy y rfl, .inr ⟨hm m rfl, .inr (hd d rfl)⟩⟩

/-- A year fits what is said of it, whatever is left in the date. -/
theorem fits_year {month day' : Option ℤ} : Components.Fits ⟨some y, month, day'⟩ ⟨y, m, d, 1⟩ := by
  refine ⟨fun date hvalid ⟨hy, _, _⟩ => ?_, fun date _ h => compare_ne_of_year rfl h⟩
  exact (memoryDateCompare_eq_zero_iff _ _).2 ⟨hy y rfl, .inl (Nat.min_eq_right hvalid.1)⟩

/-- A date without a year fits no month of every year. -/
theorem not_fits_yearless {day' : Option ℤ} : ¬ Components.Fits ⟨none, some m, day'⟩ ⟨0, m', d, 2⟩ := by
  rintro ⟨hagree, -⟩
  have hzero := hagree ⟨1, m, day'.getD 0, 3⟩ (valid_day _ _ _)
    ⟨fun _ h => (nomatch h), fun _ h => Option.some.inj h, fun _ h => congrArg (Option.getD · 0) h⟩
  exact absurd ((memoryDateCompare_eq_zero_iff _ _).1 hzero).1 one_ne_zero

/-- A date without a year fits a month of the year 0 only. -/
theorem fits_month_iff : Components.Fits ⟨some y, some m, none⟩ ⟨0, m', d, 2⟩ ↔ y = 0 ∧ m = m' := by
  constructor
  · rintro ⟨hagree, -⟩
    have hzero := hagree ⟨y, m, 0, 3⟩ (valid_day _ _ _) ⟨fun _ h => Option.some.inj h, fun _ h => Option.some.inj h,
      fun _ h => (nomatch h)⟩
    obtain ⟨hyear, h | ⟨h, -⟩⟩ := (memoryDateCompare_eq_zero_iff _ _).1 hzero
    · cases h
    · exact ⟨hyear, h⟩
  · rintro ⟨rfl, rfl⟩
    refine ⟨fun date hvalid ⟨hy, hm, _⟩ => ?_, fun date _ h => compare_ne_of_year rfl h⟩
    refine (memoryDateCompare_eq_zero_iff _ _).2 ⟨hy 0 rfl, ?_⟩
    have hmin : min date.granularity 2 = 1 ∨ min date.granularity 2 = 2 := by
      have := hvalid.1
      omega
    exact hmin.imp id fun h => ⟨hm m rfl, .inl h⟩

/-- A month that is counted from today gets a first day, or stays this month. -/
theorem not_fits_counted {delta : ℤ} (hdelta : delta ≠ 0) :
    ¬ (Components.ofMonth (today.year * 12 + (today.month - 1) + delta)).Fits
      (memoryAddMonths ⟨today.year, today.month, 0, 2⟩ delta) := by
  rintro ⟨hagree, -⟩
  have hmonth := today.month_mem
  generalize hindex : today.year * 12 + (today.month - 1) + delta = monthIndex at hagree
  have hzero := hagree ⟨monthIndex / 12, monthIndex % 12 + 1, 2, 3⟩ (valid_day _ _ _)
    ⟨fun _ h => Option.some.inj h, fun _ h => Option.some.inj h, fun _ h => (nomatch h)⟩
  rw [memoryDateCompare_eq_zero_iff] at hzero
  simp only [memoryAddMonths, hindex] at hzero
  split at hzero
  · simp only at hzero
    omega
  · simp at hzero

/-! ## Every phrase -/

theorem not_signal_of_scan {t : Text} {n : ℤ} (h : scanInt t = some n) : t ∉ signalWords := by
  have hall : ∀ w ∈ signalWords, scanInt w = none := by decide
  intro hmem
  rw [hall t hmem] at h
  cases h

theorem not_month_of_scan {t : Text} {n : ℤ} (h : scanInt t = some n) : memoryIsMonthToken t = false := by
  by_contra hmonth
  rw [month_scanInt (by simpa using hmonth)] at h
  cases h

theorem MonthWord.not_signal (month : MonthWord) : month.token ∉ signalWords := by
  have hall : ∀ w ∈ months, w ∉ signalWords := by decide
  exact hall _ (of_decide_eq_true month.month)

/-- A month has its number but for the misnumbered abbreviations. -/
theorem MonthWord.value_eq_iff (month : MonthWord) : month.value = memoryMonthNumber month.token ↔ month.token ∉ misnumbered := by
  have hall : ∀ w ∈ months, ((spellings.findIdx (w ∈ ·) : ℤ) + 1 = memoryMonthNumber w ↔ w ∉ misnumbered) := by decide
  exact hall _ (of_decide_eq_true month.month)

theorem YearWord.scan (year : YearWord) : scanInt year.token = some year.value := scanInt_number year.number

theorem TwoDigits.scan (n : TwoDigits) : scanInt n.token = some n.value := scanInt_number n.number

/-- No year stands behind a word that is followed by plain words. -/
theorem yearBehind_plain (w : Text) (hafter : ∀ w ∈ after, Plain w) : yearBehind (w :: after) = none := by
  cases after with
  | nil => rfl
  | cons c after => rw [yearBehind, (hafter c List.mem_cons_self).number, ite_self]

theorem head_plain (hafter : ∀ w ∈ after, Plain w) : after.head?.bind scanInt = none := by
  cases after with
  | nil => rfl
  | cons c after => exact (hafter c List.mem_cons_self).number

/-- The date that is read of a phrase makes the constraint of the query. -/
theorem matches_explicit {n : ℕ} (hbefore : ∀ w ∈ before, Plain w) (hafter : ∀ w ∈ after, Plain w)
    (htokens : ∀ t ∈ p.tokens, t ∉ signalWords)
    (hread : memoryParseDateTokensTaking (p.tokens ++ after) = some (first, n)) :
    p.Matches today norm (before ++ (p.tokens ++ after)) ↔ (p.components today).Fits first := by
  refine matches_iff_fits (parse_explicit hbefore (fun t ht => ?_) hread)
  rcases List.mem_append.1 ht with h | h
  · exact htokens t h
  · exact (hafter t h).signal

theorem matches_relative (hbefore : ∀ w ∈ before, Plain w)
    (hasked : relativeConstraintAt today (p.tokens ++ after) = some (.onDate first)) :
    p.Matches today norm (before ++ (p.tokens ++ after)) ↔ (p.components today).Fits first :=
  matches_iff_fits (parse_relative hbefore hasked)

/-- **A date phrase among plain words** makes a constraint that every date agreeing with it satisfies, and none of
another year, exactly if it is one that is understood. -/
theorem matches_iff (today : Date) (norm : Text) (p : DatePhrase) (hbefore : ∀ w ∈ before, Plain w)
    (hafter : ∀ w ∈ after, Plain w) : p.Matches today norm (before ++ (p.tokens ++ after)) ↔ p.Met := by
  cases p with
  | iso y m d =>
    have htokens : ∀ t ∈ (DatePhrase.iso y m d).tokens, t ∉ signalWords := by
      simp [DatePhrase.tokens, not_signal_of_scan y.scan, not_signal_of_scan m.scan, not_signal_of_scan d.scan]
    rw [matches_explicit hbefore hafter htokens
      (memoryParseDateTokensTaking_iso y.number m.number d.number y.length_eq m.length_eq d.length_eq)]
    exact fits_day_iff.trans (iff_of_true rfl trivial)
  | full dayFirst m d y =>
    have htokens : ∀ t ∈ (DatePhrase.full dayFirst m d y).tokens, t ∉ signalWords := by
      cases dayFirst <;> simp [DatePhrase.tokens, m.not_signal, not_signal_of_scan d.scan, not_signal_of_scan y.scan]
    have hread : memoryParseDateTokensTaking ((DatePhrase.full dayFirst m d y).tokens ++ after) =
        some (⟨y.value, memoryMonthNumber m.token, d.value, 3⟩, 3) := by
      cases dayFirst with
      | false =>
        simp only [DatePhrase.tokens, Bool.false_eq_true, if_false, List.cons_append]
        rw [memoryParseDateTokensTaking_month m.month]
        simp [d.scan, d.day, yearBehind, y.length_eq, y.scan]
      | true =>
        simp only [DatePhrase.tokens, if_true, List.cons_append]
        rw [memoryParseDateTokensTaking_dayMonth (not_month_of_scan d.scan) d.scan m.month, if_pos d.day]
        simp [yearBehind, y.length_eq, y.scan]
    rw [matches_explicit hbefore hafter htokens hread]
    exact fits_day_iff.trans m.value_eq_iff
  | monthDay dayFirst m d =>
    have htokens : ∀ t ∈ (DatePhrase.monthDay dayFirst m d).tokens, t ∉ signalWords := by
      cases dayFirst <;> simp [DatePhrase.tokens, m.not_signal, not_signal_of_scan d.scan]
    have hread : memoryParseDateTokensTaking ((DatePhrase.monthDay dayFirst m d).tokens ++ after) =
        some (⟨0, memoryMonthNumber m.token, d.value, 2⟩, 2) := by
      cases dayFirst with
      | false =>
        simp only [DatePhrase.tokens, Bool.false_eq_true, if_false, List.cons_append, List.nil_append]
        rw [memoryParseDateTokensTaking_month m.month, List.head?_cons, Option.bind_some, d.scan, yearBehind_plain _ hafter]
        exact if_pos d.day
      | true =>
        simp only [DatePhrase.tokens, if_true, List.cons_append, List.nil_append]
        rw [memoryParseDateTokensTaking_dayMonth (not_month_of_scan d.scan) d.scan m.month, yearBehind_plain _ hafter]
        exact if_pos d.day
    rw [matches_explicit hbefore hafter htokens hread]
    exact iff_of_false not_fits_yearless id
  | monthYear m y =>
    have htokens : ∀ t ∈ (DatePhrase.monthYear m y).tokens, t ∉ signalWords := by
      simp [DatePhrase.tokens, m.not_signal, not_signal_of_scan y.scan]
    -- the year is taken for a day
    have hread : ∃ n, memoryParseDateTokensTaking ((DatePhrase.monthYear m y).tokens ++ after) =
        some (⟨0, memoryMonthNumber m.token, y.value, 2⟩, n) := by
      simp only [DatePhrase.tokens, List.cons_append, List.nil_append]
      rw [memoryParseDateTokensTaking_month m.month, List.head?_cons, Option.bind_some, y.scan, yearBehind_plain _ hafter]
      simp only
      split
      · exact ⟨2, rfl⟩
      · exact ⟨1, rfl⟩
    obtain ⟨n, hread⟩ := hread
    rw [matches_explicit hbefore hafter htokens hread]
    exact fits_month_iff.trans (and_congr_right fun _ => m.value_eq_iff)
  | yearMonth y m =>
    have htokens : ∀ t ∈ (DatePhrase.yearMonth y m).tokens, t ∉ signalWords := by
      simp [DatePhrase.tokens, m.not_signal, not_signal_of_scan y.scan]
    have hread : memoryParseDateTokensTaking (y.token :: m.token :: after) = _ :=
      memoryParseDateTokensTaking_dayMonth (not_month_of_scan y.scan) y.scan m.month
    rw [yearBehind_plain _ hafter, if_pos y.length_eq] at hread
    by_cases hday : 0 < y.value ∧ y.value ≤ 31
    · rw [if_pos hday] at hread
      rw [matches_explicit hbefore hafter htokens hread]
      refine iff_of_false (fun h => ?_) (not_not_intro hday)
      have hzero := (fits_month_iff.1 h).1
      omega
    · rw [if_neg hday] at hread
      rw [matches_explicit hbefore hafter htokens hread]
      exact iff_of_true fits_year hday
  | month m =>
    have htokens : ∀ t ∈ (DatePhrase.month m).tokens, t ∉ signalWords := by simp [DatePhrase.tokens, m.not_signal]
    have hread : memoryParseDateTokensTaking (m.token :: after) = _ := memoryParseDateTokensTaking_month m.month
    rw [head_plain hafter] at hread
    rw [matches_explicit hbefore hafter htokens hread]
    exact iff_of_false not_fits_yearless id
  | year y =>
    have htokens : ∀ t ∈ (DatePhrase.year y).tokens, t ∉ signalWords := by
      simp [DatePhrase.tokens, not_signal_of_scan y.scan]
    have hnext : ∀ b ∈ after.head?, memoryIsMonthToken b = false ∧ scanInt b = none := by
      intro b hb
      have hplain := hafter b (List.mem_of_mem_head? hb)
      exact ⟨hplain.month, hplain.number⟩
    obtain ⟨day, hread⟩ := memoryParseDateTokensTaking_year y.number y.length_eq hnext
    rw [matches_explicit hbefore hafter htokens hread]
    exact iff_of_true fits_year trivial
  | today => exact (matches_relative hbefore rfl).trans (fits_day_iff.trans (iff_of_true rfl trivial))
  | yesterday => exact (matches_relative hbefore rfl).trans (fits_day_iff.trans (iff_of_true rfl trivial))
  | tomorrow => exact (matches_relative hbefore rfl).trans (fits_day_iff.trans (iff_of_true rfl trivial))
  | nearMonth next =>
    have hasked : relativeConstraintAt today ((DatePhrase.nearMonth next).tokens ++ after) =
        some (.onDate (memoryAddMonths ⟨today.year, today.month, 0, 2⟩ (nearDelta next))) := by
      cases next <;> rfl
    rw [matches_relative hbefore hasked]
    refine iff_of_false (not_fits_counted ?_) id
    cases next <;> decide
  | nearYear next =>
    have hasked : relativeConstraintAt today ((DatePhrase.nearYear next).tokens ++ after) =
        some (.onDate ⟨today.year + nearDelta next, 0, 0, 1⟩) := by
      cases next <;> rfl
    rw [matches_relative hbefore hasked]
    exact iff_of_true fits_year trivial
  | nearWeekday next w =>
    have hasked : relativeConstraintAt today ((DatePhrase.nearWeekday next w).tokens ++ after) =
        some (.onDate (.ofDate (today.shift (memoryWeekdayNumber weekdays[w] - today.weekday + nearDelta next * 7)))) := by
      fin_cases w <;> cases next <;> rfl
    rw [memoryWeekdayNumber_weekdays] at hasked
    rw [matches_relative hbefore hasked]
    exact fits_day_iff.trans (iff_of_true rfl trivial)
  | ago amount unit plural =>
    have hasked : relativeConstraintAt today ((DatePhrase.ago amount unit plural).tokens ++ after) =
        agoConstraint today (atoi amount.token) (unit.word plural) :=
      relativeConstraintAt_number amount.head amount.pos _ after
    cases unit with
    | day =>
      have hday : agoConstraint today (atoi amount.token) (AgoUnit.day.word plural) =
          some (.onDate (.ofDate (today.shift (-atoi amount.token)))) := by
        cases plural <;> rfl
      rw [matches_relative hbefore (hasked.trans hday)]
      exact fits_day_iff.trans (iff_of_true rfl trivial)
    | week =>
      have hweek : agoConstraint today (atoi amount.token) (AgoUnit.week.word plural) =
          some (.onDate (.ofDate (today.shift (-atoi amount.token * 7)))) := by
        cases plural <;> rfl
      rw [matches_relative hbefore (hasked.trans hweek)]
      exact fits_day_iff.trans (iff_of_true rfl trivial)
    | month =>
      have hmonth : agoConstraint today (atoi amount.token) (AgoUnit.month.word plural) =
          some (.onDate (memoryAddMonths ⟨today.year, today.month, 0, 2⟩ (-atoi amount.token))) := by
        cases plural <;> rfl
      rw [matches_relative hbefore (hasked.trans hmonth)]
      have hpos := amount.pos
      exact iff_of_false (not_fits_counted (by omega)) id

def year2024 : YearWord := ⟨text "2024", ⟨by decide, by decide⟩, rfl⟩

def june2024 : DatePhrase := .monthYear ⟨text "june", by decide⟩ year2024

/-- "june 2024" is read as a June without a year: the 15th of June 2024 is penalised. -/
theorem june_2024_misses :
    (june2024.components friday).Agrees ⟨2024, 6, 15, 3⟩ ∧
      memoryParseTemporalConstraint friday (text "june 2024") june2024.tokens = some (.onDate ⟨0, 6, 2024, 2⟩) ∧
      memoryTemporalConstraintScore (.onDate ⟨0, 6, 2024, 2⟩) ⟨2024, 6, 15, 3⟩ = -28 / 100 := by
  refine ⟨⟨?_, ?_, fun _ h => (nomatch h)⟩, by decide, by decide +kernel⟩
  · exact fun _ h => Option.some.inj (h ▸ by decide)
  · exact fun _ h => Option.some.inj (h ▸ by decide)

/-- "on 5 december 2024" is understood. -/
theorem december_2024_matches :
    (DatePhrase.full true ⟨text "december", by decide⟩ ⟨text "5", 5, by decide, by decide⟩ year2024).Matches friday
      (text "on 5 december 2024") [text "on", text "5", text "december", text "2024"] := by
  have hplain : ∀ w ∈ [text "on"], Plain w := by
    intro w hw
    obtain rfl := List.mem_singleton.1 hw
    exact ⟨by decide, by decide, by decide⟩
  have hknown : text "december" ∉ misnumbered := by decide
  exact (matches_iff friday (text "on 5 december 2024") _ hplain (List.forall_mem_nil _)).2 hknown

end AimeeMemory.Recall
