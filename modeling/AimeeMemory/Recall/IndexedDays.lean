import AimeeMemory.Recall.DateConstraints

/-!
# The days of the index

The days that `memory_refresh_temporal_refs` hands to `memory_temporal_insert`: are they days
of the calendar, and does `memory_parse_temporal_ref_date` read the same day from the row that
is stored? Days are counted from the creation date by the calendar, or back by months to a
day that each month has; but a month and a number in the text are a day of the creation year
without more ado.

## What is proved

* **`indexedDays_real_iff`**: the days of a memory are real and read back exactly where each
  month in the content has the day behind it in the creation year, and no year leaves the
  four digits.
* `february_31`: a day that is not in the calendar.

## Honest scope

That of `AimeeMemory.Recall.RelativeDates`.
-/

namespace AimeeMemory.Recall

open AimeeMemory.Core AimeeMemory.Lib

variable {normalizeKey : Text → Text} {d : Date}

/-- The days among the rows. -/
def absoluteDays (refs : List TemporalRef) : List TemporalRef := refs.filter (·.granularity = .absoluteDay)

/-- The refs that `memory_refresh_temporal_refs` inserts. -/
def insertedRefs (normalizeKey : Text → Text) (created : Option Date) (key content : Text) : List TemporalRef :=
  (memorySplitTokens (normalizeKey key) 24).flatMap temporalRefsOfKey ++
    (memorySplitTokens (normalizeKey content) 24).tails.flatMap (temporalRefsAt created)

theorem memoryRefreshTemporalRefs_eq (created : Option Date) (key content : Text) :
    memoryRefreshTemporalRefs normalizeKey created key content =
      (insertedRefs normalizeKey created key content).filterMap (memoryTemporalInsert normalizeKey) := rfl

/-- The month of a day, where the tokens begin with one: what `memory_refresh_temporal_refs` puts a
number for. -/
def datedMonthAt : List Text → Option Text
  | month :: day :: _ => if memoryIsMonthToken month ∧ day.length ≤ 4 ∧ 0 < atoi day ∧ atoi day ≤ 31 then some month else none
  | _ => none

/-- A ref is a day of the calendar, and this day is read from the row that is stored for it. -/
def RoundTrips (normalizeKey : Text → Text) (raw : TemporalRef) : Prop :=
  ∃ date : Date, raw.refKey = memoryFormatDate date.year date.month date.day ∧
    ∃ ref, memoryTemporalInsert normalizeKey raw = some ref ∧ memoryParseTemporalRefDate normalizeKey ref = some (.ofDate date)

/-- The year of a day number has at most four digits, and no sign. -/
def FourDigits (dayNumber : ℤ) : Prop := Date.beforeYear 0 < dayNumber ∧ dayNumber ≤ Date.beforeYear 10000

/-- What a phrase indexes in a memory of the date `d` has a year of four digits. -/
def Phrase.Lands (d : Date) : Phrase → Prop
  | .today => FourDigits d.dayNumber
  | .yesterday => FourDigits (d.dayNumber - 1)
  | .tomorrow => FourDigits (d.dayNumber + 1)
  | .lastWeek => FourDigits (d.dayNumber - 7)
  | .lastMonth => 0 ≤ d.year * 12 + (d.month - 1) - 1 ∧ d.year * 12 + (d.month - 1) - 1 < 120000
  | .lastYear => True
  | .lastWeekday w => FourDigits (d.dayNumber - daysSince d.weekday w)
  | .ago amount .day _ => FourDigits (d.dayNumber - atoi amount.token)
  | .ago amount .week _ => FourDigits (d.dayNumber - atoi amount.token * 7)
  | .ago amount .month _ =>
    0 ≤ d.year * 12 + (d.month - 1) - atoi amount.token ∧ d.year * 12 + (d.month - 1) - atoi amount.token < 120000

/-- Every month in the text has the day behind it, in the creation year, and every phrase a year of four digits. -/
structure DaysReal (d : Date) (tokens : List Text) : Prop where
  months : ∀ month day, [month, day] <:+: tokens → memoryIsMonthToken month → day.length ≤ 4 → 0 < atoi day → atoi day ≤ 31 →
    0 ≤ d.year ∧ d.year < 10000 ∧ atoi day ≤ monthLength d.year (memoryMonthNumber month)
  phrases : ∀ p : Phrase, p.tokens <:+: tokens → p.Lands d

/-! ## The days of a content -/

/-- A month is indexed as a day where a day stands behind it. -/
theorem absoluteDays_month {tok : Text} {rest : List Text} (h : memoryIsMonthToken tok) :
    absoluteDays (temporalRefsAt (some d) (tok :: rest)) =
      match datedMonthAt (tok :: rest), rest with
      | some month, day :: _ => [⟨memoryFormatDate d.year (memoryMonthNumber month) (atoi day), .absoluteDay, 28 / 10⟩]
      | _, _ => [] := by
  have hrelative : tok ∉ ["today", "yesterday", "tomorrow", "tonight", "morning", "afternoon", "evening"].map text := by
    have hall : ∀ w ∈ months,
        w ∉ ["today", "yesterday", "tomorrow", "tonight", "morning", "afternoon", "evening"].map text := by decide
    exact hall tok (of_decide_eq_true h)
  have hpos : 0 < memoryMonthNumber tok := by
    have := month_number h
    omega
  rw [temporalRefsAt.eq_def]
  simp only
  rw [if_neg hrelative, if_pos h]
  cases rest with
  | nil => rfl
  | cons day rest =>
    simp only [datedMonthAt, h, true_and, hpos]
    by_cases hshort : day.length ≤ 4
    · by_cases hday : 0 < atoi day ∧ atoi day ≤ 31
      · simp [absoluteDays, hshort, hday]
      · simp [absoluteDays, hshort, hday]
    · simp [absoluteDays, hshort]

theorem absoluteDays_undated (ts : List Text) : absoluteDays (temporalRefsAt none ts) = [] := by
  cases ts with
  | nil => rfl
  | cons tok rest =>
    rw [temporalRefsAt.eq_def, absoluteDays]
    simp only
    split
    · rfl
    · split
      · cases rest <;> simp [apply_ite (List.filter _)]
      · split
        · rfl
        · split
          · rfl
          · split
            · cases rest <;> simp [apply_ite (List.filter _)]
            · rfl

theorem absoluteDays_insertedRefs (created : Option Date) (key content : Text) :
    absoluteDays (insertedRefs normalizeKey created key content) =
      (memorySplitTokens (normalizeKey content) 24).tails.flatMap fun ts => absoluteDays (temporalRefsAt created ts) := by
  have hkey : absoluteDays ((memorySplitTokens (normalizeKey key) 24).flatMap temporalRefsOfKey) = [] := by
    rw [absoluteDays, List.filter_flatMap, List.flatMap_eq_nil_iff]
    intro tok _
    rw [temporalRefsOfKey]
    split_ifs <;> rfl
  rw [absoluteDays] at hkey
  rw [insertedRefs, absoluteDays, List.filter_append, hkey, List.nil_append, List.filter_flatMap]
  rfl

/-- The days that are stored are those of the content, if the day of creation is known. -/
theorem absoluteDays_memoryRefreshTemporalRefs (created : Option Date) (key content : Text) :
    absoluteDays (memoryRefreshTemporalRefs normalizeKey created key content) =
      (memorySplitTokens (normalizeKey content) 24).tails.flatMap fun ts =>
        (absoluteDays (temporalRefsAt created ts)).filterMap (memoryTemporalInsert normalizeKey) := by
  have hkeep : ∀ refs : List TemporalRef, absoluteDays (refs.filterMap (memoryTemporalInsert normalizeKey)) =
      (absoluteDays refs).filterMap (memoryTemporalInsert normalizeKey) :=
    filter_filterMap_insert fun _ _ => rfl
  rw [memoryRefreshTemporalRefs_eq, hkeep, absoluteDays_insertedRefs, List.filterMap_flatMap]

/-! ## One day -/

theorem fourDigits_iff (e : Date) : FourDigits e.dayNumber ↔ 0 ≤ e.year ∧ e.year < 10000 := by
  have hlo := Date.year_lt_iff (d := e) (y := 0)
  have hhi := Date.year_lt_iff (d := e) (y := 10000)
  rw [FourDigits]
  omega

/-- A formatted date begins with a hyphen before the year 0. -/
theorem head?_memoryFormatDate (year : ℤ) {month day : ℤ} (hmonth : 0 ≤ month) (hday : 0 ≤ day) :
    (memoryFormatDate year month day).head? = some 45 ↔ year < 0 := by
  rw [memoryFormatDate_eq year month day hmonth hday]
  split
  · rename_i hneg
    exact iff_of_true rfl hneg
  · rename_i hnonneg
    refine iff_of_false ?_ hnonneg
    have hdigit := head_isdigit (isNumber_yearWord year)
    obtain ⟨c, cs, hword⟩ := List.exists_cons_of_ne_nil (isNumber_yearWord year).1
    rw [hword] at hdigit
    rw [hword, List.nil_append, List.intercalate_cons_cons_left, List.head?_cons, Option.some.injEq]
    rintro rfl
    exact absurd hdigit (show ¬ isdigit 45 = true by decide)

/-- A formatted date is a day of the calendar that is read back exactly if its month has its day, and its year is
one of at most four digits. -/
theorem roundTrips_iff (hnorm : NormalizesDates normalizeKey) {year month day : ℤ} (hmonth : 1 ≤ month ∧ month ≤ 12)
    (hday : 1 ≤ day ∧ day ≤ 31) (weight : ℚ) :
    RoundTrips normalizeKey ⟨memoryFormatDate year month day, .absoluteDay, weight⟩ ↔
      0 ≤ year ∧ year < 10000 ∧ day ≤ monthLength year month := by
  have hm : 0 ≤ month ∧ month < 100 := by omega
  have hd : 0 ≤ day ∧ day < 100 := by omega
  rw [RoundTrips]
  simp only [memoryTemporalInsert_date hnorm hm.1 hd.1, Option.some.injEq, exists_eq_left',
    memoryParseTemporalRefDate_stored hnorm hm hd]
  constructor
  · rintro ⟨date, hformat, hparse⟩
    split at hparse
    · rename_i h4
      rw [Option.some.injEq, ParsedDate.ofDate, ParsedDate.mk.injEq] at hparse
      obtain ⟨hyear, rfl, rfl, -⟩ := hparse
      have hsign := head?_memoryFormatDate year hm.1 hd.1
      rw [hformat, head?_memoryFormatDate date.year hm.1 hd.1] at hsign
      rw [length_yearWord_eq_iff] at h4
      have hsame : date.year = year := by omega
      have hreal := date.day_mem
      rw [hsame] at hreal
      omega
    · cases hparse
  · rintro ⟨h0, hlt, hreal⟩
    refine ⟨⟨year, month, day, hmonth, hday.1, hreal⟩, rfl, ?_⟩
    rw [if_pos ((length_yearWord_eq_iff year).2 (.inl ⟨h0, hlt⟩)), Int.natAbs_of_nonneg h0]
    rfl

/-- A day of the calendar is read back exactly if its year has at most four digits. -/
theorem roundTrips_onDay_iff (hnorm : NormalizesDates normalizeKey) (e : Date) (weight : ℚ) :
    RoundTrips normalizeKey (.onDay e weight) ↔ FourDigits e.dayNumber := by
  have hday := e.day_mem
  have hlength := monthLength_le e.year e.month
  rw [TemporalRef.onDay, roundTrips_iff hnorm e.month_mem ⟨hday.1, by omega⟩, fourDigits_iff]
  omega

/-! ## One month, one phrase -/

theorem datedMonthAt_eq_some {ts : List Text} {month : Text} (h : datedMonthAt ts = some month) :
    ∃ day rest, ts = month :: day :: rest ∧ memoryIsMonthToken month ∧ day.length ≤ 4 ∧ 0 < atoi day ∧ atoi day ≤ 31 := by
  match ts with
  | [] => cases h
  | [_] => cases h
  | m :: day :: rest =>
    rw [datedMonthAt] at h
    split at h
    · cases h
      exact ⟨day, rest, rfl, ‹_›⟩
    · cases h

/-- The day behind a month is real and read back exactly if the month has it in the creation year. -/
theorem month_roundTrips_iff (hnorm : NormalizesDates normalizeKey) {month day : Text} (rest : List Text)
    (hmonth : memoryIsMonthToken month) (hshort : day.length ≤ 4) (hpos : 0 < atoi day) (hle : atoi day ≤ 31) :
    (∀ raw ∈ absoluteDays (temporalRefsAt (some d) (month :: day :: rest)), RoundTrips normalizeKey raw) ↔
      0 ≤ d.year ∧ d.year < 10000 ∧ atoi day ≤ monthLength d.year (memoryMonthNumber month) := by
  have hdated : datedMonthAt (month :: day :: rest) = some month := if_pos ⟨hmonth, hshort, hpos, hle⟩
  rw [absoluteDays_month hmonth, hdated]
  simp only
  rw [List.forall_mem_singleton, roundTrips_iff hnorm (month_number hmonth) ⟨hpos, hle⟩]

/-- The day that a phrase indexes is real and read back exactly if its year has at most four digits. -/
theorem phrase_roundTrips_iff (hnorm : NormalizesDates normalizeKey) (p : Phrase) (after : List Text) :
    (∀ raw ∈ absoluteDays (temporalRefsAt (some d) (p.tokens ++ after)), RoundTrips normalizeKey raw) ↔ p.Lands d := by
  have hone : ∀ {e : Date} {weight : ℚ}, absoluteDays (temporalRefsAt (some d) (p.tokens ++ after)) = [.onDay e weight] →
      ((∀ raw ∈ absoluteDays (temporalRefsAt (some d) (p.tokens ++ after)), RoundTrips normalizeKey raw) ↔
        FourDigits e.dayNumber) := by
    intro e weight hdays
    rw [hdays, List.forall_mem_singleton, roundTrips_onDay_iff hnorm]
  cases p with
  | today => exact hone rfl
  | yesterday => exact (hone rfl).trans (by rw [Date.dayNumber_shift]; rfl)
  | tomorrow => exact (hone rfl).trans (by rw [Date.dayNumber_shift]; rfl)
  | lastWeek => exact (hone rfl).trans (by rw [Date.dayNumber_shift]; rfl)
  | lastMonth =>
    have hmonth := d.month_mem
    obtain ⟨year, month, hbefore, hlast⟩ := exists_lastMonth d
    have hdays : absoluteDays (temporalRefsAt (some d) (Phrase.lastMonth.tokens ++ after)) =
        [⟨memoryFormatDate year month 1, .absoluteDay, 2⟩] := by
      rw [hlast]
      rfl
    have hm : 1 ≤ month ∧ month ≤ 12 := by omega
    have hyear : 0 ≤ year ∧ year < 10000 ↔ Phrase.lastMonth.Lands d := by
      rw [Phrase.Lands]
      omega
    have hlength := le_monthLength year month
    rw [hdays, List.forall_mem_singleton, roundTrips_iff hnorm hm (by omega), ← hyear]
    omega
  | lastYear =>
    refine iff_of_true ?_ trivial
    intro raw hraw
    cases hraw
  | lastWeekday w =>
    have hdays : absoluteDays (temporalRefsAt (some d) ((Phrase.lastWeekday w).tokens ++ after)) =
        [.onDay (d.shift (-daysSince d.weekday (memoryWeekdayNumber weekdays[w]))) (24 / 10)] := by
      fin_cases w <;> rfl
    rw [hone hdays, Date.dayNumber_shift, memoryWeekdayNumber_weekdays]
    rfl
  | ago amount unit plural =>
    cases unit with
    | day =>
      have hdays : absoluteDays (temporalRefsAt (some d) ((Phrase.ago amount .day plural).tokens ++ after)) =
          [.onDay (d.shift (-atoi amount.token)) (25 / 10)] := by
        rw [temporalRefsAt_ago]
        cases plural <;> rfl
      rw [hone hdays, Date.dayNumber_shift]
      rfl
    | week =>
      have hdays : absoluteDays (temporalRefsAt (some d) ((Phrase.ago amount .week plural).tokens ++ after)) =
          [.onDay (d.shift (-(atoi amount.token * 7))) (24 / 10)] := by
        rw [temporalRefsAt_ago]
        cases plural <;> rfl
      rw [hone hdays, Date.dayNumber_shift]
      rfl
    | month =>
      have hday := d.day_mem
      let monthIndex := d.year * 12 + (d.month - 1) - atoi amount.token
      have hdays : absoluteDays (temporalRefsAt (some d) ((Phrase.ago amount .month plural).tokens ++ after)) =
          [⟨memoryFormatDate (monthIndex / 12) (monthIndex % 12 + 1) (if d.day > 28 then 28 else d.day), .absoluteDay, 24 / 10⟩] := by
        rw [temporalRefsAt_ago]
        cases plural <;> rfl
      have hm : 1 ≤ monthIndex % 12 + 1 ∧ monthIndex % 12 + 1 ≤ 12 := by omega
      -- no month is shorter than 28 days
      have hlength := le_monthLength (monthIndex / 12) (monthIndex % 12 + 1)
      have hd : 1 ≤ (if d.day > 28 then 28 else d.day) ∧ (if d.day > 28 then 28 else d.day) ≤ 28 := by split <;> omega
      rw [hdays, List.forall_mem_singleton, roundTrips_iff hnorm hm (by omega), Phrase.Lands]
      omega

theorem lastRefs_source (next : Text) : absoluteDays (lastRefs d next) = [] ∨ ∃ p : Phrase, p.tokens = [text "last", next] := by
  by_cases hweek : next = text "week"
  · exact .inr ⟨.lastWeek, by rw [hweek]; rfl⟩
  · by_cases hmonth : next = text "month"
    · exact .inr ⟨.lastMonth, by rw [hmonth]; rfl⟩
    · by_cases hyear : next = text "year"
      · exact .inr ⟨.lastYear, by rw [hyear]; rfl⟩
      · rw [lastRefs, if_neg hweek, if_neg hmonth, if_neg hyear]
        split
        · rename_i hweekday
          obtain ⟨w, hw, hnext⟩ := List.mem_iff_getElem.1 (of_decide_eq_true hweekday)
          exact .inr ⟨.lastWeekday ⟨w, hw⟩, by rw [← hnext]; rfl⟩
        · exact .inl rfl

theorem agoRefs_source (n : ℤ) (unit : Text) :
    absoluteDays (agoRefs d n unit) = [] ∨ ∃ (u : AgoUnit) (plural : Bool), u.word plural = unit := by
  rw [agoRefs]
  split
  · rename_i hday
    exact .inr (hday.elim (fun h => ⟨.day, true, h.symm⟩) fun h => ⟨.day, false, h.symm⟩)
  · split
    · rename_i hweek
      exact .inr (hweek.elim (fun h => ⟨.week, true, h.symm⟩) fun h => ⟨.week, false, h.symm⟩)
    · split
      · rename_i hmonth
        exact .inr (hmonth.elim (fun h => ⟨.month, true, h.symm⟩) fun h => ⟨.month, false, h.symm⟩)
      · exact .inl rfl

/-- A day comes from a month with a day behind it, or from a phrase. -/
theorem day_source (ts : List Text) :
    absoluteDays (temporalRefsAt (some d) ts) = [] ∨ (∃ month, datedMonthAt ts = some month) ∨ ∃ p : Phrase, p.tokens <+: ts := by
  cases ts with
  | nil => exact .inl rfl
  | cons tok rest =>
    cases hmonth : memoryIsMonthToken tok with
    | true =>
      rw [absoluteDays_month hmonth]
      cases hdated : datedMonthAt (tok :: rest) with
      | none => exact .inl rfl
      | some month => exact .inr (.inl ⟨month, rfl⟩)
    | false =>
      rw [temporalRefsAt.eq_def]
      simp only
      rw [hmonth, if_neg Bool.false_ne_true]
      split
      · by_cases htoday : tok = text "today"
        · exact .inr (.inr ⟨.today, rest, by rw [htoday]; rfl⟩)
        · by_cases hyesterday : tok = text "yesterday"
          · exact .inr (.inr ⟨.yesterday, rest, by rw [hyesterday]; rfl⟩)
          · by_cases htomorrow : tok = text "tomorrow"
            · exact .inr (.inr ⟨.tomorrow, rest, by rw [htomorrow]; rfl⟩)
            · rw [if_neg htoday, if_neg hyesterday, if_neg htomorrow]
              exact .inl rfl
      · split
        · exact .inl rfl
        · split
          · exact .inl rfl
          · rename_i hyear
            split
            · -- behind "last", or an order, which is no day
              have hordering : ∀ next : Text, absoluteDays (if tok ∈ ["before", "after", "during"].map text then
                  [⟨tok ++ text ":" ++ next, .ordering, 18 / 10⟩] else []) = [] := by
                intro next
                split <;> rfl
              have happend : ∀ refs refs' : List TemporalRef,
                  absoluteDays (⟨tok, .relative, 12 / 10⟩ :: (refs ++ refs')) = absoluteDays refs ++ absoluteDays refs' := by
                intro refs refs'
                simp [absoluteDays]
              cases rest with
              | nil => exact .inl rfl
              | cons next rest =>
                simp only
                by_cases hlast : tok = text "last"
                · rcases lastRefs_source (d := d) next with hnone | ⟨p, hp⟩
                  · refine .inl ?_
                    rw [happend, if_pos hlast, hnone, hordering, List.nil_append]
                  · exact .inr (.inr ⟨p, rest, by rw [hp, hlast]; rfl⟩)
                · refine .inl ?_
                  rw [happend, if_neg hlast, hordering]
                  rfl
            · match rest with
              | [] => exact .inl rfl
              | [_] => exact .inl rfl
              | unit :: ago :: rest =>
                simp only
                split
                · rename_i hago
                  obtain ⟨rfl, hhead, -⟩ := hago
                  refine (agoRefs_source (atoi tok) unit).imp id fun ⟨u, plural, hunit⟩ => .inr ?_
                  exact ⟨.ago ⟨tok, hhead, by simpa using hyear⟩ u plural, rest, by rw [← hunit]; rfl⟩
                · exact .inl rfl

/-! ## The days of a memory -/

/-- **The days that a memory is indexed by** are days of the calendar, which are read back from the index, exactly if
its creation day is not known or the content has real days: every month has the day behind it, in the creation year,
and no year leaves the four digits. -/
theorem indexedDays_real_iff (hnorm : NormalizesDates normalizeKey) (created : Option Date) (key content : Text) :
    (∀ raw ∈ absoluteDays (insertedRefs normalizeKey created key content), RoundTrips normalizeKey raw) ↔
      ∀ d, created = some d → DaysReal d (memorySplitTokens (normalizeKey content) 24) := by
  rw [absoluteDays_insertedRefs]
  simp only [List.mem_flatMap, List.mem_tails, forall_exists_index, and_imp]
  cases created with
  | none =>
    refine iff_of_true ?_ fun d hd => nomatch hd
    intro raw ts _ hraw
    rw [absoluteDays_undated] at hraw
    cases hraw
  | some d =>
    constructor
    · rintro h _ hd
      cases hd
      constructor
      · intro month day hwithin hmonth hshort hpos hle
        obtain ⟨ts, ⟨rest, rfl⟩, hsuffix⟩ := List.infix_iff_prefix_suffix.1 hwithin
        exact (month_roundTrips_iff hnorm rest hmonth hshort hpos hle).1 fun raw hraw => h raw _ hsuffix hraw
      · intro p hwithin
        obtain ⟨ts, ⟨after, rfl⟩, hsuffix⟩ := List.infix_iff_prefix_suffix.1 hwithin
        exact (phrase_roundTrips_iff hnorm p after).1 fun raw hraw => h raw _ hsuffix hraw
    · intro h raw ts hsuffix hraw
      have hreal := h d rfl
      rcases day_source (d := d) ts with hnone | ⟨month, hdated⟩ | ⟨p, after, rfl⟩
      · rw [hnone] at hraw
        cases hraw
      · obtain ⟨day, rest, rfl, hmonth, hshort, hpos, hle⟩ := datedMonthAt_eq_some hdated
        have hwithin : [month, day] <:+: memorySplitTokens (normalizeKey content) 24 :=
          List.infix_iff_prefix_suffix.2 ⟨_, ⟨rest, rfl⟩, hsuffix⟩
        have hin := hreal.months month day hwithin hmonth hshort hpos hle
        exact (month_roundTrips_iff hnorm rest hmonth hshort hpos hle).2 hin raw hraw
      · have hlands := hreal.phrases p (List.infix_iff_prefix_suffix.2 ⟨_, List.prefix_append _ _, hsuffix⟩)
        exact (phrase_roundTrips_iff hnorm p after).2 hlands raw hraw

/-- In a memory of the 10th of May 2024, "february 31" is indexed as the 31st of February. -/
theorem february_31 :
    NormalizesDates hyphensToBlanks ∧
      ⟨text "2024-02-31", .absoluteDay, 28 / 10⟩ ∈
        absoluteDays (insertedRefs hyphensToBlanks (some friday) [] (text "february 31")) ∧
      ¬ RoundTrips hyphensToBlanks ⟨text "2024-02-31", .absoluteDay, 28 / 10⟩ := by
  refine ⟨hyphensToBlanks_normalizes, by decide +kernel, ?_⟩
  have hformat : text "2024-02-31" = memoryFormatDate 2024 2 31 := by decide +kernel
  rw [hformat, roundTrips_iff hyphensToBlanks_normalizes (by decide) (by decide)]
  decide

/-- The 29th of February is a day of that year. -/
theorem february_29 :
    (absoluteDays (insertedRefs hyphensToBlanks (some friday) [] (text "february 29"))).map (·.refKey) = [text "2024-02-29"] ∧
      ∀ raw ∈ absoluteDays (insertedRefs hyphensToBlanks (some friday) [] (text "february 29")), RoundTrips hyphensToBlanks raw := by
  refine ⟨by decide +kernel, (indexedDays_real_iff hyphensToBlanks_normalizes (some friday) [] (text "february 29")).2 fun d hd => ?_⟩
  cases hd
  have htokens : memorySplitTokens (hyphensToBlanks (text "february 29")) 24 = [text "february", text "29"] := by decide
  rw [htokens]
  constructor
  · intro month day hwithin _ _ _ _
    obtain ⟨rfl, rfl, -⟩ : month = text "february" ∧ day = text "29" ∧ True := by
      simpa using hwithin.eq_of_length rfl
    decide
  · intro p hwithin
    have hhead : ∀ tok ∈ p.tokens, tok ∈ [text "february", text "29"] := fun tok htok => hwithin.subset htok
    cases p with
    | ago amount unit plural => exact absurd hwithin.length_le (by simp [Phrase.tokens])
    | lastWeekday w => exact absurd (hhead (text "last") List.mem_cons_self) (by decide)
    | _ => exact absurd (hhead _ List.mem_cons_self) (by decide)

end AimeeMemory.Recall
