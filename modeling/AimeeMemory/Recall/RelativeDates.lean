import AimeeMemory.Lib.Calendar
import AimeeMemory.Lib.Decimal
import AimeeMemory.Core.Gate
import Mathlib.Algebra.Order.Ring.Rat
import Mathlib.Tactic.FinCases
import Mathlib.Tactic.NormNum

/-!
# Relative dates

`memory_refresh_temporal_refs` of `memory_core_helpers_b.c`, which indexes the dates that a
memory speaks of, and `memory_parse_relative_temporal_constraint` of `memory_core_search.c`,
which makes a constraint of the dates that a query speaks of. Both resolve "yesterday",
"last Friday" or "3 months ago", the one from the day the memory was created, the other from
today. `memory_temporal_constraint_score` compares an indexed date with a constraint.

## What is proved

* **`agreesOn_iff`**: for each phrase and day, what a memory created on that day indexes
  satisfies the constraint of a query on that day exactly when the condition
  `Phrase.Coincides` holds: not where a weekday is asked for that came earlier in the week
  (from Sunday), nor for months on any day but the first.
* `lastMonday_misses`: on a Friday, "last Monday" is four days back in the index and eleven
  in the query.

## Honest scope

`normalize_key` is a parameter; what is assumed of it is that it leaves the digits of a date
and puts blanks for the hyphens. Numbers fit an `int`, keys their buffers. `mktime`, which
`memory_refresh_temporal_refs` calls for the weekday, leaves the day as it is, which it does
in UTC.
-/

namespace AimeeMemory.Recall

open AimeeMemory.Core AimeeMemory.Lib

/-! ## Tokens -/

/-- `memory_split_tokens`. -/
def memorySplitTokens (norm : Text) (maxTokens : ℕ) : List Text :=
  (((norm.splitOn 32).filter (· ≠ [])).map (·.take 63)).take maxTokens

/-- `sscanf` with `%d`: blanks, a sign and digits. -/
def scanInt (tok : Text) : Option ℤ :=
  let (negative, digits) : Bool × Text :=
    match tok.dropWhile isspace with
    | 45 :: rest => (true, rest.takeWhile isdigit)
    | 43 :: rest => (false, rest.takeWhile isdigit)
    | rest => (false, rest.takeWhile isdigit)
  if digits = [] then none else some (if negative then -readDigits digits else readDigits digits)

def atoi (tok : Text) : ℤ := (scanInt tok).getD 0

def months : List Text :=
  ["january", "february", "march", "april", "may", "june", "july", "august", "september", "october", "november",
    "december", "jan", "feb", "mar", "apr", "jun", "jul", "aug", "sep", "sept", "oct", "nov", "dec"].map text

def weekdays : List Text :=
  ["sunday", "monday", "tuesday", "wednesday", "thursday", "friday", "saturday"].map text

/-- `memory_is_month_token`. -/
def memoryIsMonthToken (tok : Text) : Bool := tok ∈ months

/-- `memory_month_number`. -/
def memoryMonthNumber (tok : Text) : ℤ :=
  let i := months.idxOf tok
  if i < 12 then i + 1 else if i < months.length then i - 11 else 0

/-- `memory_is_weekday_token`. -/
def memoryIsWeekdayToken (tok : Text) : Bool := tok ∈ weekdays

/-- `memory_weekday_number`, of a weekday: from Sunday. -/
def memoryWeekdayNumber (tok : Text) : ℤ := weekdays.idxOf tok

/-- Four digits. -/
def isYearToken (tok : Text) : Bool := tok.length = 4 ∧ tok.all isdigit

/-- A number by `%0wd`: the sign counts for the width. -/
def formatInt (width : ℕ) (z : ℤ) : Text :=
  if z < 0 then text "-" ++ padded (width - 1) z.natAbs else padded width z.natAbs

/-- `memory_format_date`. -/
def memoryFormatDate (year month day : ℤ) : Text :=
  formatInt 4 year ++ text "-" ++ formatInt 2 month ++ text "-" ++ formatInt 2 day

/-! ## What a memory indexes -/

inductive RefGranularity where
  | month
  | weekday
  | year
  | relative
  | absoluteDay
  | datePhrase
  | relativePhrase
  | ordering
  | range
  deriving DecidableEq, Repr

structure TemporalRef where
  refKey : Text
  granularity : RefGranularity
  weight : ℚ
  deriving DecidableEq, Repr

/-- `memory_temporal_insert`: the row that is stored. -/
def memoryTemporalInsert (normalizeKey : Text → Text) (ref : TemporalRef) : Option TemporalRef :=
  let norm := normalizeKey ref.refKey
  if norm = [] then none else some { ref with refKey := norm }

/-- A day that is indexed, from a date. -/
def TemporalRef.onDay (d : Date) (weight : ℚ) : TemporalRef := ⟨memoryFormatDate d.year d.month d.day, .absoluteDay, weight⟩

/-- The weekday from Monday, as the index counts. -/
def fromMonday (weekday : ℤ) : ℤ := if weekday = 0 then 6 else weekday - 1

/-- How many days ago a weekday was last, from another one: the whole week where they are the same. -/
def daysSince (current target : ℤ) : ℤ :=
  let delta := fromMonday current - fromMonday target
  if delta ≤ 0 then delta + 7 else delta

/-- What stands behind "last", in a memory of the date `d`. -/
def lastRefs (d : Date) (tok : Text) : List TemporalRef :=
  if tok = text "week" then [.onDay (d.shift (-7)) (22 / 10), ⟨text "last:week", .relativePhrase, 2⟩]
  else if tok = text "month" then
    [⟨text "last:month", .relativePhrase, 2⟩,
      ⟨if d.month - 1 < 1 then memoryFormatDate (d.year - 1) 12 1 else memoryFormatDate d.year (d.month - 1) 1,
        .absoluteDay, 2⟩]
  else if tok = text "year" then
    [⟨text "last:year", .relativePhrase, 2⟩, ⟨formatInt 4 (d.year - 1), .year, 22 / 10⟩]
  else if memoryIsWeekdayToken tok then
    [.onDay (d.shift (-daysSince d.weekday (memoryWeekdayNumber tok))) (24 / 10)]
  else []

/-- `n` units ago, in a memory of the date `d`. -/
def agoRefs (d : Date) (n : ℤ) (tok : Text) : List TemporalRef :=
  if tok = text "days" ∨ tok = text "day" then [.onDay (d.shift (-n)) (25 / 10), ⟨text "ago", .relative, 1⟩]
  else if tok = text "weeks" ∨ tok = text "week" then
    [.onDay (d.shift (-(n * 7))) (24 / 10), ⟨text "ago", .relative, 1⟩]
  else if tok = text "months" ∨ tok = text "month" then
    -- twelve is added to the month, and a year taken off, until it is positive
    let monthIndex := d.year * 12 + (d.month - 1) - n
    [⟨memoryFormatDate (monthIndex / 12) (monthIndex % 12 + 1) (if d.day > 28 then 28 else d.day), .absoluteDay, 24 / 10⟩,
      ⟨text "ago", .relative, 1⟩]
  else []

/-- A turn of the loop of `memory_refresh_temporal_refs` over the content: the first of the tokens,
with those behind it. The test for "between" is never reached. -/
def temporalRefsAt (created : Option Date) : List Text → List TemporalRef
  | [] => []
  | tok :: rest =>
    if tok ∈ ["today", "yesterday", "tomorrow", "tonight", "morning", "afternoon", "evening"].map text then
      ⟨tok, .relative, 18 / 10⟩ ::
        match created with
        | some d =>
          if tok = text "today" then [.onDay d (26 / 10)]
          else if tok = text "yesterday" then [.onDay (d.shift (-1)) (26 / 10)]
          else if tok = text "tomorrow" then [.onDay (d.shift 1) (26 / 10)]
          else []
        | none => []
    else if memoryIsMonthToken tok then
      ⟨tok, .month, 2⟩ ::
        match rest with
        | next :: _ =>
          if next.length ≤ 4 then
            ⟨tok ++ text " " ++ next, .datePhrase, 23 / 10⟩ ::
              match created with
              | some d =>
                if 0 < memoryMonthNumber tok ∧ 0 < atoi next ∧ atoi next ≤ 31 then
                  [⟨memoryFormatDate d.year (memoryMonthNumber tok) (atoi next), .absoluteDay, 28 / 10⟩]
                else []
              | none => []
          else []
        | [] => []
    else if memoryIsWeekdayToken tok then [⟨tok, .weekday, 17 / 10⟩]
    else if isYearToken tok then [⟨tok, .year, 22 / 10⟩]
    else if tok ∈ ["before", "after", "during", "first", "last", "recently"].map text then
      ⟨tok, .relative, 12 / 10⟩ ::
        ((match created, rest with
          | some d, next :: _ => if tok = text "last" then lastRefs d next else []
          | _, _ => []) ++
        match rest with
        | next :: _ =>
          if tok ∈ ["before", "after", "during"].map text then [⟨tok ++ text ":" ++ next, .ordering, 18 / 10⟩] else []
        | [] => [])
    else
      match created, rest with
      | some d, unit :: ago :: _ =>
        if ago = text "ago" ∧ tok.head?.any (fun c => 49 ≤ c ∧ c ≤ 57) ∧ 0 < atoi tok then agoRefs d (atoi tok) unit
        else []
      | _, _ => []

/-- A turn of the loop over the key. -/
def temporalRefsOfKey (tok : Text) : List TemporalRef :=
  if memoryIsMonthToken tok then [⟨tok, .month, 18 / 10⟩]
  else if memoryIsWeekdayToken tok then [⟨tok, .weekday, 15 / 10⟩]
  else if isYearToken tok then [⟨tok, .year, 2⟩]
  else []

/-- `memory_refresh_temporal_refs`: the rows stored for a memory, given the date it was created on. -/
def memoryRefreshTemporalRefs (normalizeKey : Text → Text) (created : Option Date) (key content : Text) : List TemporalRef :=
  let keyTokens := memorySplitTokens (normalizeKey key) 24
  let tokens := memorySplitTokens (normalizeKey content) 24
  (keyTokens.flatMap temporalRefsOfKey ++ tokens.tails.flatMap (temporalRefsAt created)).filterMap
    (memoryTemporalInsert normalizeKey)

/-! ## What a query asks for -/

/-- `memory_parsed_date_t`, where it is valid. -/
structure ParsedDate where
  year : ℤ := 0
  month : ℤ := 0
  day : ℤ := 0
  granularity : ℕ := 0
  deriving DecidableEq, Repr

def ParsedDate.ofDate (d : Date) : ParsedDate := ⟨d.year, d.month, d.day, 3⟩

inductive DateConstraintMode where
  | none
  | onDate
  | before
  | after
  | between
  deriving DecidableEq, Repr

/-- `memory_temporal_constraint_t`. -/
structure TemporalConstraint where
  mode : DateConstraintMode
  first : Option ParsedDate := none
  second : Option ParsedDate := none
  deriving DecidableEq, Repr

/-- `memory_add_days`. -/
def memoryAddDays (date : Date) (deltaDays : ℤ) : Date := date.shift deltaDays

/-- `memory_add_months`: a day that is not set becomes the first. -/
def memoryAddMonths (date : ParsedDate) (deltaMonths : ℤ) : ParsedDate :=
  let monthIndex := date.year * 12 + (date.month - 1) + deltaMonths
  if monthIndex < 0 then date
  else
    let day := if date.day ≤ 0 then 1 else date.day
    ⟨monthIndex / 12, monthIndex % 12 + 1, day, if day > 0 then 3 else 2⟩

def TemporalConstraint.onDate (date : ParsedDate) : TemporalConstraint := ⟨.onDate, some date, none⟩

/-- What stands behind "last" or "next". -/
def lastNextConstraint (today : Date) (delta : ℤ) (tok : Text) : Option TemporalConstraint :=
  if tok = text "week" then
    let first := memoryAddDays today (-fromMonday today.weekday + delta * 7)
    some ⟨.between, some (.ofDate first), some (.ofDate (memoryAddDays first 6))⟩
  else if tok = text "month" then some (.onDate (memoryAddMonths ⟨today.year, today.month, 0, 2⟩ delta))
  else if tok = text "year" then some (.onDate ⟨today.year + delta, 0, 0, 1⟩)
  else if memoryIsWeekdayToken tok then
    some (.onDate (.ofDate (memoryAddDays today (memoryWeekdayNumber tok - today.weekday + delta * 7))))
  else none

/-- `amount` units ago. -/
def agoConstraint (today : Date) (amount : ℤ) (tok : Text) : Option TemporalConstraint :=
  if text "day" <+: tok then some (.onDate (.ofDate (memoryAddDays today (-amount))))
  else if text "week" <+: tok then some (.onDate (.ofDate (memoryAddDays today (-amount * 7))))
  else if text "month" <+: tok then some (.onDate (memoryAddMonths ⟨today.year, today.month, 0, 2⟩ (-amount)))
  else none

/-- A turn of the loop of `memory_parse_relative_temporal_constraint`: the first of the tokens, with
those behind it. -/
def relativeConstraintAt (today : Date) : List Text → Option TemporalConstraint
  | [] => none
  | tok :: rest =>
    if tok = text "today" then some (.onDate (.ofDate today))
    else if tok = text "yesterday" then some (.onDate (.ofDate (memoryAddDays today (-1))))
    else if tok = text "tomorrow" then some (.onDate (.ofDate (memoryAddDays today 1)))
    else if tok = text "last" ∨ tok = text "next" then
      rest.head?.bind (lastNextConstraint today (if tok = text "last" then -1 else 1))
    else
      match rest with
      | unit :: ago :: _ =>
        if tok.head?.any isdigit ∧ 0 < atoi tok ∧ ago = text "ago" then agoConstraint today (atoi tok) unit else none
      | _ => none

/-- `memory_parse_relative_temporal_constraint`, asked on a day. -/
def memoryParseRelativeTemporalConstraint (today : Date) (qtokens : List Text) : Option TemporalConstraint :=
  qtokens.tails.findSome? (relativeConstraintAt today)

/-! ## Indexed dates under a constraint -/

/-- `memory_parse_iso_date_token`. -/
def memoryParseIsoDateToken (token : Text) : Option (ℤ × ℤ × ℤ) :=
  if token.length = 10 ∧ (token.take 4).all isdigit ∧ (token.drop 4).take 1 = text " " ∧ ((token.drop 5).take 2).all isdigit ∧
      (token.drop 7).take 1 = text " " ∧ (token.drop 8).all isdigit then
    some (atoi token, atoi (token.drop 5), atoi (token.drop 8))
  else none

/-- A form of a date: what it leaves in the date, also where it does not match. -/
abbrev DateForm := ParsedDate → ParsedDate × Bool

/-- Month and day, with the year where there is one. -/
def monthThenDay (year : Option ℤ) (granularity : ℕ) (month day : Text) : DateForm := fun out =>
  match if memoryIsMonthToken month then scanInt day else none with
  | some d =>
    let m := memoryMonthNumber month
    (⟨year.getD out.year, m, d, granularity⟩, 0 < m ∧ 0 < d ∧ d ≤ 31)
  | none => (out, false)

def dayThenMonth (year : Option ℤ) (granularity : ℕ) (day month : Text) : DateForm := fun out =>
  match scanInt day with
  | some d =>
    let m := memoryMonthNumber month
    if memoryIsMonthToken month then (⟨year.getD out.year, m, d, granularity⟩, 0 < m ∧ 0 < d ∧ d ≤ 31)
    else ({ out with day := d }, false)
  | none => (out, false)

def monthAlone (month : Text) : DateForm := fun out =>
  if memoryIsMonthToken month then ({ out with month := memoryMonthNumber month, granularity := 2 }, true) else (out, false)

def yearAlone (tok : Text) : DateForm := fun out =>
  match if tok.length = 4 then scanInt tok else none with
  | some y => ({ out with year := y, granularity := 1 }, true)
  | none => (out, false)

def isoForm (a b c : Text) : DateForm := fun out =>
  match memoryParseIsoDateToken ((a ++ text " " ++ b ++ text " " ++ c).take 15) with
  | some (year, month, day) => (⟨year, month, day, 3⟩, true)
  | none => (out, false)

/-- The first form that matches. -/
def firstForm : List DateForm → ParsedDate → Option ParsedDate
  | [], _ => none
  | form :: forms, out =>
    match form out with
    | (date, true) => some date
    | (date, false) => firstForm forms date

/-- `memory_parse_date_tokens`, from the first token on. -/
def memoryParseDateTokens (tokens : List Text) : Option ParsedDate :=
  let forms : List DateForm :=
    (match tokens with
    | a :: b :: c :: _ =>
      isoForm a b c ::
        match if c.length = 4 then scanInt c else none with
        | some year => [monthThenDay (some year) 3 a b, dayThenMonth (some year) 3 a b]
        | none => []
    | _ => []) ++
    (match tokens with
    | a :: b :: _ => [monthThenDay none 2 a b, dayThenMonth none 2 a b]
    | _ => []) ++
    match tokens with
    | a :: _ => [monthAlone a, yearAlone a]
    | [] => []
  firstForm forms {}

/-- `memory_parse_temporal_ref_date`. -/
def memoryParseTemporalRefDate (normalizeKey : Text → Text) (ref : TemporalRef) : Option ParsedDate :=
  if ref.refKey = [] then none
  else
    (memoryParseDateTokens (memorySplitTokens (normalizeKey ref.refKey) 8)).map fun date =>
      if date.granularity = 2 ∧ ref.granularity = .month then { date with day := 0 } else date

/-- `memory_date_compare`. -/
def memoryDateCompare (a b : ParsedDate) : ℤ :=
  let precision := min a.granularity b.granularity
  if a.year ≠ b.year then if a.year < b.year then -1 else 1
  else if precision = 1 then 0
  else if a.month ≠ b.month then if a.month < b.month then -1 else 1
  else if precision = 2 then 0
  else if a.day ≠ b.day then if a.day < b.day then -1 else 1
  else 0

/-- `memory_temporal_constraint_score`. -/
def memoryTemporalConstraintScore (c : TemporalConstraint) (candidate : ParsedDate) : ℚ :=
  let cmpFirst := (c.first.map (memoryDateCompare candidate)).getD 0
  let cmpSecond := (c.second.map (memoryDateCompare candidate)).getD 0
  let base : ℚ := if 3 ≤ candidate.granularity then 62 / 100 else if candidate.granularity = 2 then 38 / 100 else 22 / 100
  match c.mode with
  | .none => 0
  | .onDate => if cmpFirst = 0 then base else -28 / 100
  | .before => if cmpFirst < 0 then base else -30 / 100
  | .after => if 0 < cmpFirst then base else -30 / 100
  | .between =>
    if c.second.isNone then 0
    else if 0 ≤ cmpFirst ∧ cmpSecond ≤ 0 then base + 8 / 100
    else -34 / 100

/-! ## Phrases -/

variable {normalizeKey : Text → Text} {d : Date}

inductive AgoUnit where
  | day
  | week
  | month
  deriving DecidableEq, Repr

def AgoUnit.word : AgoUnit → Bool → Text
  | .day, plural => if plural then text "days" else text "day"
  | .week, plural => if plural then text "weeks" else text "week"
  | .month, plural => if plural then text "months" else text "month"

/-- The number of a phrase, as both sides recognise it: it begins with a digit other than zero, and
four digits alone are a year. -/
structure Amount where
  token : Text
  head : token.head?.any fun c => 49 ≤ c ∧ c ≤ 57
  not_year : isYearToken token = false

/-- The relative phrases that both sides recognise. Weekdays count from Sunday. -/
inductive Phrase where
  | today
  | yesterday
  | tomorrow
  | lastWeek
  | lastMonth
  | lastYear
  | lastWeekday (w : Fin 7)
  | ago (amount : Amount) (unit : AgoUnit) (plural : Bool)

def Phrase.tokens : Phrase → List Text
  | .today => [text "today"]
  | .yesterday => [text "yesterday"]
  | .tomorrow => [text "tomorrow"]
  | .lastWeek => [text "last", text "week"]
  | .lastMonth => [text "last", text "month"]
  | .lastYear => [text "last", text "year"]
  | .lastWeekday w => [text "last", weekdays[w]]
  | .ago amount unit plural => [amount.token, unit.word plural, text "ago"]

/-- The refs that are a date or a year. -/
def TemporalRef.IsDate (ref : TemporalRef) : Prop := ref.granularity = .absoluteDay ∨ ref.granularity = .year

instance (ref : TemporalRef) : Decidable ref.IsDate := instDecidableOr

/-- An indexed ref scores positively under a constraint. -/
def Satisfies (normalizeKey : Text → Text) (c : TemporalConstraint) (ref : TemporalRef) : Prop :=
  ∃ date, memoryParseTemporalRefDate normalizeKey ref = some date ∧ 0 < memoryTemporalConstraintScore c date

/-- In a memory created on the day `d` the phrase indexes one date or year, which satisfies the constraint
of every query of that day whose first relative phrase it is. -/
def AgreesOn (normalizeKey : Text → Text) (d : Date) (p : Phrase) : Prop :=
  ∀ after before' after' : List Text,
    (∀ k < before'.length, relativeConstraintAt d ((before' ++ p.tokens ++ after').drop k) = none) →
      ∃ ref c, ((temporalRefsAt (some d) (p.tokens ++ after)).filterMap (memoryTemporalInsert normalizeKey)).filter
          (·.IsDate) = [ref] ∧
        memoryParseRelativeTemporalConstraint d (before' ++ p.tokens ++ after') = some c ∧ Satisfies normalizeKey c ref

/-- A word of digits. -/
def IsNumber (w : Text) : Prop := w ≠ [] ∧ w.all isdigit

/-- What is assumed of `normalize_key`: it leaves digits, and puts blanks for hyphens, between words
that is; a leading hyphen is dropped. -/
def NormalizesDates (normalizeKey : Text → Text) : Prop :=
  ∀ words : List Text, words ≠ [] → (∀ w ∈ words, IsNumber w) →
    normalizeKey ((text "-").intercalate words) = (text " ").intercalate words ∧
      normalizeKey (text "-" ++ (text "-").intercalate words) = (text " ").intercalate words ∧
      normalizeKey ((text " ").intercalate words) = (text " ").intercalate words

/-- When the two sides agree. For the weekdays: not one that came earlier in the week. For months: on the
first of a month, as far back as months are counted (or so far back that the year loses its sign and is
the present one again). The other dates must have years of four digits. -/
def Phrase.Coincides (d : Date) : Phrase → Prop
  | .tomorrow => d.dayNumber < Date.beforeYear 10000
  | .lastWeekday w => d.weekday ≤ w
  | .ago amount .day _ => Date.beforeYear 0 < d.dayNumber - atoi amount.token
  | .ago amount .week _ => Date.beforeYear 0 < d.dayNumber - atoi amount.token * 7
  | .ago amount .month _ =>
    d.day = 1 ∧ atoi amount.token ≤ d.year * 12 + (d.month - 1) ∨ atoi amount.token = d.year * 24 ∧ 1000 ≤ d.year
  | _ => True

/-! ## Reading an indexed date -/

theorem isNumber_padded {width : ℕ} (h : 0 < width) (n : ℕ) : IsNumber (padded width n) := by
  constructor
  · refine List.ne_nil_of_length_pos ?_
    rw [length_padded]
    omega
  · rw [List.all_eq_true]
    intro c hc
    simpa [isdigit] using mem_padded hc

theorem blank_notMem {w : Text} (h : IsNumber w) : (32 : UInt8) ∉ w := by
  intro hmem
  exact absurd (List.all_eq_true.1 h.2 32 hmem) (by decide)

/-- The words of a text of words that are apart by single blanks. -/
theorem memorySplitTokens_intercalate {words : List Text} (hne : words ≠ []) (hwords : ∀ w ∈ words, IsNumber w)
    {n : ℕ} (hmax : words.length ≤ n) :
    memorySplitTokens ((text " ").intercalate words) n = words.map (·.take 63) := by
  have hfilter : words.filter (· ≠ []) = words := List.filter_eq_self.2 fun w hw => by simpa using (hwords w hw).1
  rw [memorySplitTokens, show text " " = [32] from rfl,
    List.splitOn_intercalate 32 (fun w hw => blank_notMem (hwords w hw)) hne, hfilter, List.take_of_length_le]
  rwa [List.length_map]

/-- A word that begins with a digit is none of these. -/
theorem notMem_of_digit {tok : Text} (h : tok.head?.any isdigit) {words : List Text}
    (hwords : ∀ w ∈ words, w.head?.any isdigit = false) : tok ∉ words := by
  intro hmem
  rw [hwords tok hmem] at h
  cases h

theorem head_isdigit {w : Text} (h : IsNumber w) : w.head?.any isdigit := by
  obtain ⟨hne, hall⟩ := h
  cases w with
  | nil => exact absurd rfl hne
  | cons c cs => exact (List.all_eq_true.1 hall) c List.mem_cons_self

theorem memoryIsMonthToken_of_digit {tok : Text} (h : tok.head?.any isdigit) : memoryIsMonthToken tok = false :=
  decide_eq_false (notMem_of_digit h (by decide))

theorem isspace_of_isdigit {c : UInt8} (h : isdigit c) : isspace c = false := by
  by_contra hnot
  simp only [isdigit, isspace, Bool.not_eq_false, Bool.or_eq_true, Bool.and_eq_true, decide_eq_true_eq,
    UInt8.le_iff_toNat_le] at h hnot
  rcases hnot with rfl | ⟨-, hle⟩
  · exact absurd h.1 (by decide)
  · exact absurd (Nat.le_trans h.1 hle) (by decide)

/-- A digit is no sign. -/
theorem notSign_of_isdigit {c : UInt8} (h : isdigit c) : c ≠ 45 ∧ c ≠ 43 := by
  constructor <;> rintro rfl <;> exact absurd h (by decide)

/-- There is no blank in front of a number. -/
theorem dropWhile_isspace_number {w : Text} (h : IsNumber w) (rest : Text) :
    (w ++ rest).dropWhile isspace = w ++ rest := by
  cases w with
  | nil => exact absurd rfl h.1
  | cons c cs =>
    have hspace : isspace c = false := isspace_of_isdigit (List.all_eq_true.1 h.2 c List.mem_cons_self)
    simp [hspace]

/-- A number is read up to the first byte that is no digit. -/
theorem scanInt_append {w rest : Text} (h : IsNumber w) (hrest : rest.head?.all (!isdigit ·)) :
    scanInt (w ++ rest) = some (readDigits w : ℤ) := by
  have hdrop := dropWhile_isspace_number h rest
  obtain ⟨hne, hall⟩ := h
  have htake : (w ++ rest).takeWhile isdigit = w := by
    rw [List.takeWhile_append_of_pos (List.all_eq_true.1 hall)]
    cases rest with
    | nil => simp
    | cons c rest => simp [show isdigit c = false by simpa using hrest]
  cases w with
  | nil => exact absurd rfl hne
  | cons c cs =>
    have hdigit : isdigit c := (List.all_eq_true.1 hall) c List.mem_cons_self
    obtain ⟨hminus, hplus⟩ := notSign_of_isdigit hdigit
    rw [scanInt, hdrop]
    split
    rename_i hmatch
    split at hmatch
    · rename_i heq
      exact absurd (List.cons.inj heq).1 hminus
    · rename_i heq
      exact absurd (List.cons.inj heq).1 hplus
    · rw [htake] at hmatch
      cases hmatch
      simp

theorem scanInt_number {w : Text} (h : IsNumber w) : scanInt w = some (readDigits w : ℤ) := by
  simpa using (scanInt_append h rfl : scanInt (w ++ []) = some (readDigits w : ℤ))

theorem atoi_append {w rest : Text} (h : IsNumber w) (hrest : rest.head?.all (!isdigit ·)) :
    atoi (w ++ rest) = readDigits w := by
  rw [atoi, scanInt_append h hrest]
  rfl

theorem atoi_number {w : Text} (h : IsNumber w) : atoi w = readDigits w := by
  simpa using (atoi_append h rfl : atoi (w ++ []) = readDigits w)

/-- A word that begins with a digit begins with a number. -/
theorem number_append {tok : Text} (h : tok.head?.any isdigit) :
    ∃ w rest, tok = w ++ rest ∧ IsNumber w ∧ rest.head?.all (!isdigit ·) := by
  cases tok with
  | nil => cases h
  | cons c cs =>
    refine ⟨c :: cs.takeWhile isdigit, cs.dropWhile isdigit, by simp, ⟨List.cons_ne_nil _ _, by simpa using h⟩, ?_⟩
    have hnot := List.head?_dropWhile_not isdigit cs
    cases hdrop : (cs.dropWhile isdigit).head? with
    | none => rfl
    | some c' =>
      rw [hdrop] at hnot
      simpa using hnot

/-- Three numbers of four, two and two digits are a date. -/
theorem memoryParseIsoDateToken_join {a b c : Text} (ha : IsNumber a) (hb : IsNumber b) (hc : IsNumber c)
    (ha4 : a.length = 4) (hb2 : b.length = 2) (hc2 : c.length = 2) :
    memoryParseIsoDateToken (a ++ text " " ++ b ++ text " " ++ c) =
      some ((readDigits a : ℤ), (readDigits b : ℤ), (readDigits c : ℤ)) := by
  have hjoin : a ++ text " " ++ b ++ text " " ++ c = a ++ 32 :: (b ++ 32 :: c) := by simp [text]
  have ha4' : a.drop 4 = [] := List.drop_eq_nil_of_le (Nat.le_of_eq ha4)
  have hb2' : b.drop 2 = [] := List.drop_eq_nil_of_le (Nat.le_of_eq hb2)
  have hdrop4 : (a ++ 32 :: (b ++ 32 :: c)).drop 4 = 32 :: (b ++ 32 :: c) := by
    rw [List.drop_append, ha4', ha4]
    rfl
  have hdrop5 : (a ++ 32 :: (b ++ 32 :: c)).drop 5 = b ++ 32 :: c := by
    rw [show 5 = 4 + 1 from rfl, ← List.drop_drop, hdrop4]
    rfl
  have hdrop7 : (a ++ 32 :: (b ++ 32 :: c)).drop 7 = 32 :: c := by
    rw [show 7 = 5 + 2 from rfl, ← List.drop_drop, hdrop5, List.drop_append, hb2', hb2]
    rfl
  have hdrop8 : (a ++ 32 :: (b ++ 32 :: c)).drop 8 = c := by
    rw [show 8 = 7 + 1 from rfl, ← List.drop_drop, hdrop7]
    rfl
  rw [hjoin, memoryParseIsoDateToken, hdrop4, hdrop5, hdrop7, hdrop8, atoi_append ha rfl, atoi_append hb rfl,
    atoi_number hc, if_pos]
  refine ⟨by simp [ha4, hb2, hc2], ?_, rfl, ?_, rfl, hc.2⟩
  · rw [← ha4, List.take_left]
    exact ha.2
  · rw [← hb2, List.take_left]
    exact hb.2

/-- Three numbers are read as a date where the year has four digits, and not at all otherwise. -/
theorem memoryParseDateTokens_numbers {a b c : Text} (ha : IsNumber a) (hb : IsNumber b) (hc : IsNumber c)
    (hb2 : b.length = 2) (hc2 : c.length = 2) :
    memoryParseDateTokens [a, b, c] =
      if a.length = 4 then some ⟨readDigits a, readDigits b, readDigits c, 3⟩ else none := by
  have hmonth : memoryIsMonthToken a = false := memoryIsMonthToken_of_digit (head_isdigit ha)
  have hmonth' : memoryIsMonthToken b = false := memoryIsMonthToken_of_digit (head_isdigit hb)
  split
  · rename_i ha4
    have hform : isoForm a b c {} = (⟨readDigits a, readDigits b, readDigits c, 3⟩, true) := by
      rw [isoForm, List.take_of_length_le (by simp [ha4, hb2, hc2, text]),
        memoryParseIsoDateToken_join ha hb hc ha4 hb2 hc2]
    simp [memoryParseDateTokens, firstForm, hform]
  · rename_i ha4
    have hform : isoForm a b c {} = ({}, false) := by
      rw [isoForm, memoryParseIsoDateToken, if_neg]
      rintro ⟨hlength, -⟩
      simp [hb2, hc2, text] at hlength
      omega
    have hscan := scanInt_number ha
    simp [memoryParseDateTokens, firstForm, hform, hc2, monthThenDay, dayThenMonth, monthAlone, yearAlone, hmonth, hmonth',
      hscan, ha4]

theorem memoryParseDateTokens_year {a : Text} (ha : IsNumber a) (ha4 : a.length = 4) :
    memoryParseDateTokens [a] = some ⟨readDigits a, 0, 0, 1⟩ := by
  have hmonth : memoryIsMonthToken a = false := memoryIsMonthToken_of_digit (head_isdigit ha)
  have hscan := scanInt_number ha
  simp [memoryParseDateTokens, firstForm, monthAlone, yearAlone, hmonth, hscan, ha4]

/-- The digits of a year: the sign counts for the width. -/
def yearWord (year : ℤ) : Text := if year < 0 then padded 3 year.natAbs else padded 4 year.natAbs

theorem isNumber_yearWord (year : ℤ) : IsNumber (yearWord year) := by
  rw [yearWord]
  split
  · exact isNumber_padded (by omega) _
  · exact isNumber_padded (by omega) _

theorem readDigits_yearWord (year : ℤ) : readDigits (yearWord year) = year.natAbs := by
  rw [yearWord]
  split <;> exact readDigits_padded

/-- The years that are written with four digits. -/
theorem length_yearWord_eq_iff (year : ℤ) :
    (yearWord year).length = 4 ↔ 0 ≤ year ∧ year < 10000 ∨ -10000 < year ∧ year ≤ -1000 := by
  rw [yearWord]
  split
  · have h3 := Nat.digits_length_le_iff (b := 10) (k := 3) (by omega) year.natAbs
    have h4 := Nat.digits_length_le_iff (b := 10) (k := 4) (by omega) year.natAbs
    rw [length_padded]
    omega
  · rw [length_padded_eq_iff]
    omega

theorem formatInt_day {day : ℤ} (h : 0 ≤ day) : formatInt 2 day = padded 2 day.natAbs := by
  rw [formatInt, if_neg (by omega)]

theorem memoryFormatDate_eq (year month day : ℤ) (hmonth : 0 ≤ month) (hday : 0 ≤ day) :
    memoryFormatDate year month day = (if year < 0 then text "-" else []) ++
      (text "-").intercalate [yearWord year, padded 2 month.natAbs, padded 2 day.natAbs] := by
  rw [memoryFormatDate, formatInt_day hmonth, formatInt_day hday, formatInt, yearWord]
  split <;> simp

theorem isNumber_dateWords (year month day : ℤ) :
    ∀ w ∈ [yearWord year, padded 2 month.natAbs, padded 2 day.natAbs], IsNumber w := by
  intro w hw
  simp only [List.mem_cons, List.not_mem_nil, or_false] at hw
  rcases hw with rfl | rfl | rfl
  · exact isNumber_yearWord year
  · exact isNumber_padded Nat.two_pos _
  · exact isNumber_padded Nat.two_pos _

/-- What `memory_temporal_insert` stores for a date. -/
theorem memoryTemporalInsert_date (hnorm : NormalizesDates normalizeKey) {year month day : ℤ} (hmonth : 0 ≤ month)
    (hday : 0 ≤ day) (g : RefGranularity) (weight : ℚ) :
    memoryTemporalInsert normalizeKey ⟨memoryFormatDate year month day, g, weight⟩ =
      some ⟨(text " ").intercalate [yearWord year, padded 2 month.natAbs, padded 2 day.natAbs], g, weight⟩ := by
  obtain ⟨hplain, hsigned, -⟩ := hnorm [yearWord year, padded 2 month.natAbs, padded 2 day.natAbs] (List.cons_ne_nil _ _)
    (isNumber_dateWords year month day)
  have hnormal : normalizeKey (memoryFormatDate year month day) =
      (text " ").intercalate [yearWord year, padded 2 month.natAbs, padded 2 day.natAbs] := by
    rw [memoryFormatDate_eq year month day hmonth hday]
    split
    · exact hsigned
    · exact hplain
  rw [memoryTemporalInsert, hnormal, if_neg]
  simp [text]

/-! ## Comparing -/

/-- One stage of a comparison: unequal parts decide. -/
theorem unequal_eq_zero_iff {x y rest : ℤ} :
    (if x ≠ y then if x < y then -1 else 1 else rest) = 0 ↔ x = y ∧ rest = 0 := by
  by_cases hxy : x = y
  · simp [hxy]
  · rw [if_pos hxy]
    refine iff_of_false ?_ fun h => hxy h.1
    split <;> decide

theorem precision_eq_zero_iff {p : Prop} [Decidable p] {rest : ℤ} : (if p then 0 else rest) = 0 ↔ p ∨ rest = 0 := by
  by_cases hp : p <;> simp [hp]

theorem memoryDateCompare_eq_zero_iff (a b : ParsedDate) :
    memoryDateCompare a b = 0 ↔ a.year = b.year ∧ (min a.granularity b.granularity = 1 ∨
      a.month = b.month ∧ (min a.granularity b.granularity = 2 ∨ a.day = b.day)) := by
  simp only [memoryDateCompare, unequal_eq_zero_iff, precision_eq_zero_iff, and_true]

/-- An indexed date satisfies a constraint on one date where the two are the same. -/
theorem score_onDate_pos_iff (first candidate : ParsedDate) :
    0 < memoryTemporalConstraintScore (.onDate first) candidate ↔ memoryDateCompare candidate first = 0 := by
  have hscore : memoryTemporalConstraintScore (.onDate first) candidate =
      if memoryDateCompare candidate first = 0 then
        if 3 ≤ candidate.granularity then 62 / 100 else if candidate.granularity = 2 then 38 / 100 else 22 / 100
      else -28 / 100 := rfl
  rw [hscore]
  by_cases heq : memoryDateCompare candidate first = 0
  · refine iff_of_true ?_ heq
    rw [if_pos heq]
    split_ifs <;> norm_num
  · refine iff_of_false ?_ heq
    rw [if_neg heq]
    norm_num

theorem score_between_pos_iff (first second candidate : ParsedDate) :
    0 < memoryTemporalConstraintScore ⟨.between, some first, some second⟩ candidate ↔
      0 ≤ memoryDateCompare candidate first ∧ memoryDateCompare candidate second ≤ 0 := by
  simp only [memoryTemporalConstraintScore, Option.map_some, Option.getD_some, Option.isNone_some, Bool.false_eq_true,
    if_false]
  split
  · rename_i hin
    refine iff_of_true ?_ hin
    split_ifs <;> norm_num
  · rename_i hout
    exact iff_of_false (by norm_num) hout

theorem memoryDateCompare_neg_iff (a b : Date) : memoryDateCompare (.ofDate a) (.ofDate b) < 0 ↔ a.dayNumber < b.dayNumber := by
  rw [← Date.before_iff, Date.Before]
  simp only [memoryDateCompare, ParsedDate.ofDate, min_self]
  split_ifs <;> omega

theorem memoryDateCompare_pos_iff (a b : Date) : 0 < memoryDateCompare (.ofDate a) (.ofDate b) ↔ b.dayNumber < a.dayNumber := by
  rw [← Date.before_iff, Date.Before]
  simp only [memoryDateCompare, ParsedDate.ofDate, min_self]
  split_ifs <;> omega

/-! ## One phrase -/

variable {p : Phrase} {raw ref : TemporalRef} {c : TemporalConstraint}

/-- What is said of a row but for its key is said of the row that is stored. -/
theorem filter_filterMap_insert {normalizeKey : Text → Text} {keep : TemporalRef → Bool}
    (hkeep : ∀ ref key, keep { ref with refKey := key } = keep ref) (refs : List TemporalRef) :
    (refs.filterMap (memoryTemporalInsert normalizeKey)).filter keep =
      (refs.filter keep).filterMap (memoryTemporalInsert normalizeKey) := by
  rw [List.filter_filterMap, List.filterMap_filter]
  congr 1
  funext ref
  rw [memoryTemporalInsert]
  split
  · simp
  · simp [Option.filter, hkeep]

theorem findSome?_tails_of_none {α : Type*} {x : α} {ts : List Text} {f : List Text → Option α} :
    ∀ before : List Text, (∀ k < before.length, f ((before ++ ts).drop k) = none) → f ts = some x →
      (before ++ ts).tails.findSome? f = some x
  | [], _, h => by
    cases ts with
    | nil => simpa [List.tails] using h
    | cons t ts => simp [h]
  | t :: before, hnone, h => by
    have hhead := hnone 0 (Nat.zero_lt_succ _)
    rw [List.drop_zero] at hhead
    rw [List.cons_append, List.tails_cons, List.findSome?_cons, ← List.cons_append, hhead]
    exact findSome?_tails_of_none before (fun k hk => hnone (k + 1) (Nat.succ_lt_succ hk)) h

/-- The two sides agree on a phrase where the one ref that the phrase indexes satisfies the constraint
that it makes. -/
theorem agreesOn_iff_satisfies
    (hrefs : ∀ after, (temporalRefsAt (some d) (p.tokens ++ after)).filter (·.IsDate) = [raw])
    (hinsert : memoryTemporalInsert normalizeKey raw = some ref)
    (hasked : ∀ after, relativeConstraintAt d (p.tokens ++ after) = some c) :
    AgreesOn normalizeKey d p ↔ Satisfies normalizeKey c ref := by
  have hindexed : ∀ after,
      ((temporalRefsAt (some d) (p.tokens ++ after)).filterMap (memoryTemporalInsert normalizeKey)).filter (·.IsDate) = [ref] := by
    intro after
    rw [filter_filterMap_insert fun _ _ => rfl, hrefs after, List.filterMap_cons_some hinsert]
    rfl
  constructor
  · intro h
    obtain ⟨ref', c', href, hc, hsat⟩ := h [] [] [] (fun k hk => absurd hk (Nat.not_lt_zero k))
    rw [hindexed] at href
    cases href
    rw [memoryParseRelativeTemporalConstraint, List.append_assoc, findSome?_tails_of_none [] (fun k hk => absurd hk (Nat.not_lt_zero k))
      (hasked [])] at hc
    cases hc
    exact hsat
  · intro h after before' after' hbefore
    refine ⟨ref, c, hindexed after, ?_, h⟩
    rw [List.append_assoc] at hbefore ⊢
    exact findSome?_tails_of_none before' hbefore (hasked after')

/-- What a phrase in the content indexes is stored for the memory. -/
theorem mem_memoryRefreshTemporalRefs {created : Option Date} {key content : Text} {before after : List Text}
    (hcontent : memorySplitTokens (normalizeKey content) 24 = before ++ (p.tokens ++ after))
    (href : ref ∈ (temporalRefsAt created (p.tokens ++ after)).filterMap (memoryTemporalInsert normalizeKey)) :
    ref ∈ memoryRefreshTemporalRefs normalizeKey created key content := by
  obtain ⟨raw, hraw, hinsert⟩ := List.mem_filterMap.1 href
  refine List.mem_filterMap.2 ⟨raw, List.mem_append_right _ ?_, hinsert⟩
  rw [hcontent]
  exact List.mem_flatMap.2 ⟨_, (List.mem_tails ..).2 (List.suffix_append before _), hraw⟩

/-- A stored date is read back where its year has four digits, without the sign of the year. -/
theorem memoryParseTemporalRefDate_stored (hnorm : NormalizesDates normalizeKey) {year month day : ℤ}
    (hmonth : 0 ≤ month ∧ month < 100) (hday : 0 ≤ day ∧ day < 100) (weight : ℚ) :
    memoryParseTemporalRefDate normalizeKey
        ⟨(text " ").intercalate [yearWord year, padded 2 month.natAbs, padded 2 day.natAbs], .absoluteDay, weight⟩ =
      if (yearWord year).length = 4 then some ⟨year.natAbs, month, day, 3⟩ else none := by
  have hwords := isNumber_dateWords year month day
  have hm2 : (padded 2 month.natAbs).length = 2 := length_padded_eq_iff.2 (by omega)
  have hd2 : (padded 2 day.natAbs).length = 2 := length_padded_eq_iff.2 (by omega)
  have hyear : IsNumber ((yearWord year).take 63) := by
    obtain ⟨hne, hall⟩ := isNumber_yearWord year
    refine ⟨by simpa using hne, List.all_eq_true.2 fun c hc => ?_⟩
    exact List.all_eq_true.1 hall c (List.mem_of_mem_take hc)
  have hlength : ((yearWord year).take 63).length = 4 ↔ (yearWord year).length = 4 := by
    rw [List.length_take]
    omega
  rw [memoryParseTemporalRefDate, if_neg (by simp [text]), (hnorm _ (List.cons_ne_nil _ _) hwords).2.2,
    memorySplitTokens_intercalate (List.cons_ne_nil _ _) hwords (by simp), List.map_cons, List.map_cons, List.map_cons,
    List.map_nil, List.take_of_length_le (i := 63) (l := padded 2 month.natAbs) (by omega),
    List.take_of_length_le (i := 63) (l := padded 2 day.natAbs) (by omega),
    memoryParseDateTokens_numbers hyear (isNumber_padded Nat.two_pos _) (isNumber_padded Nat.two_pos _) hm2 hd2]
  by_cases h4 : (yearWord year).length = 4
  · rw [if_pos (hlength.2 h4), if_pos h4, List.take_of_length_le (by omega), readDigits_yearWord, readDigits_padded,
      readDigits_padded]
    simp only [Option.map_some, show (3 = 2) = False from eq_false (by omega), false_and, if_false]
    congr 2 <;> omega
  · rw [if_neg (hlength.not.2 h4), if_neg h4]
    rfl

/-- An indexed date satisfies a constraint where it can be read back and scores. -/
theorem satisfies_date_iff (hnorm : NormalizesDates normalizeKey) {year month day : ℤ} (hmonth : 0 ≤ month ∧ month < 100)
    (hday : 0 ≤ day ∧ day < 100) (weight : ℚ) :
    Satisfies normalizeKey c
        ⟨(text " ").intercalate [yearWord year, padded 2 month.natAbs, padded 2 day.natAbs], .absoluteDay, weight⟩ ↔
      (yearWord year).length = 4 ∧ 0 < memoryTemporalConstraintScore c ⟨year.natAbs, month, day, 3⟩ := by
  rw [Satisfies, memoryParseTemporalRefDate_stored hnorm hmonth hday]
  split
  · rename_i h4
    simp [h4]
  · rename_i h4
    simp [h4]

/-! ## The agreement -/

/-- An indexed day satisfies a constraint on a day exactly where it is that day and its year has four
digits; or its year loses its sign in the index and is the other's then. -/
theorem satisfies_onDay_iff (hnorm : NormalizesDates normalizeKey) (e e' : Date) (weight : ℚ) :
    Satisfies normalizeKey (.onDate (.ofDate e'))
        ⟨(text " ").intercalate [yearWord e.year, padded 2 e.month.natAbs, padded 2 e.day.natAbs], .absoluteDay, weight⟩ ↔
      0 ≤ e.year ∧ e.year < 10000 ∧ e = e' ∨
        -10000 < e.year ∧ e.year ≤ -1000 ∧ -e.year = e'.year ∧ e.month = e'.month ∧ e.day = e'.day := by
  rw [satisfies_date_iff hnorm e.month_lt e.day_lt, score_onDate_pos_iff, memoryDateCompare_eq_zero_iff,
    length_yearWord_eq_iff]
  have hsame : e = e' ↔ e.year = e'.year ∧ e.month = e'.month ∧ e.day = e'.day := by
    cases e
    cases e'
    simp
  rw [hsame]
  simp only [ParsedDate.ofDate]
  omega

/-- The days that both sides reach by the same number of days. -/
theorem agreesOn_shift_iff (hnorm : NormalizesDates normalizeKey) {k : ℤ} {q : ℚ}
    (hrefs : ∀ after, (temporalRefsAt (some d) (p.tokens ++ after)).filter (·.IsDate) = [.onDay (d.shift k) q])
    (hasked : ∀ after, relativeConstraintAt d (p.tokens ++ after) = some (.onDate (.ofDate (d.shift k)))) :
    AgreesOn normalizeKey d p ↔
      Date.beforeYear 0 < d.dayNumber + k ∧ d.dayNumber + k ≤ Date.beforeYear 10000 := by
  rw [agreesOn_iff_satisfies hrefs (memoryTemporalInsert_date hnorm (Date.month_lt _).1 (Date.day_lt _).1 _ _) hasked,
    satisfies_onDay_iff hnorm]
  have hneg := Date.year_lt_iff (d := d.shift k) (y := 0)
  have hbig := Date.year_lt_iff (d := d.shift k) (y := 10000)
  rw [Date.dayNumber_shift] at hneg hbig
  constructor
  · rintro (⟨h0, h1, -⟩ | ⟨-, hle, hyear, -⟩)
    · exact ⟨Int.not_le.1 fun h => absurd (hneg.2 h) (Int.not_lt.2 h0), hbig.1 h1⟩
    · omega
  · rintro ⟨h0, h1⟩
    exact .inl ⟨Int.not_lt.1 fun h => absurd (hneg.1 h) (Int.not_le.2 h0), hbig.2 h1, rfl⟩

theorem daysSince_mem {current target : ℤ} (hcurrent : 0 ≤ current ∧ current < 7) (htarget : 0 ≤ target ∧ target < 7) :
    1 ≤ daysSince current target ∧ daysSince current target ≤ 7 := by
  simp only [daysSince, fromMonday]
  split_ifs <;> omega

/-- A week before the weekday of the present week, from Sunday, is the last such day where the weekday is
still to come, or is today's. -/
theorem daysSince_eq_iff {current target : ℤ} (hcurrent : 0 ≤ current ∧ current < 7) (htarget : 0 ≤ target ∧ target < 7) :
    -daysSince current target = target - current + -1 * 7 ↔ current ≤ target := by
  simp only [daysSince, fromMonday]
  split_ifs <;> omega

/-- Days within a year of a date of four digits, back from it, have years that are not negative. -/
theorem year_shift_mem (hyear : 1 ≤ d.year ∧ d.year < 10000) {k : ℤ} (hk : -366 ≤ k) (hk0 : k ≤ 0) :
    0 ≤ (d.shift k).year ∧ (d.shift k).year < 10000 := by
  have hlo := Date.year_lt_iff (d := d) (y := 1)
  have hhi := Date.year_lt_iff (d := d) (y := 10000)
  have hneg := Date.year_lt_iff (d := d.shift k) (y := 0)
  have hbig := Date.year_lt_iff (d := d.shift k) (y := 10000)
  rw [Date.dayNumber_shift] at hneg hbig
  rw [Date.beforeYear_zero] at hneg
  rw [Date.beforeYear_one] at hlo
  omega

theorem memoryWeekdayNumber_weekdays (w : Fin 7) : memoryWeekdayNumber weekdays[w] = (w : ℕ) := by
  revert w
  decide

theorem agreesOn_lastWeekday_iff (hnorm : NormalizesDates normalizeKey) (hyear : 1 ≤ d.year ∧ d.year < 10000) (w : Fin 7) :
    AgreesOn normalizeKey d (.lastWeekday w) ↔ d.weekday ≤ w := by
  have hrefs : ∀ after, (temporalRefsAt (some d) ((Phrase.lastWeekday w).tokens ++ after)).filter (·.IsDate) =
      [.onDay (d.shift (-daysSince d.weekday (memoryWeekdayNumber weekdays[w]))) (24 / 10)] := by
    intro after
    fin_cases w <;> rfl
  have hasked : ∀ after, relativeConstraintAt d ((Phrase.lastWeekday w).tokens ++ after) =
      some (.onDate (.ofDate (d.shift (memoryWeekdayNumber weekdays[w] - d.weekday + -1 * 7)))) := by
    intro after
    fin_cases w <;> rfl
  have hw : 0 ≤ ((w : ℕ) : ℤ) ∧ ((w : ℕ) : ℤ) < 7 := by omega
  have hdays := daysSince_mem d.weekday_mem hw
  obtain ⟨hyear0, hyear1⟩ := year_shift_mem hyear (k := -daysSince d.weekday (w : ℕ)) (by omega) (by omega)
  rw [agreesOn_iff_satisfies hrefs (memoryTemporalInsert_date hnorm (Date.month_lt _).1 (Date.day_lt _).1 _ _) hasked,
    satisfies_onDay_iff hnorm, Date.shift_inj, memoryWeekdayNumber_weekdays, daysSince_eq_iff d.weekday_mem hw]
  constructor
  · rintro (⟨-, -, h⟩ | ⟨-, hle, -⟩)
    · exact h
    · omega
  · exact fun h => .inl ⟨hyear0, hyear1, h⟩

theorem agreesOn_lastWeek (hnorm : NormalizesDates normalizeKey) (hyear : 1 ≤ d.year ∧ d.year < 10000) :
    AgreesOn normalizeKey d .lastWeek := by
  let monday := d.shift (-fromMonday d.weekday + -1 * 7)
  have hasked : ∀ after, relativeConstraintAt d (Phrase.lastWeek.tokens ++ after) =
      some ⟨.between, some (.ofDate monday), some (.ofDate (monday.shift 6))⟩ := fun _ => rfl
  obtain ⟨hyear0, hyear1⟩ := year_shift_mem hyear (k := -7) (by omega) (by omega)
  have hnatAbs : (((d.shift (-7)).year.natAbs : ℕ) : ℤ) = (d.shift (-7)).year := Int.natAbs_of_nonneg hyear0
  have hmonday : monday.dayNumber = d.dayNumber + (-fromMonday d.weekday + -1 * 7) := d.dayNumber_shift _
  have hwd := d.weekday_mem
  have hrefs : ∀ after, (temporalRefsAt (some d) (Phrase.lastWeek.tokens ++ after)).filter (·.IsDate) =
      [.onDay (d.shift (-7)) (22 / 10)] := fun _ => rfl
  rw [agreesOn_iff_satisfies hrefs
    (memoryTemporalInsert_date hnorm (Date.month_lt _).1 (Date.day_lt _).1 _ _) hasked,
    satisfies_date_iff hnorm (Date.month_lt _) (Date.day_lt _), score_between_pos_iff, hnatAbs, length_yearWord_eq_iff]
  refine ⟨.inl ⟨hyear0, hyear1⟩, ?_, ?_⟩
  · -- the Monday of that week is not behind it
    refine Int.not_lt.1 fun hneg => ?_
    have := (memoryDateCompare_neg_iff (d.shift (-7)) monday).1 hneg
    rw [Date.dayNumber_shift, hmonday, fromMonday] at this
    split at this <;> omega
  · -- nor is the Sunday before it
    refine Int.not_lt.1 fun hpos => ?_
    have := (memoryDateCompare_pos_iff (d.shift (-7)) (monday.shift 6)).1 hpos
    rw [Date.dayNumber_shift, Date.dayNumber_shift, Date.dayNumber_shift, fromMonday] at this
    split at this <;> omega

theorem isdigit_head {tok : Text} (h : tok.head?.any fun c => 49 ≤ c ∧ c ≤ 57) : tok.head?.any isdigit := by
  cases tok with
  | nil => cases h
  | cons c cs =>
    simp only [List.head?_cons, Option.any_some, decide_eq_true_eq] at h
    simp only [List.head?_cons, Option.any_some, isdigit, decide_eq_true_eq]
    exact ⟨Nat.le_trans (by decide) (UInt8.le_iff_toNat_le.1 h.1), h.2⟩

/-- What begins with a digit other than zero is a positive number. -/
theorem atoi_pos_of_head {tok : Text} (h : tok.head?.any fun c => 49 ≤ c ∧ c ≤ 57) : 0 < atoi tok := by
  obtain ⟨w, rest, hsplit, hnumber, hrest⟩ := number_append (isdigit_head h)
  rw [hsplit] at h
  rw [hsplit, atoi_append hnumber hrest]
  obtain ⟨c, cs, rfl⟩ := List.exists_cons_of_ne_nil hnumber.1
  simp only [List.cons_append, List.head?_cons, Option.any_some, decide_eq_true_eq] at h
  have hpos : 0 < readDigits (c :: cs) :=
    readDigits_pos (Nat.lt_of_lt_of_le (by decide) (UInt8.le_iff_toNat_le.1 h.1))
  exact_mod_cast hpos

theorem Amount.head_isdigit (amount : Amount) : amount.token.head?.any isdigit := isdigit_head amount.head

theorem Amount.atoi_pos (amount : Amount) : 0 < atoi amount.token := atoi_pos_of_head amount.head

theorem temporalRefsAt_ago (amount : Amount) (unit : AgoUnit) (plural : Bool) (after : List Text) :
    temporalRefsAt (some d) ((Phrase.ago amount unit plural).tokens ++ after) =
      agoRefs d (atoi amount.token) (unit.word plural) := by
  have hdigit := amount.head_isdigit
  have hweekday : memoryIsWeekdayToken amount.token = false := decide_eq_false (notMem_of_digit hdigit (by decide))
  simp only [Phrase.tokens, List.cons_append, List.nil_append, temporalRefsAt]
  rw [if_neg (notMem_of_digit hdigit (by decide)), memoryIsMonthToken_of_digit hdigit, hweekday, amount.not_year,
    if_neg Bool.false_ne_true, if_neg Bool.false_ne_true, if_neg Bool.false_ne_true,
    if_neg (notMem_of_digit hdigit (by decide)), if_pos ⟨trivial, amount.head, amount.atoi_pos⟩]

/-- A number of units ago, in a query. -/
theorem relativeConstraintAt_number {tok : Text} (hdigit : tok.head?.any isdigit) (hpos : 0 < atoi tok) (unit : Text)
    (after : List Text) : relativeConstraintAt d (tok :: unit :: text "ago" :: after) = agoConstraint d (atoi tok) unit := by
  have hnot : ∀ word : Text, word.head?.any isdigit = false → tok ≠ word := by
    rintro word hword rfl
    rw [hdigit] at hword
    cases hword
  simp only [relativeConstraintAt]
  rw [if_neg (hnot _ rfl), if_neg (hnot _ rfl), if_neg (hnot _ rfl), if_neg (not_or.2 ⟨hnot _ rfl, hnot _ rfl⟩),
    if_pos ⟨hdigit, hpos, trivial⟩]

theorem relativeConstraintAt_ago (amount : Amount) (unit : AgoUnit) (plural : Bool) (after : List Text) :
    relativeConstraintAt d ((Phrase.ago amount unit plural).tokens ++ after) =
      agoConstraint d (atoi amount.token) (unit.word plural) :=
  relativeConstraintAt_number amount.head_isdigit amount.atoi_pos _ after

/-- The months that are counted back. -/
theorem agreesOn_months_iff (hnorm : NormalizesDates normalizeKey) (hyear : 1 ≤ d.year ∧ d.year < 10000) (amount : Amount)
    (plural : Bool) :
    AgreesOn normalizeKey d (.ago amount .month plural) ↔
      d.day = 1 ∧ atoi amount.token ≤ d.year * 12 + (d.month - 1) ∨ atoi amount.token = d.year * 24 ∧ 1000 ≤ d.year := by
  generalize hn : atoi amount.token = n
  have hpos := amount.atoi_pos
  rw [hn] at hpos
  have hmonth := d.month_mem
  have hday := d.day_mem
  let monthIndex := d.year * 12 + (d.month - 1) - n
  have hrefs : ∀ after, (temporalRefsAt (some d) ((Phrase.ago amount .month plural).tokens ++ after)).filter (·.IsDate) =
      [⟨memoryFormatDate (monthIndex / 12) (monthIndex % 12 + 1) (if d.day > 28 then 28 else d.day), .absoluteDay,
        24 / 10⟩] := by
    intro after
    rw [temporalRefsAt_ago, hn]
    cases plural <;> rfl
  have hasked : ∀ after, relativeConstraintAt d ((Phrase.ago amount .month plural).tokens ++ after) =
      some (.onDate (memoryAddMonths ⟨d.year, d.month, 0, 2⟩ (-n))) := by
    intro after
    rw [relativeConstraintAt_ago, hn]
    cases plural <;> rfl
  have hm : 0 ≤ monthIndex % 12 + 1 ∧ monthIndex % 12 + 1 < 100 := by omega
  have hd : 0 ≤ (if d.day > 28 then 28 else d.day) ∧ (if d.day > 28 then 28 else d.day) < 100 := by
    split <;> omega
  have hfirst : (if d.day > 28 then 28 else d.day) = 1 ↔ d.day = 1 := by
    split <;> omega
  rw [agreesOn_iff_satisfies hrefs (memoryTemporalInsert_date hnorm hm.1 hd.1 _ _) hasked,
    satisfies_date_iff hnorm hm hd, score_onDate_pos_iff, memoryDateCompare_eq_zero_iff, length_yearWord_eq_iff]
  simp only [memoryAddMonths]
  by_cases hneg : d.year * 12 + (d.month - 1) + -n < 0
  · -- before the year 0 the query keeps the month of the day itself
    rw [if_pos hneg]
    simp only
    omega
  · rw [if_neg hneg]
    simp only [Int.le_refl, if_true]
    rw [hfirst]
    have hindex : d.year * 12 + (d.month - 1) + -n = monthIndex := by omega
    rw [hindex]
    have hsmall : monthIndex / 12 < 10000 := by omega
    have hnonneg : 0 ≤ monthIndex / 12 := by omega
    have hnatAbs : ((monthIndex / 12).natAbs : ℤ) = monthIndex / 12 := Int.natAbs_of_nonneg hnonneg
    rw [hnatAbs]
    have hle : n ≤ d.year * 12 + (d.month - 1) := by omega
    simp only [gt_iff_lt, Int.one_pos, if_true]
    constructor
    · rintro ⟨-, -, h | ⟨-, h | h⟩⟩
      · cases h
      · cases h
      · exact .inl ⟨h, hle⟩
    · rintro (⟨h, -⟩ | ⟨h, -⟩)
      · exact ⟨.inl ⟨hnonneg, hsmall⟩, trivial, .inr ⟨trivial, .inr h⟩⟩
      · omega

/-- The month before that of a date is indexed by its first day. -/
theorem exists_lastMonth (d : Date) :
    ∃ year month : ℤ, (d.month = 1 ∧ year = d.year - 1 ∧ month = 12 ∨ 1 < d.month ∧ year = d.year ∧ month = d.month - 1) ∧
      ∀ after, temporalRefsAt (some d) (Phrase.lastMonth.tokens ++ after) =
        [⟨text "last", .relative, 12 / 10⟩, ⟨text "last:month", .relativePhrase, 2⟩,
          ⟨memoryFormatDate year month 1, .absoluteDay, 2⟩] := by
  have hmonth := d.month_mem
  have hrefs : ∀ after, temporalRefsAt (some d) (Phrase.lastMonth.tokens ++ after) =
      ⟨text "last", .relative, 12 / 10⟩ :: lastRefs d (text "month") := fun _ => rfl
  have hlast : lastRefs d (text "month") =
      [⟨text "last:month", .relativePhrase, 2⟩,
        ⟨if d.month - 1 < 1 then memoryFormatDate (d.year - 1) 12 1 else memoryFormatDate d.year (d.month - 1) 1,
          .absoluteDay, 2⟩] := rfl
  by_cases hfirst : d.month - 1 < 1
  · refine ⟨d.year - 1, 12, .inl ⟨by omega, rfl, rfl⟩, fun after => ?_⟩
    rw [hrefs, hlast, if_pos hfirst]
  · refine ⟨d.year, d.month - 1, .inr ⟨by omega, rfl, rfl⟩, fun after => ?_⟩
    rw [hrefs, hlast, if_neg hfirst]

theorem agreesOn_lastMonth (hnorm : NormalizesDates normalizeKey) (hyear : 1 ≤ d.year ∧ d.year < 10000) :
    AgreesOn normalizeKey d .lastMonth := by
  have hmonth := d.month_mem
  obtain ⟨year, month, hbefore, hlast⟩ := exists_lastMonth d
  have hrefs : ∀ after, (temporalRefsAt (some d) (Phrase.lastMonth.tokens ++ after)).filter (·.IsDate) =
      [⟨memoryFormatDate year month 1, .absoluteDay, 2⟩] := by
    intro after
    rw [hlast]
    rfl
  have hm : 0 ≤ month ∧ month < 100 := by omega
  have hasked : ∀ after, relativeConstraintAt d (Phrase.lastMonth.tokens ++ after) =
      some (.onDate (memoryAddMonths ⟨d.year, d.month, 0, 2⟩ (-1))) := fun _ => rfl
  have hadd : memoryAddMonths ⟨d.year, d.month, 0, 2⟩ (-1) = ⟨year, month, 1, 3⟩ := by
    simp only [memoryAddMonths]
    rw [if_neg (by omega)]
    simp only [Int.le_refl, if_true, gt_iff_lt, Int.one_pos]
    congr 1 <;> omega
  have hyear0 : 0 ≤ year ∧ year < 10000 := by omega
  rw [agreesOn_iff_satisfies hrefs (memoryTemporalInsert_date hnorm hm.1 (by omega) _ _) hasked,
    satisfies_date_iff hnorm hm (by omega), score_onDate_pos_iff, memoryDateCompare_eq_zero_iff, length_yearWord_eq_iff, hadd]
  exact ⟨.inl hyear0, Int.natAbs_of_nonneg hyear0.1, .inr ⟨rfl, .inr rfl⟩⟩

theorem agreesOn_lastYear (hnorm : NormalizesDates normalizeKey) (hyear : 1 ≤ d.year ∧ d.year < 10000) :
    AgreesOn normalizeKey d .lastYear := by
  have hformat : formatInt 4 (d.year - 1) = padded 4 (d.year - 1).natAbs := by
    rw [formatInt, if_neg (by omega)]
  have hword : IsNumber (padded 4 (d.year - 1).natAbs) := isNumber_padded (by omega) _
  have hwords : ∀ w ∈ [padded 4 (d.year - 1).natAbs], IsNumber w := by
    intro w hw
    rw [List.mem_singleton.1 hw]
    exact hword
  have hlength : (padded 4 (d.year - 1).natAbs).length = 4 := length_padded_eq_iff.2 (by omega)
  obtain ⟨hplain, -, -⟩ := hnorm [padded 4 (d.year - 1).natAbs] (List.cons_ne_nil _ _) hwords
  rw [List.intercalate_singleton, List.intercalate_singleton] at hplain
  have hinsert : memoryTemporalInsert normalizeKey ⟨formatInt 4 (d.year - 1), .year, 22 / 10⟩ =
      some ⟨padded 4 (d.year - 1).natAbs, .year, 22 / 10⟩ := by
    rw [memoryTemporalInsert, hformat, hplain, if_neg hword.1]
  have hparse : memoryParseTemporalRefDate normalizeKey ⟨padded 4 (d.year - 1).natAbs, .year, 22 / 10⟩ =
      some ⟨(d.year - 1).natAbs, 0, 0, 1⟩ := by
    have hsplit := memorySplitTokens_intercalate (List.cons_ne_nil _ _) hwords (n := 8) (by simp)
    rw [List.intercalate_singleton, List.map_singleton, List.take_of_length_le (by omega)] at hsplit
    rw [memoryParseTemporalRefDate, if_neg hword.1, hplain, hsplit, memoryParseDateTokens_year hword hlength, readDigits_padded]
    rfl
  rw [agreesOn_iff_satisfies (fun _ => rfl) hinsert (c := .onDate ⟨d.year + -1, 0, 0, 1⟩) (fun _ => rfl)]
  refine ⟨_, hparse, (score_onDate_pos_iff _ _).2 ((memoryDateCompare_eq_zero_iff _ _).2 ⟨?_, .inl rfl⟩)⟩
  simp only
  omega

/-- On every day of a year from 1 to 9999 the date that a phrase indexes satisfies the constraint that it
makes exactly when the phrase coincides. -/
theorem agreesOn_iff (hnorm : NormalizesDates normalizeKey) (d : Date) (hyear : 1 ≤ d.year ∧ d.year < 10000) (p : Phrase) :
    AgreesOn normalizeKey d p ↔ p.Coincides d := by
  have hlo := Date.year_lt_iff (d := d) (y := 1)
  have hhi := Date.year_lt_iff (d := d) (y := 10000)
  have hzero := Date.beforeYear_zero
  rw [Date.beforeYear_one] at hlo
  cases p with
  | today =>
    rw [agreesOn_shift_iff (k := 0) (q := 26 / 10) hnorm (fun _ => rfl) (fun _ => rfl)]
    exact iff_of_true (by omega) trivial
  | yesterday =>
    rw [agreesOn_shift_iff (k := -1) (q := 26 / 10) hnorm (fun _ => rfl) (fun _ => rfl)]
    exact iff_of_true (by omega) trivial
  | tomorrow =>
    rw [agreesOn_shift_iff (k := 1) (q := 26 / 10) hnorm (fun _ => rfl) (fun _ => rfl), Phrase.Coincides]
    omega
  | lastWeek => exact iff_of_true (agreesOn_lastWeek hnorm hyear) trivial
  | lastMonth => exact iff_of_true (agreesOn_lastMonth hnorm hyear) trivial
  | lastYear => exact iff_of_true (agreesOn_lastYear hnorm hyear) trivial
  | lastWeekday w => exact agreesOn_lastWeekday_iff hnorm hyear w
  | ago amount unit plural =>
    have hpos := amount.atoi_pos
    cases unit with
    | day =>
      rw [agreesOn_shift_iff (k := -atoi amount.token) (q := 25 / 10) hnorm
        (fun after => by rw [temporalRefsAt_ago]; cases plural <;> rfl)
        (fun after => by rw [relativeConstraintAt_ago]; cases plural <;> rfl), Phrase.Coincides]
      omega
    | week =>
      rw [agreesOn_shift_iff (k := -(atoi amount.token * 7)) (q := 24 / 10) hnorm
        (fun after => by rw [temporalRefsAt_ago]; cases plural <;> rfl)
        (fun after => by rw [relativeConstraintAt_ago, ← Int.neg_mul]; cases plural <;> rfl), Phrase.Coincides]
      omega
    | month => exact agreesOn_months_iff hnorm hyear amount plural

/-! ## A Friday -/

/-- A `normalize_key` for texts of digits, hyphens and blanks. -/
def hyphensToBlanks (s : Text) : Text := (s.map fun c => if c = 45 then 32 else c).dropWhile (· = 32)

theorem map_number {w : Text} (hw : IsNumber w) : w.map (fun c => if c = 45 then 32 else c) = w := by
  refine (List.map_congr_left fun c hc => ?_).trans (List.map_id w)
  have hdigit := List.all_eq_true.1 hw.2 c hc
  rw [id, if_neg]
  rintro rfl
  exact absurd hdigit (by decide)

theorem map_intercalate_words {sep : Text} (hsep : sep.map (fun c => if c = 45 then 32 else c) = text " ")
    {words : List Text} (hwords : ∀ w ∈ words, IsNumber w) :
    (sep.intercalate words).map (fun c => if c = 45 then 32 else c) = (text " ").intercalate words := by
  induction words with
  | nil => rfl
  | cons w words ih =>
    have hw := map_number (hwords w List.mem_cons_self)
    cases words with
    | nil => rw [List.intercalate_singleton, List.intercalate_singleton, hw]
    | cons w' words =>
      rw [List.intercalate_cons_cons, List.intercalate_cons_cons, List.map_append, List.map_append, hw, hsep,
        ih fun v hv => hwords v (List.mem_cons_of_mem _ hv)]

theorem dropWhile_words {words : List Text} (hne : words ≠ []) (hwords : ∀ w ∈ words, IsNumber w) :
    ((text " ").intercalate words).dropWhile (· = 32) = (text " ").intercalate words := by
  cases words with
  | nil => exact absurd rfl hne
  | cons w words =>
    obtain ⟨hw, hall⟩ := hwords w List.mem_cons_self
    cases w with
    | nil => exact absurd rfl hw
    | cons c cs =>
      have hc : c ≠ 32 := by
        rintro rfl
        exact absurd (List.all_eq_true.1 hall 32 List.mem_cons_self) (by decide)
      cases words with
      | nil => simp [hc]
      | cons w' words => simp [List.intercalate_cons_cons, hc]

theorem hyphensToBlanks_normalizes : NormalizesDates hyphensToBlanks := by
  intro words hne hwords
  have hdrop := dropWhile_words hne hwords
  refine ⟨?_, ?_, ?_⟩
  · rw [hyphensToBlanks, map_intercalate_words rfl hwords, hdrop]
  · rw [hyphensToBlanks, List.map_append, map_intercalate_words rfl hwords]
    exact hdrop
  · rw [hyphensToBlanks, map_intercalate_words rfl hwords, hdrop]

/-- The 10th of May 2024. -/
def friday : Date := ⟨2024, 5, 10, by decide, by decide⟩

/-- On a Friday "last Monday" is the 6th of May in the index, and the 29th of April in the query. -/
theorem lastMonday_misses : NormalizesDates hyphensToBlanks ∧ ¬ AgreesOn hyphensToBlanks friday (.lastWeekday 1) := by
  refine ⟨hyphensToBlanks_normalizes, fun h => ?_⟩
  have hle := (agreesOn_lastWeekday_iff hyphensToBlanks_normalizes (by decide) 1).1 h
  exact absurd hle (by decide)

theorem lastSaturday_agrees : AgreesOn hyphensToBlanks friday (.lastWeekday 6) :=
  (agreesOn_iff hyphensToBlanks_normalizes friday (by decide) (.lastWeekday 6)).2 (show friday.weekday ≤ (6 : ℤ) by decide)

end AimeeMemory.Recall
