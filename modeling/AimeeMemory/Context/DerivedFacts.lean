import AimeeMemory.Context.Hint
import AimeeMemory.Lib.Sorting
import AimeeMemory.Recall.RelativeDates
import Mathlib.Algebra.Order.BigOperators.Group.List
import Mathlib.Algebra.Order.Group.Int
import Mathlib.Data.Finset.Card

/-!
# Facts derived from dates

`memory_derive_facts` of `memory_context.c`: the dates of the relations of the candidates are
counted, for a question that asks for a count, or sorted, for one that asks for an interval: the
latest, the days from it to today, and the gaps between dates in turn. Days are counted through the
local time of `mktime`, as standard time all year.

## What is proved

* **`memoryDeriveFacts_calendar`**: with at most 64 dates for a candidate and 256 in all, a count is
  that of the dates, or of the candidates where there are no dates; an interval is what the calendar
  says of the dates from 1900 on, as long as the standard time of the zone does not move forward, or
  back by a day, between them.
* **`undated_count`**: three events counted from no date.

## Honest scope

The texts of a fact have room in it, and the clock stands at 1970 or later. A time zone says how far
its standard time and its summer time are ahead of UTC on a day; `time_t` does not end.
-/

namespace AimeeMemory.Context

open AimeeMemory.Core AimeeMemory.Lib AimeeMemory.Recall

/-! ### Days between dates -/

/-- `struct tm`, with its year and its month counted as in a date. -/
structure Tm where
  year : ℤ
  month : ℤ
  day : ℤ
  isdst : ℤ

/-- A local time zone, by day numbers. No zone is a second ahead of UTC, nor a day. -/
structure Zone where
  standard : ℤ → ℤ
  saving : ℤ → ℤ
  standard_mem : ∀ day, -86399 < standard day ∧ standard day < 86400 ∧ standard day ≠ 1

def Tm.dayNumber (tm : Tm) : ℤ := Date.beforeYear tm.year + Date.beforeMonth tm.year tm.month + tm.day

/-- `mktime`, of the start of a day. -/
def Zone.mktime (zone : Zone) (tm : Tm) : ℤ :=
  86400 * (tm.dayNumber - 719163) - zone.standard tm.dayNumber - if 0 < tm.isdst then zone.saving tm.dayNumber else 0

/-- What `%d` leaves of a text. -/
def afterInt (s : Text) : Text :=
  match s.dropWhile isspace with
  | 45 :: rest => rest.dropWhile isdigit
  | 43 :: rest => rest.dropWhile isdigit
  | rest => rest.dropWhile isdigit

def afterHyphen : Text → Option Text
  | 45 :: rest => some rest
  | _ => none

/-- `sscanf` with `%d-%d-%d`. -/
def scanDate (s : Text) : Option (ℤ × ℤ × ℤ) := do
  let y ← scanInt s
  let s ← afterHyphen (afterInt s)
  let m ← scanInt s
  let s ← afterHyphen (afterInt s)
  let d ← scanInt s
  some (y, m, d)

/-- `parse_iso8601_date`. -/
def parseIso8601Date (s : Text) : Option Tm :=
  match scanDate s with
  | some (y, m, d) => if y < 1900 ∨ m < 1 ∨ 12 < m ∨ d < 1 ∨ 31 < d then none else some ⟨y, m, d, 0⟩
  | none => none

/-- `days_between`. -/
def daysBetween (zone : Zone) (earlier later : Text) : Option ℤ := do
  let a ← parseIso8601Date earlier
  let b ← parseIso8601Date later
  let ta := zone.mktime a
  let tb := zone.mktime b
  if ta = -1 ∨ tb = -1 then none else some ((tb - ta).tdiv 86400)

/-! ### Facts -/

structure DerivedFact where
  label : Text
  value : Text
  deriving DecidableEq, Repr

structure DeriverEnv where
  /-- `config_memory_derive_facts_enabled`. -/
  enabled : Bool
  /-- `db2_memory_relation_dates_for_memory`. -/
  relationDates : ℤ → List Text
  zone : Zone
  /-- The day of the clock, in UTC. -/
  today : Date
  today_year : 1970 ≤ today.year
  /-- `MEMORY_DERIVED_MAX_FACTS`. -/
  maxFacts : ℕ
  maxFacts_gt : 4 < maxFacts

/-- A date as it is written. -/
def dateText (d : Date) : Text := memoryFormatDate d.year d.month d.day

def gatherDates (env : DeriverEnv) (candidateIds : List ℤ) : List Text :=
  ((candidateIds.flatMap fun id => (env.relationDates id).take 64).take 256).map (·.take 31)

/-- The dates that are not among those before them. -/
def countUnique : List Text → List Text → ℕ
  | _, [] => 0
  | seen, date :: dates => (if date ∈ seen then 0 else 1) + countUnique (seen ++ [date]) dates

def addFact (env : DeriverEnv) (facts : List DerivedFact) (fact : DerivedFact) : List DerivedFact :=
  if facts.length < env.maxFacts then facts ++ [fact] else facts

/-- A number of days. -/
def daysText (n : ℤ) : Text := text (toString n) ++ text " days"

def quantitativeFacts (env : DeriverEnv) (dates : List Text) (candCount : ℕ) : List DerivedFact :=
  let unique := countUnique [] dates
  addFact env [] ⟨text "Event count (from retrieved evidence)", text (toString (if 0 < unique then unique else candCount))⟩

/-- What a scan over the gaps knows. -/
structure GapScan where
  minGap : ℤ
  maxGap : ℤ
  sumGap : ℤ
  gapCount : ℤ

def GapScan.start : GapScan := ⟨2147483647, -2147483647, 0, 0⟩

def GapScan.step (g : GapScan) (gap : ℤ) : GapScan :=
  let gap := if gap < 0 then -gap else gap
  { minGap := if gap < g.minGap then gap else g.minGap
    maxGap := if g.maxGap < gap then gap else g.maxGap
    sumGap := g.sumGap + gap
    gapCount := g.gapCount + 1 }

/-- The gaps between dates in turn, where they can be told. -/
def GapScan.run (zone : Zone) (dates : List Text) : GapScan :=
  (dates.zip dates.tail).foldl (fun g pair =>
    match daysBetween zone pair.1 pair.2 with
    | some gap => g.step gap
    | none => g) .start

def addGapFacts (env : DeriverEnv) (facts : List DerivedFact) (dates : List Text) : List DerivedFact :=
  if 2 ≤ dates.length then
    let g := GapScan.run env.zone dates
    if 0 < g.gapCount ∧ facts.length + 2 < env.maxFacts then
      facts ++
        [⟨text "Gap between events (min/max)", text (toString g.minGap) ++ text " / " ++ daysText g.maxGap⟩,
          ⟨text "Average gap between events", daysText (g.sumGap.tdiv g.gapCount)⟩]
    else facts
  else facts

def temporalIntervalFacts (env : DeriverEnv) (dates : List Text) : List DerivedFact :=
  let dates := exchangeSort byteValues dates
  match dates.getLast? with
  | none => []
  | some latest =>
    let facts := addFact env [] ⟨text "Most recent event date", latest⟩
    let facts :=
      match daysBetween env.zone latest (dateText env.today) with
      | some delta =>
        addFact env facts ⟨text "Days since most recent event", daysText (if delta < 0 then -delta else delta)⟩
      | none => facts
    addGapFacts env facts dates

/-- `memory_derive_facts`. -/
def memoryDeriveFacts (env : DeriverEnv) (query : Option Text) (candidateIds : List ℤ) : List DerivedFact :=
  match query with
  | none => []
  | some query =>
    if env.enabled = false ∨ candidateIds = [] then []
    else
      match memoryClassifyDeriverShape query with
      | .quantitative => quantitativeFacts env (gatherDates env candidateIds) candidateIds.length
      | .temporalInterval => temporalIntervalFacts env (gatherDates env candidateIds)
      | .unknown => []

/-! ### What the calendar says -/

def sortedDates (ds : List Date) : List Date := ds.mergeSort fun d e => d.dayNumber ≤ e.dayNumber

/-- The days between dates in turn. -/
def gaps (ds : List Date) : List ℤ := (ds.zip ds.tail).map fun pair => pair.2.dayNumber - pair.1.dayNumber

/-- The least, the greatest and the average gap, where there is one. -/
def gapFacts : List ℤ → List DerivedFact
  | [] => []
  | g :: gs =>
    [⟨text "Gap between events (min/max)", text (toString (gs.foldl min g)) ++ text " / " ++ daysText (gs.foldl max g)⟩,
      ⟨text "Average gap between events", daysText ((g :: gs).sum / (g :: gs).length)⟩]

/-- The facts that dates have by the calendar: the latest, the days between it and today, and the
gaps. Days are counted from 1900 on. -/
def calendarFacts (today : Date) (ds : List Date) : List DerivedFact :=
  match (sortedDates ds).getLast? with
  | none => []
  | some latest =>
    ⟨text "Most recent event date", dateText latest⟩ ::
      (if 1900 ≤ latest.year then
        [⟨text "Days since most recent event", daysText |today.dayNumber - latest.dayNumber|⟩] else []) ++
      gapFacts (gaps ((sortedDates ds).filter fun d => 1900 ≤ d.year))

/-- The dates that are attached to the candidates. -/
structure Attached (env : DeriverEnv) (candidateIds : List ℤ) (dates : ℤ → List Date) : Prop where
  rows : ∀ id ∈ candidateIds, env.relationDates id = (dates id).map dateText
  perCandidate : ∀ id ∈ candidateIds, (dates id).length ≤ 64
  years : ∀ id ∈ candidateIds, ∀ d ∈ dates id, 0 ≤ d.year ∧ d.year < 10000
  total : (candidateIds.flatMap dates).length ≤ 256

/-- The standard time of a zone does not move forward between dates, nor back by a day. -/
def StandardKept (zone : Zone) (ds : List Date) : Prop :=
  ∀ d ∈ ds, ∀ e ∈ ds, d.dayNumber ≤ e.dayNumber →
    zone.standard e.dayNumber ≤ zone.standard d.dayNumber ∧ zone.standard d.dayNumber < zone.standard e.dayNumber + 86400

/-! ### Reading a date -/

theorem afterInt_append {w rest : Text} (h : IsNumber w) (hrest : rest.head?.all (!isdigit ·)) :
    afterInt (w ++ rest) = rest := by
  have hdrop := dropWhile_isspace_number h rest
  obtain ⟨hne, hall⟩ := h
  have hdropDigits : (w ++ rest).dropWhile isdigit = rest := by
    rw [List.dropWhile_append_of_pos (List.all_eq_true.1 hall)]
    cases rest with
    | nil => rfl
    | cons c rest => exact List.dropWhile_cons_of_neg (by simpa using hrest)
  cases w with
  | nil => exact absurd rfl hne
  | cons c cs =>
    have hdigit : isdigit c := (List.all_eq_true.1 hall) c List.mem_cons_self
    obtain ⟨hminus, hplus⟩ := notSign_of_isdigit hdigit
    rw [afterInt, hdrop]
    split
    · rename_i heq
      exact absurd (List.cons.inj heq).1 hminus
    · rename_i heq
      exact absurd (List.cons.inj heq).1 hplus
    · exact hdropDigits

theorem scanDate_words {y m d : Text} (hy : IsNumber y) (hm : IsNumber m) (hd : IsNumber d) :
    scanDate ((text "-").intercalate [y, m, d]) = some ((readDigits y : ℤ), (readDigits m : ℤ), (readDigits d : ℤ)) := by
  have hform : (text "-").intercalate [y, m, d] = y ++ 45 :: (m ++ 45 :: d) := by
    simp [List.intercalate_cons_cons, text]
  have hhyphen : ∀ rest : Text, (45 :: rest).head?.all (!isdigit ·) := fun _ => by simp [isdigit]
  rw [hform, scanDate, scanInt_append hy (hhyphen _), afterInt_append hy (hhyphen _)]
  simp only [Option.bind_eq_bind, Option.bind_some, afterHyphen, scanInt_append hm (hhyphen _),
    afterInt_append hm (hhyphen _), scanInt_number hd]

/-- A date is read from the text that is written for it, from 1900 on. -/
theorem parseIso8601Date_dateText {d : Date} (h : 0 ≤ d.year) :
    parseIso8601Date (dateText d) = if 1900 ≤ d.year then some ⟨d.year, d.month, d.day, 0⟩ else none := by
  have hmonth := d.month_mem
  have hday := d.day_mem
  have hle := monthLength_le d.year d.month
  have hform : dateText d = (text "-").intercalate [yearWord d.year, padded 2 d.month.natAbs, padded 2 d.day.natAbs] := by
    rw [dateText, memoryFormatDate_eq _ _ _ (by omega) (by omega), if_neg (by omega), List.nil_append]
  have hscan := scanDate_words (isNumber_yearWord d.year) (isNumber_padded Nat.two_pos d.month.natAbs)
    (isNumber_padded Nat.two_pos d.day.natAbs)
  rw [parseIso8601Date, hform, hscan]
  simp only [readDigits_yearWord, readDigits_padded]
  rw [show ((d.year.natAbs : ℕ) : ℤ) = d.year by omega, show ((d.month.natAbs : ℕ) : ℤ) = d.month by omega,
    show ((d.day.natAbs : ℕ) : ℤ) = d.day by omega]
  split_ifs <;> first | rfl | omega

/-! ### The days between two dates -/

variable {zone : Zone} {d e : Date} {ds : List Date}

theorem Zone.mktime_date (zone : Zone) (d : Date) :
    zone.mktime ⟨d.year, d.month, d.day, 0⟩ = 86400 * (d.dayNumber - 719163) - zone.standard d.dayNumber := by
  show 86400 * (d.dayNumber - 719163) - zone.standard d.dayNumber - (if (0 : ℤ) < 0 then _ else 0) = _
  rw [if_neg (by omega), sub_zero]

/-- The start of a day is never a second before the epoch. -/
theorem Zone.mktime_ne (zone : Zone) (d : Date) : zone.mktime ⟨d.year, d.month, d.day, 0⟩ ≠ -1 := by
  have := zone.standard_mem d.dayNumber
  rw [zone.mktime_date]
  omega

theorem daysBetween_eq (zone : Zone) (hd : 0 ≤ d.year) (he : 0 ≤ e.year) :
    daysBetween zone (dateText d) (dateText e) =
      if 1900 ≤ d.year ∧ 1900 ≤ e.year then
        some ((86400 * (e.dayNumber - d.dayNumber) + (zone.standard d.dayNumber - zone.standard e.dayNumber)).tdiv 86400)
      else none := by
  rw [daysBetween, parseIso8601Date_dateText hd, parseIso8601Date_dateText he]
  by_cases h1 : 1900 ≤ d.year
  · by_cases h2 : 1900 ≤ e.year
    · simp only [h1, h2, and_self, if_true, Option.bind_eq_bind, Option.bind_some]
      rw [if_neg (not_or.2 ⟨zone.mktime_ne d, zone.mktime_ne e⟩), zone.mktime_date, zone.mktime_date]
      congr 2
      omega
    · simp [h1, h2]
  · simp [h1]

/-- Days and a part of a day, cut to days. -/
theorem tdiv_days {n r : ℤ} (hn : 0 ≤ n) (hr : 0 ≤ r ∧ r < 86400) : (86400 * n + r).tdiv 86400 = n := by
  rw [Int.tdiv_eq_ediv_of_nonneg (by omega)]
  omega

/-- Days are told exactly where the standard time is kept, forwards and back. -/
theorem daysBetween_kept (hkept : StandardKept zone [d, e]) (hd : 1900 ≤ d.year) (he : 1900 ≤ e.year) :
    daysBetween zone (dateText d) (dateText e) = some (e.dayNumber - d.dayNumber) := by
  rw [daysBetween_eq zone (by omega) (by omega), if_pos ⟨hd, he⟩]
  rcases le_total d.dayNumber e.dayNumber with hle | hle
  · have hstd := hkept d (by simp) e (by simp) hle
    rw [tdiv_days (by omega) (by omega)]
  · have hstd := hkept e (by simp) d (by simp) hle
    rw [← neg_neg (86400 * (e.dayNumber - d.dayNumber) + _), Int.neg_tdiv,
      show -(86400 * (e.dayNumber - d.dayNumber) + (zone.standard d.dayNumber - zone.standard e.dayNumber)) =
        86400 * (d.dayNumber - e.dayNumber) + (zone.standard e.dayNumber - zone.standard d.dayNumber) by omega,
      tdiv_days (by omega) (by omega), neg_sub]

/-! ### Sorting -/

theorem append_hyphen_lt_iff {a b s t : List ℕ} (h : a.length = b.length) :
    a ++ 45 :: s < b ++ 45 :: t ↔ a < b ∨ a = b ∧ s < t := by
  rw [append_lt_append_iff h, List.cons_lt_cons_iff]
  simp

/-- The texts of dates are in the order of the dates. -/
theorem dateText_lt_iff (hd : 0 ≤ d.year ∧ d.year < 10000) (he : 0 ≤ e.year ∧ e.year < 10000) :
    byteValues (dateText d) < byteValues (dateText e) ↔ d.dayNumber < e.dayNumber := by
  have hform : ∀ {d : Date}, 0 ≤ d.year → byteValues (dateText d) = byteValues (padded 4 d.year.natAbs) ++
      45 :: (byteValues (padded 2 d.month.natAbs) ++ 45 :: byteValues (padded 2 d.day.natAbs)) := by
    intro d h
    have hmonth := d.month_mem
    have hday := d.day_mem
    rw [dateText, memoryFormatDate, formatInt, formatInt, formatInt, if_neg (by omega), if_neg (by omega),
      if_neg (by omega)]
    simp [byteValues, text]
  have hlen : ∀ {width n m : ℕ}, n < 10 ^ width → m < 10 ^ width →
      (byteValues (padded width n)).length = (byteValues (padded width m)).length := by
    intro width n m hn hm
    rw [byteValues, byteValues, List.length_map, List.length_map, length_padded_eq_iff.2 hn, length_padded_eq_iff.2 hm]
  have hinj : ∀ {width n m : ℕ}, byteValues (padded width n) = byteValues (padded width m) ↔ n = m := by
    intro width n m
    refine ⟨fun h => ?_, fun h => h ▸ rfl⟩
    have hread : readDigits (padded width n) = n := readDigits_padded
    rw [← hread, byteValues_inj.1 h, readDigits_padded]
  have hdm := d.month_lt
  have hem := e.month_lt
  have hdd := d.day_lt
  have hed := e.day_lt
  rw [hform hd.1, hform he.1, append_hyphen_lt_iff (hlen (by omega) (by omega)), append_hyphen_lt_iff (hlen (by omega) (by omega)),
    padded_lt_iff (by omega) (by omega), padded_lt_iff (by omega) (by omega), padded_lt_iff (by omega) (by omega), hinj, hinj,
    ← Date.before_iff, Date.Before]
  omega

theorem sortedDates_perm (ds : List Date) : (sortedDates ds).Perm ds := List.mergeSort_perm _ _

theorem sortedDates_sorted (ds : List Date) : (sortedDates ds).Pairwise fun d e => d.dayNumber ≤ e.dayNumber := by
  have h : (sortedDates ds).Pairwise fun d e => decide (d.dayNumber ≤ e.dayNumber) = true :=
    List.pairwise_mergeSort (fun a b c hab hbc => by simp only [decide_eq_true_eq] at *; omega)
      (fun a b => by simp only [Bool.or_eq_true, decide_eq_true_eq]; omega) ds
  exact h.imp fun hle => of_decide_eq_true hle

/-- The texts are sorted as the dates are. -/
theorem exchangeSort_dateText (hyears : ∀ d ∈ ds, 0 ≤ d.year ∧ d.year < 10000) :
    exchangeSort byteValues (ds.map dateText) = (sortedDates ds).map dateText := by
  refine List.Perm.eq_of_pairwise (fun a b _ _ hab hba => byteValues_inj.1 (le_antisymm hab hba))
    (exchangeSort_sorted byteValues _) ?_ ((exchangeSort_perm _ _).trans ((sortedDates_perm ds).map dateText).symm)
  rw [List.pairwise_map]
  refine (sortedDates_sorted ds).imp_of_mem fun {a b} ha hb hle => ?_
  have ha := hyears a ((sortedDates_perm ds).mem_iff.1 ha)
  have hb := hyears b ((sortedDates_perm ds).mem_iff.1 hb)
  exact not_lt.1 fun hlt => absurd ((dateText_lt_iff hb ha).1 hlt) (by omega)

/-! ### Gaps -/

theorem gaps_cons (d e : Date) (ds : List Date) : gaps (d :: e :: ds) = (e.dayNumber - d.dayNumber) :: gaps (e :: ds) := rfl

theorem year_le_of_dayNumber_le (h : d.dayNumber ≤ e.dayNumber) : d.year ≤ e.year := by
  by_contra hlt
  have := Date.before_iff.1 (.inl (not_le.1 hlt) : e.Before d)
  omega

/-- The scan over the texts is one over the gaps from 1900 on. -/
theorem run_dateText (hsorted : ds.Pairwise fun d e => d.dayNumber ≤ e.dayNumber) (hyears : ∀ d ∈ ds, 0 ≤ d.year)
    (hkept : StandardKept zone ds) :
    GapScan.run zone (ds.map dateText) = (gaps (ds.filter fun d => 1900 ≤ d.year)).foldl GapScan.step .start := by
  rw [GapScan.run]
  generalize GapScan.start = g
  induction ds generalizing g with
  | nil => rfl
  | cons d ds ih =>
    cases ds with
    | nil =>
      rw [List.filter_cons]
      split_ifs <;> rfl
    | cons e ds =>
      obtain ⟨hd, hsorted⟩ := List.pairwise_cons.1 hsorted
      obtain ⟨hd0, hyears⟩ := List.forall_mem_cons.1 hyears
      have hde := hd e List.mem_cons_self
      have hkeptTail : StandardKept zone (e :: ds) := fun a ha b hb =>
        hkept a (List.mem_cons_of_mem _ ha) b (List.mem_cons_of_mem _ hb)
      have ih := ih hsorted hyears hkeptTail
      simp only [List.map_cons, List.tail_cons, List.zip_cons_cons, List.foldl_cons] at ih ⊢
      rw [ih]
      by_cases h1900 : 1900 ≤ d.year
      · -- all that come behind are from 1900 on as well
        have he1900 : 1900 ≤ e.year := h1900.trans (year_le_of_dayNumber_le hde)
        have hpair : StandardKept zone [d, e] := fun a ha b hb => by
          refine hkept a ?_ b ?_ <;> simp only [List.mem_cons, List.not_mem_nil, or_false] at ha hb ⊢ <;> tauto
        have hfilter : (d :: e :: ds).filter (fun d => 1900 ≤ d.year) = d :: e :: ds.filter fun d => 1900 ≤ d.year := by
          rw [List.filter_cons_of_pos (by simpa using h1900), List.filter_cons_of_pos (by simpa using he1900)]
        rw [daysBetween_kept hpair h1900 he1900, hfilter, gaps_cons, List.foldl_cons,
          List.filter_cons_of_pos (by simpa using he1900)]
      · have hfilter : (d :: e :: ds).filter (fun d => 1900 ≤ d.year) = (e :: ds).filter fun d => 1900 ≤ d.year :=
          List.filter_cons_of_neg (by simpa using h1900)
        rw [daysBetween_eq zone hd0 (hyears e List.mem_cons_self), if_neg (fun h => h1900 h.1), hfilter]

/-- A gap between sorted dates. -/
theorem mem_gaps (hsorted : ds.Pairwise fun d e => d.dayNumber ≤ e.dayNumber) {gap : ℤ} (h : gap ∈ gaps ds) :
    ∃ d ∈ ds, ∃ e ∈ ds, d.dayNumber ≤ e.dayNumber ∧ gap = e.dayNumber - d.dayNumber := by
  induction ds with
  | nil => exact absurd h List.not_mem_nil
  | cons d ds ih =>
    cases ds with
    | nil => exact absurd h List.not_mem_nil
    | cons e ds =>
      obtain ⟨hd, hsorted⟩ := List.pairwise_cons.1 hsorted
      rw [gaps_cons] at h
      rcases List.mem_cons.1 h with rfl | h
      · exact ⟨d, by simp, e, by simp, hd e List.mem_cons_self, rfl⟩
      · obtain ⟨a, ha, b, hb, hab⟩ := ih hsorted h
        exact ⟨a, List.mem_cons_of_mem _ ha, b, List.mem_cons_of_mem _ hb, hab⟩

/-- Dates of four digits are less than four million days apart. -/
theorem dayNumber_sub_lt (hd : 0 ≤ d.year) (he : e.year < 10000) : e.dayNumber - d.dayNumber < 4000000 := by
  have hupper : e.dayNumber ≤ Date.beforeYear 10000 := Date.year_lt_iff.1 he
  have hlower : Date.beforeYear 0 ≤ Date.beforeYear d.year := Date.beforeYear_mono hd
  have hd := d.lt_dayNumber
  have hmax : Date.beforeYear 10000 = 3652059 := by decide
  rw [Date.beforeYear_zero] at hlower
  omega

theorem step_of_nonneg (g : GapScan) {gap : ℤ} (h : 0 ≤ gap) :
    g.step gap = ⟨min g.minGap gap, max g.maxGap gap, g.sumGap + gap, g.gapCount + 1⟩ := by
  simp only [GapScan.step, if_neg (not_lt.2 h), GapScan.mk.injEq, and_true]
  constructor
  · split_ifs <;> omega
  · split_ifs <;> omega

theorem foldl_step {gs : List ℤ} (h : ∀ gap ∈ gs, 0 ≤ gap) (g : GapScan) :
    gs.foldl GapScan.step g =
      ⟨gs.foldl min g.minGap, gs.foldl max g.maxGap, g.sumGap + gs.sum, g.gapCount + gs.length⟩ := by
  induction gs generalizing g with
  | nil => simp
  | cons gap gs ih =>
    obtain ⟨hgap, hgs⟩ := List.forall_mem_cons.1 h
    rw [List.foldl_cons, ih hgs, step_of_nonneg g hgap]
    simp only [List.foldl_cons, List.sum_cons, List.length_cons, GapScan.mk.injEq, true_and]
    push_cast
    omega

/-- What the scan knows after one gap or more. -/
theorem foldl_step_start {gap : ℤ} {gs : List ℤ} (h : ∀ g ∈ gap :: gs, 0 ≤ g) (hlt : gap < 4000000) :
    (gap :: gs).foldl GapScan.step .start =
      ⟨gs.foldl min gap, gs.foldl max gap, (gap :: gs).sum, (gap :: gs).length⟩ := by
  obtain ⟨hgap, hgs⟩ := List.forall_mem_cons.1 h
  rw [List.foldl_cons, foldl_step hgs, step_of_nonneg _ hgap]
  simp only [GapScan.start, List.sum_cons, List.length_cons, GapScan.mk.injEq]
  rw [min_eq_right (by omega), max_eq_right (by omega)]
  push_cast
  exact ⟨rfl, rfl, by omega, by omega⟩

/-! ### Counting -/

theorem countUnique_eq (seen dates : List Text) :
    countUnique seen dates = (dates.toFinset \ seen.toFinset).card := by
  induction dates generalizing seen with
  | nil => simp [countUnique]
  | cons date dates ih =>
    rw [countUnique, ih]
    by_cases hseen : date ∈ seen
    · rw [if_pos hseen, Nat.zero_add]
      congr 1
      ext x
      simp only [List.toFinset_cons, List.toFinset_append, List.toFinset_nil, Finset.mem_sdiff, Finset.mem_insert,
        Finset.mem_union, List.mem_toFinset, Finset.notMem_empty]
      grind
    · have hsplit : (date :: dates).toFinset \ seen.toFinset =
          insert date (dates.toFinset \ (seen ++ [date]).toFinset) := by
        ext x
        simp only [List.toFinset_cons, List.toFinset_append, List.toFinset_nil, Finset.mem_sdiff, Finset.mem_insert,
          Finset.mem_union, List.mem_toFinset, Finset.notMem_empty]
        grind
      rw [if_neg hseen, hsplit, Finset.card_insert_of_notMem (by simp), Nat.add_comm]

theorem dateText_inj (hd : 0 ≤ d.year ∧ d.year < 10000) (he : 0 ≤ e.year ∧ e.year < 10000) (h : dateText d = dateText e) :
    d = e := by
  have hlt := dateText_lt_iff hd he
  have hgt := dateText_lt_iff he hd
  rw [h] at hlt hgt
  have hirrefl := lt_irrefl (byteValues (dateText e))
  exact Date.dayNumber_inj.1 (by have := mt hlt.2 hirrefl; have := mt hgt.2 hirrefl; omega)

/-- The texts are counted as the dates are. -/
theorem countUnique_dateText (hyears : ∀ d ∈ ds, 0 ≤ d.year ∧ d.year < 10000) :
    countUnique [] (ds.map dateText) = ds.toFinset.card := by
  have himage : (ds.map dateText).toFinset = ds.toFinset.image dateText := by
    ext x
    simp
  rw [countUnique_eq, List.toFinset_nil, Finset.sdiff_empty, himage]
  refine Finset.card_image_of_injOn fun d hd e he => dateText_inj (hyears d ?_) (hyears e ?_)
  · exact List.mem_toFinset.1 (Finset.mem_coe.1 hd)
  · exact List.mem_toFinset.1 (Finset.mem_coe.1 he)

/-! ### The facts -/

variable {env : DeriverEnv} {candidateIds : List ℤ} {dates : ℤ → List Date}

theorem length_dateText (hd : 0 ≤ d.year ∧ d.year < 10000) : (dateText d).length = 10 := by
  have hmonth := d.month_mem
  have hday := d.day_mem
  have hm := d.month_lt
  have hd' := d.day_lt
  have h4 : (padded 4 d.year.natAbs).length = 4 := length_padded_eq_iff.2 (by omega)
  have h2 : (padded 2 d.month.natAbs).length = 2 := length_padded_eq_iff.2 (by omega)
  have h2' : (padded 2 d.day.natAbs).length = 2 := length_padded_eq_iff.2 (by omega)
  rw [dateText, memoryFormatDate, formatInt, formatInt, formatInt, if_neg (by omega), if_neg (by omega), if_neg (by omega)]
  simp [h4, h2, h2', text]

/-- All dates of the candidates are gathered. -/
theorem gatherDates_eq (h : Attached env candidateIds dates) :
    gatherDates env candidateIds = (candidateIds.flatMap dates).map dateText := by
  have hrows : (candidateIds.flatMap fun id => (env.relationDates id).take 64) =
      (candidateIds.flatMap dates).map dateText := by
    rw [List.map_flatMap]
    refine List.flatMap_congr fun id hid => ?_
    rw [h.rows id hid, List.take_of_length_le (by rw [List.length_map]; exact h.perCandidate id hid)]
  rw [gatherDates, hrows, List.take_of_length_le (by rw [List.length_map]; exact h.total), List.map_map]
  refine List.map_congr_left fun d hd => ?_
  obtain ⟨id, hid, hd⟩ := List.mem_flatMap.1 hd
  have hlen := length_dateText (h.years id hid d hd)
  exact List.take_of_length_le (by omega)

theorem length_gaps (ds : List Date) : (gaps ds).length = ds.length - 1 := by
  simp [gaps]

/-- What is said of the gaps. -/
theorem gapScan_facts {facts : List DerivedFact} (hfacts : facts.length ≤ 2)
    (hsorted : ds.Pairwise fun d e => d.dayNumber ≤ e.dayNumber) (hyears : ∀ d ∈ ds, 0 ≤ d.year ∧ d.year < 10000)
    (hkept : StandardKept env.zone ds) :
    addGapFacts env facts (ds.map dateText) = facts ++ gapFacts (gaps (ds.filter fun d => 1900 ≤ d.year)) := by
  have hmax := env.maxFacts_gt
  have hrun := run_dateText hsorted (fun d hd => (hyears d hd).1) hkept
  have hlater : (ds.filter fun d => 1900 ≤ d.year).Pairwise fun d e => d.dayNumber ≤ e.dayNumber :=
    hsorted.sublist List.filter_sublist
  have hlen : (ds.filter fun d => 1900 ≤ d.year).length ≤ ds.length := List.length_filter_le _ _
  have hcount := length_gaps (ds.filter fun d => 1900 ≤ d.year)
  cases hgaps : gaps (ds.filter fun d => 1900 ≤ d.year) with
  | nil =>
    rw [hgaps] at hrun
    rw [addGapFacts, hrun]
    simp [GapScan.start, gapFacts]
  | cons gap gs =>
    have hmem : ∀ g ∈ gap :: gs, 0 ≤ g ∧ g < 4000000 := by
      intro g hg
      rw [← hgaps] at hg
      obtain ⟨a, ha, b, hb, hle, rfl⟩ := mem_gaps hlater hg
      have hlt := dayNumber_sub_lt (hyears a (List.mem_of_mem_filter ha)).1 (hyears b (List.mem_of_mem_filter hb)).2
      omega
    have hfold := foldl_step_start (fun g hg => (hmem g hg).1) (hmem gap List.mem_cons_self).2
    have hsum : 0 ≤ (gap :: gs).sum := List.sum_nonneg fun g hg => (hmem g hg).1
    rw [hgaps] at hrun hcount
    rw [List.length_cons] at hcount
    rw [addGapFacts, if_pos (by rw [List.length_map]; omega), hrun, hfold]
    dsimp only
    rw [if_pos ⟨by rw [List.length_cons]; omega, by omega⟩, Int.tdiv_eq_ediv_of_nonneg hsum]
    rfl

/-- An interval is what the calendar says of the dates. -/
theorem temporalIntervalFacts_eq (hyears : ∀ d ∈ ds, 0 ≤ d.year ∧ d.year < 10000)
    (hkept : StandardKept env.zone (env.today :: ds)) :
    temporalIntervalFacts env (ds.map dateText) = calendarFacts env.today ds := by
  have hmax := env.maxFacts_gt
  have htoday := env.today_year
  rw [temporalIntervalFacts, calendarFacts, exchangeSort_dateText hyears]
  dsimp only
  rw [List.getLast?_map]
  cases hlast : (sortedDates ds).getLast? with
  | none => rfl
  | some latest =>
    have hmem : ∀ d ∈ sortedDates ds, d ∈ ds := fun d hd => (sortedDates_perm ds).mem_iff.1 hd
    have hlatest := hmem latest (List.mem_of_getLast? hlast)
    have hkeptSorted : StandardKept env.zone (sortedDates ds) := fun a ha b hb =>
      hkept a (List.mem_cons_of_mem _ (hmem a ha)) b (List.mem_cons_of_mem _ (hmem b hb))
    have hfirst : addFact env [] ⟨text "Most recent event date", dateText latest⟩ =
        [⟨text "Most recent event date", dateText latest⟩] := if_pos (by rw [List.length_nil]; omega)
    rw [Option.map_some]
    dsimp only
    rw [hfirst]
    by_cases h1900 : 1900 ≤ latest.year
    · have hpair : StandardKept env.zone [latest, env.today] := fun a ha b hb => by
        refine hkept a ?_ b ?_ <;> simp only [List.mem_cons, List.not_mem_nil, or_false] at ha hb ⊢
        · rcases ha with rfl | rfl
          · exact .inr hlatest
          · exact .inl rfl
        · rcases hb with rfl | rfl
          · exact .inr hlatest
          · exact .inl rfl
      have habs : (if env.today.dayNumber - latest.dayNumber < 0 then -(env.today.dayNumber - latest.dayNumber)
          else env.today.dayNumber - latest.dayNumber) = |env.today.dayNumber - latest.dayNumber| := by
        rcases lt_or_ge (env.today.dayNumber - latest.dayNumber) 0 with hlt | hge
        · rw [if_pos hlt, abs_of_neg hlt]
        · rw [if_neg (not_lt.2 hge), abs_of_nonneg hge]
      have hsecond : addFact env [⟨text "Most recent event date", dateText latest⟩]
          ⟨text "Days since most recent event", daysText |env.today.dayNumber - latest.dayNumber|⟩ =
            [⟨text "Most recent event date", dateText latest⟩,
              ⟨text "Days since most recent event", daysText |env.today.dayNumber - latest.dayNumber|⟩] :=
        if_pos (by rw [List.length_singleton]; omega)
      rw [← habs] at hsecond
      rw [daysBetween_kept hpair h1900 (by omega), if_pos h1900, ← habs]
      dsimp only
      rw [hsecond]
      exact gapScan_facts (by simp) (sortedDates_sorted ds) (fun d hd => hyears d (hmem d hd)) hkeptSorted
    · have hnone : daysBetween env.zone (dateText latest) (dateText env.today) = none := by
        rw [daysBetween_eq env.zone (hyears latest hlatest).1 (by omega), if_neg (fun h => h1900 h.1)]
      rw [hnone, if_neg h1900]
      exact gapScan_facts (by simp) (sortedDates_sorted ds) (fun d hd => hyears d (hmem d hd)) hkeptSorted

/-- A count is that of the dates, or of the candidates where there are none. -/
theorem quantitativeFacts_eq (hyears : ∀ d ∈ ds, 0 ≤ d.year ∧ d.year < 10000) (candCount : ℕ) :
    quantitativeFacts env (ds.map dateText) candCount =
      [⟨text "Event count (from retrieved evidence)",
        text (toString (if ds = [] then candCount else ds.toFinset.card))⟩] := by
  have hmax := env.maxFacts_gt
  have hpos : 0 < ds.toFinset.card ↔ ¬ ds = [] := by
    rw [Finset.card_pos, List.toFinset_nonempty_iff]
  rw [quantitativeFacts, countUnique_dateText hyears, addFact, if_pos (by rw [List.length_nil]; omega)]
  by_cases hnil : ds = []
  · rw [if_neg (fun h => hpos.1 h hnil), if_pos hnil]
    rfl
  · rw [if_pos (hpos.2 hnil), if_neg hnil]
    rfl

/-- What is derived from the dates that are attached to the candidates: for a count that of the
dates, or of the candidates where there are none, and for an interval what the calendar says. -/
theorem memoryDeriveFacts_calendar {query : Text} (henabled : env.enabled = true) (hcandidates : candidateIds ≠ [])
    (hattached : Attached env candidateIds dates) :
    (memoryClassifyDeriverShape query = .quantitative →
      memoryDeriveFacts env (some query) candidateIds =
        [⟨text "Event count (from retrieved evidence)", text (toString
          (if candidateIds.flatMap dates = [] then candidateIds.length else (candidateIds.flatMap dates).toFinset.card))⟩]) ∧
    (memoryClassifyDeriverShape query = .temporalInterval →
      StandardKept env.zone (env.today :: candidateIds.flatMap dates) →
        memoryDeriveFacts env (some query) candidateIds = calendarFacts env.today (candidateIds.flatMap dates)) := by
  have hyears : ∀ d ∈ candidateIds.flatMap dates, 0 ≤ d.year ∧ d.year < 10000 := by
    intro d hd
    obtain ⟨id, hid, hd⟩ := List.mem_flatMap.1 hd
    exact hattached.years id hid d hd
  have hopen : ¬ (env.enabled = false ∨ candidateIds = []) := by simp [henabled, hcandidates]
  refine ⟨fun hshape => ?_, fun hshape hkept => ?_⟩
  · rw [memoryDeriveFacts, if_neg hopen, hshape, gatherDates_eq hattached]
    exact quantitativeFacts_eq hyears _
  · rw [memoryDeriveFacts, if_neg hopen, hshape, gatherDates_eq hattached]
    exact temporalIntervalFacts_eq hyears hkept

/-! ### Three candidates -/

/-- An hour ahead of UTC, and two in summer. -/
def hourAhead : Zone where
  standard _ := 3600
  saving _ := 3600
  standard_mem _ := by omega

/-- The 1st of March 2024. -/
def march : Date := ⟨2024, 3, 1, by decide, by decide⟩

/-- The dates of the first candidate. -/
def twoDates (id : ℤ) : List Date := if id = 1 then [friday, march] else []

/-- The store at the 10th of May 2024, with dates of the candidates. -/
def fridayEnv (dates : ℤ → List Date) : DeriverEnv where
  enabled := true
  relationDates id := (dates id).map dateText
  zone := hourAhead
  today := friday
  today_year := by decide
  maxFacts := 8
  maxFacts_gt := by decide

theorem fridayEnv_attached : Attached (fridayEnv twoDates) [1, 2, 3] twoDates :=
  ⟨fun _ _ => rfl, by decide, by decide, by decide⟩

theorem hourAhead_kept (ds : List Date) : StandardKept hourAhead ds :=
  fun _ _ _ _ _ => ⟨le_rfl, show (3600 : ℤ) < 3600 + 86400 by omega⟩

theorem twoDates_derived :
    memoryDeriveFacts (fridayEnv twoDates) (some (text "how many times?")) [1, 2, 3] =
        [⟨text "Event count (from retrieved evidence)", text (toString (if [1, 2, 3].flatMap twoDates = []
          then [1, 2, 3].length else ([1, 2, 3].flatMap twoDates).toFinset.card))⟩] ∧
      memoryDeriveFacts (fridayEnv twoDates) (some (text "how long since?")) [1, 2, 3] =
        calendarFacts friday ([1, 2, 3].flatMap twoDates) :=
  ⟨(memoryDeriveFacts_calendar rfl (by decide) fridayEnv_attached).1 (by decide),
    (memoryDeriveFacts_calendar rfl (by decide) fridayEnv_attached).2 (by decide) (hourAhead_kept _)⟩

/-- Three candidates without a date count for three events. -/
theorem undated_count :
    Attached (fridayEnv fun _ => []) [1, 2, 3] (fun _ => []) ∧
      memoryClassifyDeriverShape (text "how many times?") = .quantitative ∧
      memoryDeriveFacts (fridayEnv fun _ => []) (some (text "how many times?")) [1, 2, 3] =
        [⟨text "Event count (from retrieved evidence)", text "3"⟩] ∧
      ([1, 2, 3].flatMap fun _ : ℤ => ([] : List Date)).toFinset.card = 0 := by
  refine ⟨⟨fun _ _ => rfl, by decide, by decide, by decide⟩, by decide, by decide +kernel, by decide⟩

end AimeeMemory.Context
