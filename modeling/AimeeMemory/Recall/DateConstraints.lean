import AimeeMemory.Recall.Ranker
import AimeeMemory.Lib.Related

/-!
# The date constraint of a query

`memory_parse_temporal_constraint` of `memory_core_search.c`: a relative phrase, else the
dates behind "between", "before", "until", "after" or "since", else the first date of the
query. Where the dates are read, and by how many tokens the reader moves on, does not
depend on what a date is; so the reader is a parameter (`explicitConstraint`), and
`memory_parse_date_tokens` is the one that the function has.

## What is proved

* `memoryParseDateTokensTaking_eq`: the reader finds the dates of `memoryParseDateTokens`.
* `memoryParseDateTokensTaking_month`, `memoryParseDateTokensTaking_dayMonth`: what it reads of a date with a month.
* `memoryTokenInNorm_iff`: a term stands between blanks exactly if it is a word of the text.
* `explicitConstraint_rel`: related readers find related constraints.
-/

namespace AimeeMemory.Recall

open AimeeMemory.Core AimeeMemory.Lib
open AimeeMemory.Recall.Ranker (memoryTokenInNorm)

/-! ## A date and the tokens it takes -/

/-- The forms of a date, with the number of tokens that each takes. -/
def dateForms (tokens : List Text) : List (DateForm × ℕ) :=
  (match tokens with
  | a :: b :: c :: _ =>
    (isoForm a b c, 3) ::
      match if c.length = 4 then scanInt c else none with
      | some year => [(monthThenDay (some year) 3 a b, 3), (dayThenMonth (some year) 3 a b, 3)]
      | none => []
  | _ => []) ++
  (match tokens with
  | a :: b :: _ => [(monthThenDay none 2 a b, 2), (dayThenMonth none 2 a b, 2)]
  | _ => []) ++
  match tokens with
  | a :: _ => [(monthAlone a, 1), (yearAlone a, 1)]
  | [] => []

/-- The first form that matches, with its number of tokens. -/
def firstFormTaking : List (DateForm × ℕ) → ParsedDate → Option (ParsedDate × ℕ)
  | [], _ => none
  | (form, n) :: forms, out =>
    match form out with
    | (date, true) => some (date, n)
    | (date, false) => firstFormTaking forms date

/-- `memory_parse_date_tokens`, with the number of tokens consumed. -/
def memoryParseDateTokensTaking (tokens : List Text) : Option (ParsedDate × ℕ) :=
  firstFormTaking (dateForms tokens) {}

/-! ## The constraint -/

variable {α β : Type*}

/-- A turn of the loop over "between" and its like: the first of the tokens, with those behind it. -/
def keywordConstraintAt (read : List Text → Option (α × ℕ)) : List Text → Option (DateConstraintMode × α × Option α)
  | [] => none
  | tok :: rest =>
    if tok = text "between" then
      (read rest).bind fun first =>
        (read ((rest.drop first.2).dropWhile (· = text "and"))).map fun second => (.between, first.1, some second.1)
    else if tok = text "before" ∨ tok = text "until" then (read rest).map fun first => (.before, first.1, none)
    else if tok = text "after" ∨ tok = text "since" then (read rest).map fun first => (.after, first.1, none)
    else none

/-- The constraint that the dates of a query make, given what reads a date. -/
def explicitConstraint (read : List Text → Option (α × ℕ)) (tokens : List Text) :
    Option (DateConstraintMode × α × Option α) :=
  (tokens.tails.findSome? (keywordConstraintAt read)).or
    (tokens.tails.findSome? fun ts => (read ts).map fun date => (.onDate, date.1, none))

/-- `memory_query_wants_past`. -/
def memoryQueryWantsPast (norm : Text) : Bool :=
  ["before", "earlier", "earliest", "previous", "older"].any fun term => memoryTokenInNorm norm (text term)

/-- `memory_query_wants_future`. -/
def memoryQueryWantsFuture (norm : Text) : Bool :=
  ["after", "later", "next", "upcoming"].any fun term => memoryTokenInNorm norm (text term)

/-- `memory_parse_temporal_constraint`, asked on a day. -/
def memoryParseTemporalConstraint (today : Date) (norm : Text) (tokens : List Text) : Option TemporalConstraint :=
  (memoryParseRelativeTemporalConstraint today tokens).or
    (((explicitConstraint memoryParseDateTokensTaking tokens).map fun c => ⟨c.1, some c.2.1, c.2.2⟩).or
      (if tokens ≠ [] ∧ (memoryQueryWantsPast norm ∨ memoryQueryWantsFuture norm) then some ⟨.none, none, none⟩ else none))

/-! ## Reading a date -/

theorem map_firstFormTaking (forms : List (DateForm × ℕ)) (out : ParsedDate) :
    (firstFormTaking forms out).map Prod.fst = firstForm (forms.map Prod.fst) out := by
  induction forms generalizing out with
  | nil => rfl
  | cons form forms ih =>
    obtain ⟨form, n⟩ := form
    rw [firstFormTaking, List.map_cons, firstForm]
    simp only
    cases hform : form out with
    | mk date found =>
      cases found with
      | true => rfl
      | false => exact ih date

theorem memoryParseDateTokensTaking_eq (tokens : List Text) :
    (memoryParseDateTokensTaking tokens).map Prod.fst = memoryParseDateTokens tokens := by
  rw [memoryParseDateTokensTaking, map_firstFormTaking, memoryParseDateTokens.eq_def]
  congr 1
  match tokens with
  | [] => rfl
  | [_] => rfl
  | [_, _] => rfl
  | _ :: _ :: c :: _ => cases h : (if c.length = 4 then scanInt c else none) <;> simp [dateForms, h]

/-- The year that stands third. -/
def yearBehind : List Text → Option ℤ
  | _ :: c :: _ => if c.length = 4 then scanInt c else none
  | _ => none

theorem month_scanInt {w : Text} (h : memoryIsMonthToken w) : scanInt w = none := by
  have hall : ∀ w ∈ months, scanInt w = none := by decide
  exact hall w (of_decide_eq_true h)

theorem month_letter {w : Text} (h : memoryIsMonthToken w) : ∃ c ∈ w, isdigit c = false ∧ c ≠ 32 := by
  have hall : ∀ w ∈ months, ∃ c ∈ w, isdigit c = false ∧ c ≠ 32 := by decide
  exact hall w (of_decide_eq_true h)

theorem month_number {w : Text} (h : memoryIsMonthToken w) : 1 ≤ memoryMonthNumber w ∧ memoryMonthNumber w ≤ 12 := by
  have hall : ∀ w ∈ months, 1 ≤ memoryMonthNumber w ∧ memoryMonthNumber w ≤ 12 := by decide
  exact hall w (of_decide_eq_true h)

/-- A date in figures has digits and blanks only. -/
theorem digit_or_blank_of_iso {tok : Text} (h : memoryParseIsoDateToken tok ≠ none) {c : UInt8} (hc : c ∈ tok) :
    isdigit c ∨ c = 32 := by
  rw [memoryParseIsoDateToken] at h
  split at h
  · rename_i hiso
    obtain ⟨-, hyear, hfirst, hmonth, hsecond, hday⟩ := hiso
    have hcut : ∀ i n, tok.drop i = (tok.drop i).take n ++ tok.drop (i + n) := fun i n => by
      rw [← List.drop_drop, List.take_append_drop]
    have htok : tok = tok.take 4 ++ ((tok.drop 4).take 1 ++ ((tok.drop 5).take 2 ++ ((tok.drop 7).take 1 ++ tok.drop 8))) := by
      rw [← hcut 7 1, ← hcut 5 2, ← hcut 4 1, List.take_append_drop]
    rw [htok, hfirst, hsecond] at hc
    simp only [List.mem_append] at hc
    rcases hc with hc | hc | hc | hc | hc
    · exact .inl (List.all_eq_true.1 hyear c hc)
    · exact .inr (List.mem_singleton.1 hc)
    · exact .inl (List.all_eq_true.1 hmonth c hc)
    · exact .inr (List.mem_singleton.1 hc)
    · exact .inl (List.all_eq_true.1 hday c hc)
  · exact absurd rfl h

variable {a b c : Text} {rest : List Text} {out : ParsedDate}

/-- Three tokens are no date in figures where one of them has another letter, -/
theorem isoForm_of_letter {w : Text} (hw : w ∈ [a, b, c]) (hletter : ∃ ch ∈ w, isdigit ch = false ∧ ch ≠ 32) :
    isoForm a b c out = (out, false) := by
  obtain ⟨ch, hch, hdigit, hblank⟩ := hletter
  have hmem : ch ∈ a ++ text " " ++ b ++ text " " ++ c := by
    simp only [List.mem_cons, List.not_mem_nil, or_false] at hw
    rcases hw with rfl | rfl | rfl <;> simp [hch]
  have hnone : memoryParseIsoDateToken ((a ++ text " " ++ b ++ text " " ++ c).take 15) = none := by
    by_contra hsome
    have hshort : (a ++ text " " ++ b ++ text " " ++ c).take 15 = a ++ text " " ++ b ++ text " " ++ c := by
      refine List.take_of_length_le (Nat.not_lt.1 fun hlong => hsome ?_)
      rw [memoryParseIsoDateToken, if_neg]
      rintro ⟨hlength, -⟩
      rw [List.length_take] at hlength
      omega
    rw [hshort] at hsome
    rcases digit_or_blank_of_iso hsome hmem with h | h
    · rw [hdigit] at h
      cases h
    · exact hblank h
  rw [isoForm, hnone]

/-- What begins with a month is a date, of the day behind it and the year behind that where they are there. A day
that no month has is left in the date. -/
theorem memoryParseDateTokensTaking_month (h : memoryIsMonthToken a) :
    memoryParseDateTokensTaking (a :: rest) =
      match rest.head?.bind scanInt with
      | some day =>
        if 0 < day ∧ day ≤ 31 then
          match yearBehind rest with
          | some year => some (⟨year, memoryMonthNumber a, day, 3⟩, 3)
          | none => some (⟨0, memoryMonthNumber a, day, 2⟩, 2)
        else some (⟨(yearBehind rest).getD 0, memoryMonthNumber a, day, 2⟩, 1)
      | none => some (⟨0, memoryMonthNumber a, 0, 2⟩, 1) := by
  have hscan := month_scanInt h
  have hpos : 0 < memoryMonthNumber a := by
    have := month_number h
    omega
  have hiso : ∀ b c out, isoForm a b c out = (out, false) := fun b c out =>
    isoForm_of_letter (w := a) List.mem_cons_self (month_letter h)
  match rest with
  | [] => simp [memoryParseDateTokensTaking, dateForms, firstFormTaking, monthAlone, h]
  | [b] =>
    simp only [List.head?_cons, Option.bind_some, yearBehind]
    cases hb : scanInt b with
    | none =>
      simp [memoryParseDateTokensTaking, dateForms, firstFormTaking, monthThenDay, dayThenMonth, monthAlone, h, hb, hscan]
    | some day =>
      by_cases hday : 0 < day ∧ day ≤ 31 <;>
        simp [memoryParseDateTokensTaking, dateForms, firstFormTaking, monthThenDay, dayThenMonth, monthAlone, h, hb, hscan,
          hday, hpos]
  | b :: c :: rest =>
    simp only [List.head?_cons, Option.bind_some, yearBehind]
    cases hy : (if c.length = 4 then scanInt c else none) <;> cases hb : scanInt b with
    | none =>
      simp [memoryParseDateTokensTaking, dateForms, firstFormTaking, monthThenDay, dayThenMonth, monthAlone, h, hb, hscan, hy,
        hiso]
    | some day =>
      by_cases hday : 0 < day ∧ day ≤ 31 <;>
        simp [memoryParseDateTokensTaking, dateForms, firstFormTaking, monthThenDay, dayThenMonth, monthAlone, h, hb, hscan,
          hday, hpos, hy, hiso]

/-- A number before a month is its day, where a month has such a day; else it is a year alone, if it can be one, and
what was read of day, month and year is left in the date. -/
theorem memoryParseDateTokensTaking_dayMonth {n : ℤ} (ha : memoryIsMonthToken a = false) (hn : scanInt a = some n)
    (hb : memoryIsMonthToken b) :
    memoryParseDateTokensTaking (a :: b :: rest) =
      if 0 < n ∧ n ≤ 31 then
        match yearBehind (b :: rest) with
        | some year => some (⟨year, memoryMonthNumber b, n, 3⟩, 3)
        | none => some (⟨0, memoryMonthNumber b, n, 2⟩, 2)
      else if a.length = 4 then some (⟨n, memoryMonthNumber b, n, 1⟩, 1)
      else none := by
  have hpos : 0 < memoryMonthNumber b := by
    have := month_number hb
    omega
  have hiso : ∀ c out, isoForm a b c out = (out, false) := fun c out =>
    isoForm_of_letter (w := b) (by simp) (month_letter hb)
  match rest with
  | [] =>
    by_cases hday : 0 < n ∧ n ≤ 31 <;> by_cases h4 : a.length = 4 <;>
      simp [memoryParseDateTokensTaking, dateForms, firstFormTaking, monthThenDay, dayThenMonth, monthAlone, yearAlone, yearBehind,
        ha, hb, hn, hday, hpos, h4]
  | c :: rest =>
    rw [yearBehind]
    cases hy : (if c.length = 4 then scanInt c else none) <;> by_cases hday : 0 < n ∧ n ≤ 31 <;>
      by_cases h4 : a.length = 4 <;>
      simp [memoryParseDateTokensTaking, dateForms, firstFormTaking, monthThenDay, dayThenMonth, monthAlone, yearAlone, ha, hb, hn,
        hday, hpos, h4, hy, hiso]

theorem head_digit_of_iso {tok : Text} (h : memoryParseIsoDateToken tok ≠ none) : tok.head?.any isdigit := by
  rw [memoryParseIsoDateToken] at h
  split at h
  · rename_i hiso
    obtain ⟨hlength, hdigits, -⟩ := hiso
    cases tok with
    | nil => cases hlength
    | cons c cs => exact List.all_eq_true.1 hdigits c List.mem_cons_self
  · exact absurd rfl h

theorem month_digit_of_iso {tok : Text} (h : memoryParseIsoDateToken tok ≠ none) : (tok.drop 5).head?.any isdigit := by
  rw [memoryParseIsoDateToken] at h
  split at h
  · rename_i hiso
    obtain ⟨hlength, -, -, hdigits, -⟩ := hiso
    cases hdrop : tok.drop 5 with
    | nil =>
      have := List.drop_eq_nil_iff.1 hdrop
      omega
    | cons c cs =>
      rw [hdrop] at hdigits
      exact List.all_eq_true.1 hdigits c (by simp)
  · exact absurd rfl h

/-- A word that is neither a month nor a number begins no date. -/
theorem memoryParseDateTokensTaking_word (ha : memoryIsMonthToken a = false) (hn : scanInt a = none) :
    memoryParseDateTokensTaking (a :: rest) = none := by
  have hiso : ∀ b c out, isoForm a b c out = (out, false) := by
    intro b c out
    have hnone : memoryParseIsoDateToken ((a ++ text " " ++ b ++ text " " ++ c).take 15) = none := by
      by_contra hdate
      have hhead := head_digit_of_iso hdate
      cases a with
      | nil => exact absurd hhead (by simp [text, isdigit])
      | cons ch chs =>
        have hfirst : (ch :: chs).head?.any isdigit := hhead
        obtain ⟨w, post, hsplit, hw, hpost⟩ := number_append hfirst
        rw [hsplit, scanInt_append hw hpost] at hn
        cases hn
    rw [isoForm, hnone]
  rcases rest with - | ⟨b, - | ⟨c, rest⟩⟩
  · simp [memoryParseDateTokensTaking, dateForms, firstFormTaking, monthAlone, yearAlone, ha, hn]
  · simp [memoryParseDateTokensTaking, dateForms, firstFormTaking, monthThenDay, dayThenMonth, monthAlone, yearAlone, ha, hn]
  · cases hy : (if c.length = 4 then scanInt c else none) <;>
      simp [memoryParseDateTokensTaking, dateForms, firstFormTaking, monthThenDay, dayThenMonth, monthAlone, yearAlone, ha, hn, hy,
        hiso]

/-- Numbers of four, two and two digits are a date. -/
theorem memoryParseDateTokensTaking_iso (ha : IsNumber a) (hb : IsNumber b) (hc : IsNumber c) (ha4 : a.length = 4)
    (hb2 : b.length = 2) (hc2 : c.length = 2) :
    memoryParseDateTokensTaking (a :: b :: c :: rest) = some (⟨readDigits a, readDigits b, readDigits c, 3⟩, 3) := by
  have hform : isoForm a b c {} = (⟨readDigits a, readDigits b, readDigits c, 3⟩, true) := by
    rw [isoForm, List.take_of_length_le (by simp [ha4, hb2, hc2, text]),
      memoryParseIsoDateToken_join ha hb hc ha4 hb2 hc2]
  simp [memoryParseDateTokensTaking, dateForms, firstFormTaking, hform]

/-- Four digits are a year, where no number and no month stands behind them. What stands there may be left as a day. -/
theorem memoryParseDateTokensTaking_year (ha : IsNumber a) (ha4 : a.length = 4)
    (hrest : ∀ b ∈ rest.head?, memoryIsMonthToken b = false ∧ scanInt b = none) :
    ∃ day, memoryParseDateTokensTaking (a :: rest) = some (⟨readDigits a, 0, day, 1⟩, 1) := by
  have hmonth : memoryIsMonthToken a = false := memoryIsMonthToken_of_digit (head_isdigit ha)
  have hscan := scanInt_number ha
  match rest with
  | [] => exact ⟨0, by simp [memoryParseDateTokensTaking, dateForms, firstFormTaking, monthAlone, yearAlone, hmonth, hscan, ha4]⟩
  | [b] =>
    obtain ⟨hbmonth, hb⟩ := hrest b rfl
    exact ⟨readDigits a, by simp [memoryParseDateTokensTaking, dateForms, firstFormTaking, monthThenDay, dayThenMonth, monthAlone,
      yearAlone, hmonth, hbmonth, hscan, ha4]⟩
  | b :: c :: rest =>
    obtain ⟨hbmonth, hb⟩ := hrest b rfl
    have hiso : ∀ out, isoForm a b c out = (out, false) := by
      intro out
      have hnone : memoryParseIsoDateToken ((a ++ text " " ++ b ++ text " " ++ c).take 15) = none := by
        by_contra hdate
        have hdigit := month_digit_of_iso hdate
        have hjoin : a ++ text " " ++ b ++ text " " ++ c = (a ++ text " ") ++ (b ++ text " " ++ c) := by simp
        have hfive : (a ++ text " ").length = 5 := by simp [ha4, text]
        rw [List.drop_take, hjoin, ← hfive, List.drop_left, hfive] at hdigit
        cases b with
        | nil => exact absurd hdigit (show ¬ isdigit 32 = true by decide)
        | cons ch chs =>
          have hfirst : (ch :: chs).head?.any isdigit := by simpa using hdigit
          obtain ⟨w, post, hsplit, hw, hpost⟩ := number_append hfirst
          rw [hsplit, scanInt_append hw hpost] at hb
          cases hb
      rw [isoForm, hnone]
    refine ⟨readDigits a, ?_⟩
    cases hy : (if c.length = 4 then scanInt c else none) <;>
      simp [memoryParseDateTokensTaking, dateForms, firstFormTaking, monthThenDay, dayThenMonth, monthAlone, yearAlone, hmonth,
        hbmonth, hscan, ha4, hy, hiso]

/-! ## Related readers -/

/-- The words that the constraint of a query stands behind. -/
def constraintWords : List Text := ["between", "and", "before", "until", "after", "since"].map text

section Related

variable {S : Text → Text → Prop} {R : α → β → Prop} {read : List Text → Option (α × ℕ)} {read' : List Text → Option (β × ℕ)}
  {ts ts' : List Text}

/-- Constraints of one mode on related dates. -/
def ConstraintRel (R : α → β → Prop) (c : DateConstraintMode × α × Option α) (c' : DateConstraintMode × β × Option β) : Prop :=
  c.1 = c'.1 ∧ R c.2.1 c'.2.1 ∧ Option.Rel R c.2.2 c'.2.2

/-- Dates that are related, of the same number of tokens. -/
def TakenRel (R : α → β → Prop) (x : α × ℕ) (x' : β × ℕ) : Prop := R x.1 x'.1 ∧ x.2 = x'.2

variable (hwords : ∀ t t', S t t' → ∀ w ∈ constraintWords, t = w ↔ t' = w)
  (hread : ∀ ts ts', List.Forall₂ S ts ts' → Option.Rel (TakenRel R) (read ts) (read' ts'))

include hwords hread

theorem keywordConstraintAt_rel (h : List.Forall₂ S ts ts') :
    Option.Rel (ConstraintRel R) (keywordConstraintAt read ts) (keywordConstraintAt read' ts') := by
  cases h with
  | nil => exact .none
  | @cons tok tok' rest rest' htok hrest =>
    have hword := hwords tok tok' htok
    have hone : ∀ mode : DateConstraintMode, Option.Rel (ConstraintRel R)
        ((read rest).map fun first => (mode, first.1, none)) ((read' rest').map fun first => (mode, first.1, none)) :=
      fun mode => optionRel_map (hread rest rest' hrest) fun _ _ hfirst => ⟨rfl, hfirst.1, .none⟩
    rw [keywordConstraintAt, keywordConstraintAt]
    simp only [hword (text "between") (by decide), hword (text "before") (by decide), hword (text "until") (by decide),
      hword (text "after") (by decide), hword (text "since") (by decide)]
    split
    · refine optionRel_bind (hread rest rest' hrest) fun first first' hfirst => ?_
      have hbehind : List.Forall₂ S ((rest.drop first.2).dropWhile (· = text "and"))
          ((rest'.drop first'.2).dropWhile (· = text "and")) := by
        rw [hfirst.2]
        refine forall₂_dropWhile (List.forall₂_drop _ hrest) fun t t' ht => ?_
        simp only [hwords t t' ht (text "and") (by decide)]
      exact optionRel_map (hread _ _ hbehind) fun _ _ hsecond => ⟨rfl, hfirst.1, .some hsecond.1⟩
    · split
      · exact hone .before
      · split
        · exact hone .after
        · exact .none

/-- Related readers find related constraints in related tokens. -/
theorem explicitConstraint_rel (h : List.Forall₂ S ts ts') :
    Option.Rel (ConstraintRel R) (explicitConstraint read ts) (explicitConstraint read' ts') := by
  have htails := forall₂_tails h
  refine optionRel_or (forall₂_findSome? htails fun us us' hus => keywordConstraintAt_rel hwords hread hus) ?_
  refine forall₂_findSome? htails fun us us' hus => ?_
  exact optionRel_map (hread us us' hus) fun _ _ hdate => ⟨rfl, hdate.1, .none⟩

end Related

/-- A constraint on what the dates are mapped to. -/
theorem explicitConstraint_map (f : α → β) (read : List Text → Option (α × ℕ)) (ts : List Text) :
    explicitConstraint (fun us => (read us).map fun date => (f date.1, date.2)) ts =
      (explicitConstraint read ts).map fun c => (c.1, f c.2.1, c.2.2.map f) := by
  have hread : ∀ us us', List.Forall₂ Eq us us' →
      Option.Rel (TakenRel fun a b => f a = b) (read us) ((read us').map fun date => (f date.1, date.2)) := by
    intro us us' hus
    rw [List.forall₂_eq_eq_eq] at hus
    rw [hus]
    cases read us' with
    | none => exact .none
    | some date => exact .some ⟨rfl, rfl⟩
  have hsame : List.Forall₂ Eq ts ts := List.forall₂_same.2 fun t _ => rfl
  have hrel := explicitConstraint_rel (S := Eq) (fun t t' ht w _ => ht ▸ Iff.rfl) hread hsame
  generalize explicitConstraint read ts = c at hrel ⊢
  generalize explicitConstraint (fun us => (read us).map fun date => (f date.1, date.2)) ts = c' at hrel ⊢
  cases hrel with
  | none => rfl
  | @some c c' hc =>
    obtain ⟨mode, first, second⟩ := c
    obtain ⟨mode', first', second'⟩ := c'
    obtain ⟨rfl, rfl, hsecond⟩ := hc
    cases hsecond with
    | none => rfl
    | some hsecond => cases hsecond; rfl

/-! ## Words of a text -/

variable {norm token : Text} {p i : ℕ}

/-- The token stands at this place, between blanks. -/
structure StandsAt (norm token : Text) (p : ℕ) : Prop where
  here : token <+: norm.drop p
  before : p = 0 ∨ norm[p - 1]? = some 32
  behind : (norm[p + token.length]?).all (· = 32)

theorem StandsAt.of_append {pre post : Text} (hpre : pre = [] ∨ pre.getLast? = some 32)
    (hpost : post = [] ∨ post.head? = some 32) : StandsAt (pre ++ token ++ post) token pre.length := by
  refine ⟨?_, ?_, ?_⟩
  · rw [List.append_assoc, List.drop_left]
    exact List.prefix_append _ _
  · rcases hpre with rfl | hpre
    · exact .inl rfl
    · refine .inr ?_
      have hne : pre ≠ [] := by
        rintro rfl
        cases hpre
      have hpos := List.length_pos_iff.2 hne
      rw [List.append_assoc, List.getElem?_append_left (by omega), ← List.getLast?_eq_getElem?, hpre]
  · rw [← List.length_append, List.getElem?_append_right (Nat.le_refl _), Nat.sub_self, ← List.head?_eq_getElem?]
    rcases hpost with rfl | hpost
    · rfl
    · rw [hpost]
      rfl

/-- The words before one end in a blank, where there are any. -/
theorem intercalate_append_cons (before : List Text) (w : Text) (behind : List Text) :
    ∃ pre, (pre = [] ∨ pre.getLast? = some 32) ∧
      [32].intercalate (before ++ w :: behind) = pre ++ [32].intercalate (w :: behind) := by
  induction before with
  | nil => exact ⟨[], .inl rfl, rfl⟩
  | cons b before ih =>
    obtain ⟨pre, hpre, heq⟩ := ih
    refine ⟨b ++ [32] ++ pre, .inr ?_, ?_⟩
    · rw [List.getLast?_append]
      rcases hpre with rfl | hpre
      · simp
      · rw [hpre]
        rfl
    · rw [List.cons_append, List.intercalate_cons_of_ne_nil (by simp), heq, List.append_assoc _ pre]

theorem StandsAt.split {norm token : Text} {p : ℕ} (h : StandsAt norm token p) :
    ∃ pre post, norm = pre ++ token ++ post ∧ (pre = [] ∨ pre.getLast? = some 32) ∧ (post = [] ∨ post.head? = some 32) := by
  obtain ⟨post, hpost⟩ := h.here
  refine ⟨norm.take p, post, ?_, ?_, ?_⟩
  · rw [List.append_assoc, hpost, List.take_append_drop]
  · rcases h.before with rfl | hblank
    · exact .inl List.take_zero
    · obtain ⟨hlt, -⟩ := List.getElem?_eq_some_iff.1 hblank
      refine (Nat.eq_zero_or_pos p).imp (fun h0 => by rw [h0, List.take_zero]) fun hpos => ?_
      rw [List.getLast?_eq_getElem?, List.length_take_of_le (by omega), List.getElem?_take_of_lt (by omega), hblank]
  · have hat : norm[p + token.length]? = post.head? := by
      rw [List.head?_eq_getElem?, ← List.getElem?_drop, ← hpost, List.getElem?_append_right (Nat.le_refl _), Nat.sub_self]
    have hbehind := h.behind
    rw [hat] at hbehind
    cases post with
    | nil => exact .inl rfl
    | cons c post =>
      refine .inr ?_
      simpa using hbehind

/-- A word stands between blanks, and between blanks stand the words without a blank. -/
theorem mem_splitOn_iff (hblank : 32 ∉ token) : token ∈ norm.splitOn 32 ↔ ∃ p, StandsAt norm token p := by
  constructor
  · intro h
    obtain ⟨before, behind, hsplit⟩ := List.append_of_mem h
    obtain ⟨pre, hpre, heq⟩ := intercalate_append_cons before token behind
    rw [← hsplit, List.intercalate_splitOn] at heq
    rw [heq]
    cases behind with
    | nil =>
      rw [List.intercalate_singleton, ← List.append_nil (pre ++ token)]
      exact ⟨_, .of_append hpre (.inl rfl)⟩
    | cons b behind =>
      rw [List.intercalate_cons_cons, List.append_assoc, ← List.append_assoc]
      exact ⟨_, .of_append hpre (.inr rfl)⟩
  · rintro ⟨p, h⟩
    obtain ⟨pre, post, rfl, hpre, hpost⟩ := h.split
    have hbehind : token ∈ (token ++ post).splitOn 32 := by
      cases post with
      | nil => simp [List.splitOn_eq_singleton hblank]
      | cons c post =>
        obtain rfl : c = 32 := by simpa using hpost
        rw [List.splitOn_append_cons_self_of_not_mem hblank]
        exact List.mem_cons_self
    rcases hpre with rfl | hpre
    · exact hbehind
    · obtain ⟨pre, rfl⟩ := List.getLast?_eq_some_iff.1 hpre
      rw [List.append_assoc, List.append_assoc, List.singleton_append, List.splitOn_append_cons_self]
      exact List.mem_append_right _ hbehind

/-- Two places of a word without blanks do not overlap. -/
theorem StandsAt.le_of_prefix {q : ℕ} (hblank : 32 ∉ token) (h : StandsAt norm token q) (hp : token <+: norm.drop p)
    (hlt : p < q) : p + token.length ≤ q := by
  by_contra hnot
  obtain ⟨post, hpost⟩ := hp
  rcases h.before with rfl | hbefore
  · exact Nat.not_lt_zero p hlt
  · have hat : token[q - 1 - p]? = some 32 := by
      have hlt : q - 1 - p < token.length := by omega
      rw [← List.getElem?_append_left hlt, hpost, List.getElem?_drop, ← hbefore]
      congr 1
      omega
    exact hblank (List.mem_of_getElem? hat)

theorem StandsAt.lt_length {q : ℕ} (hne : token ≠ []) (h : StandsAt norm token q) : q < norm.length := by
  have hle := h.here.length_le
  have hpos := List.length_pos_iff.2 hne
  rw [List.length_drop] at hle
  omega

theorem memoryTokenInNorm_go_iff (hblank : 32 ∉ token) (hne : token ≠ []) {fuel : ℕ} :
    ∀ {i : ℕ}, norm.length + 1 ≤ fuel + i →
      (memoryTokenInNorm.go norm token fuel i ↔ ∃ q, i ≤ q ∧ StandsAt norm token q) := by
  have hpos := List.length_pos_iff.2 hne
  induction fuel with
  | zero =>
    intro i hfuel
    refine iff_of_false Bool.false_ne_true ?_
    rintro ⟨q, hle, hq⟩
    have := hq.lt_length hne
    omega
  | succ fuel ih =>
    intro i hfuel
    rw [memoryTokenInNorm.go]
    split
    · rename_i hnone
      refine iff_of_false Bool.false_ne_true ?_
      rintro ⟨q, hle, hq⟩
      have hlt := hq.lt_length hne
      simpa [hq.here] using firstIndex_eq_none.1 hnone q hle (by omega)
    · rename_i p hsome
      obtain ⟨hle, -, hp⟩ := firstIndex_eq_some hsome
      have hp : token <+: norm.drop p := of_decide_eq_true hp
      rw [Bool.or_eq_true, ih (by omega), decide_eq_true_eq]
      constructor
      · rintro (⟨hbefore, hbehind⟩ | ⟨q, hpq, hq⟩)
        · exact ⟨p, hle, hp, hbefore, hbehind⟩
        · exact ⟨q, by omega, hq⟩
      · rintro ⟨q, hiq, hq⟩
        rcases Nat.lt_trichotomy q p with hlt | rfl | hgt
        · simpa [hq.here] using firstIndex_min hsome hiq hlt
        · exact .inl ⟨hq.before, hq.behind⟩
        · exact .inr ⟨q, hq.le_of_prefix hblank hp hgt, hq⟩

/-- A term stands between blanks exactly if it is a word of the text. -/
theorem memoryTokenInNorm_iff (hblank : 32 ∉ token) (hne : token ≠ []) :
    memoryTokenInNorm norm token ↔ token ∈ norm.splitOn 32 := by
  rw [mem_splitOn_iff hblank, memoryTokenInNorm, Bool.and_eq_true, memoryTokenInNorm_go_iff hblank hne (by omega)]
  simp [hne]

end AimeeMemory.Recall
