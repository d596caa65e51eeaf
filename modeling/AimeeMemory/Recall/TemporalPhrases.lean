import AimeeMemory.Recall.RelativeDates
import Mathlib.Algebra.Order.BigOperators.Group.List
import Mathlib.Data.List.Infix
import Mathlib.Data.List.Perm.Basic

/-!
# Temporal phrases

The phrases that `memory_refresh_temporal_refs` of `memory_core_helpers_b.c` recognises, each by
the test that the source makes for it. The source makes the tests in one chain of `else if`, over
the tokens in turn: what an earlier test takes does not come to the later ones.

## What is proved

* `turn_cases`: one turn of the loop indexes all phrases that begin with its token, or swallows one.
* **`phrasesIndexed_iff`**: every phrase of a content is indexed exactly where no "between" has two
  words behind it, and no number of four digits stands before a unit and "ago".
* **`between_not_indexed`**: a range, and a thousand days ago, that are not indexed.

## Honest scope

That of `AimeeMemory.Recall.RelativeDates`; of `normalize_key` it is assumed that it does not
empty a text with a letter or a digit.
-/

namespace AimeeMemory.Recall

open AimeeMemory.Core AimeeMemory.Lib

variable {normalizeKey : Text → Text} {d : Date} {tok : Text} {rest ts : List Text}

/-! ### Phrases -/

/-- The words of a content, as `memory_split_tokens` cuts them. -/
def contentTokens (normalizeKey : Text → Text) (content : Text) : List Text :=
  (((normalizeKey content).splitOn 32).filter (· ≠ [])).map (·.take 63)

/-- What stands for a relative day, in a memory of the date `d`. -/
def relativeDayRefs (d : Date) (tok : Text) : List TemporalRef :=
  if tok ∈ ["today", "yesterday", "tomorrow", "tonight", "morning", "afternoon", "evening"].map text then
    ⟨tok, .relative, 18 / 10⟩ ::
      if tok = text "today" then [.onDay d (26 / 10)]
      else if tok = text "yesterday" then [.onDay (d.shift (-1)) (26 / 10)]
      else if tok = text "tomorrow" then [.onDay (d.shift 1) (26 / 10)]
      else []
  else []

/-- What stands for a word that is a phrase by itself. -/
def wordRefs (tok : Text) : List TemporalRef :=
  (if memoryIsMonthToken tok then [⟨tok, .month, 2⟩] else []) ++
    (if memoryIsWeekdayToken tok then [⟨tok, .weekday, 17 / 10⟩] else []) ++
      if isYearToken tok then [⟨tok, .year, 22 / 10⟩] else []

/-- "last" with the word behind it, and "before", "after" and "during". -/
def pairRefs (d : Date) (tok : Text) : List Text → List TemporalRef
  | next :: _ =>
    (if tok = text "last" then lastRefs d next else []) ++
      if tok ∈ ["before", "after", "during"].map text then [⟨tok ++ text ":" ++ next, .ordering, 18 / 10⟩] else []
  | [] => []

/-- "between" with two words behind it. The key has a buffer of 128 bytes. -/
def rangeRefs (tok : Text) : List Text → List TemporalRef
  | a :: b :: _ =>
    if tok = text "between" then [⟨(text "between:" ++ a ++ text ":" ++ b).take 127, .range, 2⟩] else []
  | _ => []

/-- A number with a unit and "ago" behind it. -/
def agoPhraseRefs (d : Date) (tok : Text) : List Text → List TemporalRef
  | unit :: ago :: _ =>
    if ago = text "ago" ∧ tok.head?.any (fun c => 49 ≤ c ∧ c ≤ 57) ∧ 0 < atoi tok then agoRefs d (atoi tok) unit else []
  | _ => []

/-- What stands for the phrases that begin with the first of the tokens. -/
def phraseRefs (d : Date) : List Text → List TemporalRef
  | [] => []
  | tok :: rest =>
    relativeDayRefs d tok ++ wordRefs tok ++ pairRefs d tok rest ++ rangeRefs tok rest ++ agoPhraseRefs d tok rest

/-- The row that is stored for a ref. -/
def TemporalRef.stored (normalizeKey : Text → Text) (ref : TemporalRef) : TemporalRef :=
  { ref with refKey := normalizeKey ref.refKey }

/-- Each phrase of the content is indexed, in a memory of the date `d`. -/
def PhrasesIndexed (normalizeKey : Text → Text) (d : Date) (key content : Text) : Prop :=
  List.Subperm (((contentTokens normalizeKey content).tails.flatMap (phraseRefs d)).map (TemporalRef.stored normalizeKey))
    (memoryRefreshTemporalRefs normalizeKey (some d) key content)

/-- What is assumed of `normalize_key`: it leaves something of a text with a letter or a digit. -/
def KeepsWords (normalizeKey : Text → Text) : Prop :=
  ∀ t : Text, t.any isalnum → normalizeKey t ≠ []

/-- The words of time that are counted back. -/
def agoUnits : List Text := ["days", "day", "weeks", "week", "months", "month"].map text

/-- No range, and no number of four digits that is counted back. -/
structure Unswallowed (tokens : List Text) : Prop where
  noRange : ∀ a b, ¬ [text "between", a, b] <:+: tokens
  noYear : ∀ n unit, isYearToken n → n.head? ≠ some 48 → unit ∈ agoUnits → ¬ [n, unit, text "ago"] <:+: tokens

/-! ### Words of the chain -/

theorem head_isdigit_of_year (h : isYearToken tok) : tok.head?.any isdigit := by
  simp only [isYearToken, decide_eq_true_eq] at h
  refine head_isdigit ⟨?_, h.2⟩
  rintro rfl
  exact absurd h.1 (by decide)

theorem pairRefs_eq_nil (hlast : tok ≠ text "last") (hordering : tok ∉ ["before", "after", "during"].map text) :
    pairRefs d tok rest = [] := by
  cases rest with
  | nil => rfl
  | cons next rest => rw [pairRefs, if_neg hlast, if_neg hordering, List.nil_append]

theorem rangeRefs_eq_nil (h : tok ≠ text "between") : rangeRefs tok rest = [] := by
  rw [rangeRefs.eq_def]
  split
  · rw [if_neg h]
  · rfl

theorem agoPhraseRefs_eq_nil (h : tok.head?.any isdigit = false) : agoPhraseRefs d tok rest = [] := by
  rw [agoPhraseRefs.eq_def]
  split
  · rw [if_neg]
    rintro ⟨-, hhead, -⟩
    rw [isdigit_head hhead] at h
    cases h
  · rfl

/-- A word that is none of the chain's other words. -/
structure Apart (tok : Text) : Prop where
  notLast : tok ≠ text "last"
  notOrdering : tok ∉ ["before", "after", "during"].map text
  notBetween : tok ≠ text "between"
  notDigit : tok.head?.any isdigit = false

theorem Apart.phraseRefs_eq (h : Apart tok) : phraseRefs d (tok :: rest) = relativeDayRefs d tok ++ wordRefs tok := by
  rw [phraseRefs, pairRefs_eq_nil h.notLast h.notOrdering, rangeRefs_eq_nil h.notBetween, agoPhraseRefs_eq_nil h.notDigit,
    List.append_nil, List.append_nil, List.append_nil]

/-- A word that begins with a digit is a year at most, and a number that is counted back. -/
theorem phraseRefs_of_digit (h : tok.head?.any isdigit) :
    phraseRefs d (tok :: rest) = (if isYearToken tok then [⟨tok, .year, 22 / 10⟩] else []) ++ agoPhraseRefs d tok rest := by
  have hrelative : tok ∉ ["today", "yesterday", "tomorrow", "tonight", "morning", "afternoon", "evening"].map text :=
    notMem_of_digit h (by decide)
  have hweekday : memoryIsWeekdayToken tok = false := decide_eq_false (notMem_of_digit h (by decide))
  have hordering : tok ∉ ["before", "after", "during"].map text := notMem_of_digit h (by decide)
  have hlast : tok ≠ text "last" := fun heq => absurd h (by rw [heq]; decide)
  have hbetween : tok ≠ text "between" := fun heq => absurd h (by rw [heq]; decide)
  rw [phraseRefs, pairRefs_eq_nil hlast hordering, rangeRefs_eq_nil hbetween, relativeDayRefs, if_neg hrelative, wordRefs,
    memoryIsMonthToken_of_digit h, hweekday]
  simp

theorem mem_agoUnits {unit : Text} : unit ∈ agoUnits ↔ (unit = text "days" ∨ unit = text "day") ∨
    (unit = text "weeks" ∨ unit = text "week") ∨ unit = text "months" ∨ unit = text "month" := by
  simp only [agoUnits, List.map_cons, List.map_nil, List.mem_cons, List.not_mem_nil, or_false, or_assoc]

/-- A number that is counted back leaves an "ago". -/
theorem ago_mem_agoRefs {n : ℤ} {unit : Text} (h : unit ∈ agoUnits) : ⟨text "ago", .relative, 1⟩ ∈ agoRefs d n unit := by
  rw [agoRefs]
  rcases mem_agoUnits.1 h with hday | hweek | hmonth
  · simp [hday]
  · split_ifs <;> simp
  · split_ifs <;> simp

theorem agoRefs_eq_nil {n : ℤ} {unit : Text} (h : unit ∉ agoUnits) : agoRefs d n unit = [] := by
  rw [mem_agoUnits] at h
  obtain ⟨hday, hrest⟩ := not_or.1 h
  obtain ⟨hweek, hmonth⟩ := not_or.1 hrest
  rw [agoRefs, if_neg hday, if_neg hweek, if_neg hmonth]

/-- A word that is none of the other words of the chain. -/
def isApart (tok : Text) : Bool :=
  tok ≠ text "last" && tok ∉ ["before", "after", "during"].map text && tok ≠ text "between" && !tok.head?.any isdigit

theorem Apart.of_isApart (h : isApart tok) : Apart tok := by
  simp only [isApart, Bool.and_eq_true, decide_eq_true_eq, Bool.not_eq_true'] at h
  exact ⟨h.1.1.1, h.1.1.2, h.1.2, h.2⟩

theorem relativeDay_apart : ∀ w ∈ ["today", "yesterday", "tomorrow", "tonight", "morning", "afternoon", "evening"].map text,
    isApart w ∧ memoryIsMonthToken w = false ∧ memoryIsWeekdayToken w = false ∧ isYearToken w = false := by decide

theorem month_apart : ∀ w ∈ months, isApart w ∧ memoryIsWeekdayToken w = false ∧ isYearToken w = false := by decide

theorem weekday_apart : ∀ w ∈ weekdays, isApart w ∧ memoryIsMonthToken w = false ∧ isYearToken w = false := by decide

theorem ordering_apart : ∀ w ∈ ["before", "after", "during", "first", "last", "recently"].map text,
    w ≠ text "between" ∧ w.head?.any isdigit = false := by decide

/-! ### One turn -/

/-- The refs that can be lost: those of a range, and the "ago" of a number that is counted back. -/
def swallowable (ref : TemporalRef) : Bool := ref.granularity = .range ∨ ref.granularity = .relative ∧ ref.weight = 1

/-- A phrase that begins here comes to a test that is never reached, or behind the one for years. -/
def SwallowedAt : List Text → Prop
  | tok :: a :: b :: _ =>
    tok = text "between" ∨ isYearToken tok ∧ tok.head? ≠ some 48 ∧ a ∈ agoUnits ∧ b = text "ago"
  | _ => False

instance : (ts : List Text) → Decidable (SwallowedAt ts)
  | [] => inferInstanceAs (Decidable False)
  | [_] => inferInstanceAs (Decidable False)
  | [_, _] => inferInstanceAs (Decidable False)
  | _ :: _ :: _ :: _ => inferInstanceAs (Decidable (_ ∨ _))

/-- A turn indexes what its phrases stand for, and more that cannot be lost. -/
structure TurnIndexes (d : Date) (ts : List Text) : Prop where
  unswallowed : ¬ SwallowedAt ts
  refs : ∃ more, (temporalRefsAt (some d) ts).Perm (phraseRefs d ts ++ more) ∧ ∀ ref ∈ more, swallowable ref = false

/-- A turn loses one of its phrases. -/
structure TurnSwallows (d : Date) (ts : List Text) : Prop where
  swallowed : SwallowedAt ts
  lost : ∃ ref ∈ phraseRefs d ts, swallowable ref
  refs : ∀ ref ∈ temporalRefsAt (some d) ts, swallowable ref = false

theorem not_swallowedAt_of_ne (hbetween : tok ≠ text "between") (hyear : isYearToken tok = false) : ¬ SwallowedAt (tok :: rest) := by
  rw [SwallowedAt.eq_def]
  split
  · next heq =>
    obtain ⟨rfl, -⟩ := List.cons.inj heq
    rintro (hrange | ⟨hyear', -⟩)
    · exact hbetween hrange
    · rw [hyear] at hyear'
      cases hyear'
  · exact not_false

theorem Apart.not_swallowedAt (h : Apart tok) : ¬ SwallowedAt (tok :: rest) := by
  refine not_swallowedAt_of_ne h.notBetween ?_
  by_contra hyear
  have hdigit := head_isdigit_of_year (Bool.eq_true_of_not_eq_false hyear)
  rw [h.notDigit] at hdigit
  cases hdigit

theorem TurnIndexes.of_eq (hnot : ¬ SwallowedAt ts) (h : temporalRefsAt (some d) ts = phraseRefs d ts) : TurnIndexes d ts :=
  ⟨hnot, [], by rw [h, List.append_nil], by simp⟩

/-- A number of four digits that is counted back. -/
theorem agoPhraseRefs_swallowed {unit : Text} (hyear : isYearToken tok) (hhead : tok.head? ≠ some 48) :
    agoPhraseRefs d tok (unit :: text "ago" :: rest) = agoRefs d (atoi tok) unit := by
  have hdigit : tok.head?.any fun c => 49 ≤ c ∧ c ≤ 57 := by
    have h := head_isdigit_of_year hyear
    cases tok with
    | nil => cases h
    | cons c cs =>
      simp only [List.head?_cons, Option.any_some, isdigit, decide_eq_true_eq, ne_eq, Option.some.injEq] at h hhead ⊢
      refine ⟨?_, h.2⟩
      rw [UInt8.le_iff_toNat_le] at h ⊢
      have hne : c.toNat ≠ 48 := fun heq => hhead (UInt8.toNat_inj.1 heq)
      exact Nat.lt_of_le_of_ne h.1 (Ne.symm hne)
  rw [agoPhraseRefs, if_pos ⟨rfl, hdigit, atoi_pos_of_head hdigit⟩]

theorem agoPhraseRefs_of_year (hyear : isYearToken tok) (h : ¬ SwallowedAt (tok :: rest)) : agoPhraseRefs d tok rest = [] := by
  rw [agoPhraseRefs.eq_def]
  split
  · next unit ago rest' =>
    split_ifs with hago
    · obtain ⟨hword, hhead, -⟩ := hago
      apply agoRefs_eq_nil
      intro hunit
      refine h (.inr ⟨hyear, ?_, hunit, hword⟩)
      intro hzero
      rw [hzero] at hhead
      exact absurd hhead (by decide)
    · rfl
  · rfl

theorem year_of_swallowedAt (hyear : isYearToken tok) (h : SwallowedAt (tok :: rest)) :
    ∃ unit rest', unit ∈ agoUnits ∧ tok.head? ≠ some 48 ∧ rest = unit :: text "ago" :: rest' := by
  rw [SwallowedAt.eq_def] at h
  split at h
  · next unit ago rest' heq =>
    obtain ⟨rfl, rfl⟩ := List.cons.inj heq
    rcases h with rfl | ⟨-, hhead, hunit, rfl⟩
    · exact absurd hyear (by decide)
    · exact ⟨unit, rest', hunit, hhead, rfl⟩
  · exact h.elim

theorem turn_of_relativeDay
    (h : tok ∈ ["today", "yesterday", "tomorrow", "tonight", "morning", "afternoon", "evening"].map text) :
    TurnIndexes d (tok :: rest) := by
  obtain ⟨hapart, hmonth, hweekday, hyear⟩ := relativeDay_apart tok h
  have hapart := Apart.of_isApart hapart
  refine .of_eq hapart.not_swallowedAt ?_
  rw [temporalRefsAt.eq_def, hapart.phraseRefs_eq, relativeDayRefs, if_pos h, wordRefs, hmonth, hweekday, hyear]
  simp only [if_pos h]
  simp

section
variable (hrelative : tok ∉ ["today", "yesterday", "tomorrow", "tonight", "morning", "afternoon", "evening"].map text)
include hrelative

/-- A month, with the day behind it where there is one. -/
theorem turn_of_month (h : memoryIsMonthToken tok) : TurnIndexes d (tok :: rest) := by
  obtain ⟨hapart, hweekday, hyear⟩ := month_apart tok (of_decide_eq_true h)
  have hapart := Apart.of_isApart hapart
  have hphrases : phraseRefs d (tok :: rest) = [⟨tok, .month, 2⟩] := by
    rw [hapart.phraseRefs_eq, relativeDayRefs, if_neg hrelative, wordRefs, if_pos h, hweekday, hyear]
    simp
  have hturn := temporalRefsAt.eq_def (some d) (tok :: rest)
  simp only [if_neg hrelative, if_pos h] at hturn
  refine ⟨hapart.not_swallowedAt, _, by rw [hturn, hphrases]; exact .refl _, ?_⟩
  intro ref href
  cases rest with
  | nil => cases href
  | cons next rest =>
    simp only at href
    split_ifs at href
    · rcases List.mem_cons.1 href with rfl | href
      · rfl
      · rw [List.mem_singleton.1 href]
        rfl
    · rw [List.mem_singleton.1 href]
      rfl
    · cases href

variable (hmonth : ¬ memoryIsMonthToken tok)
include hmonth

theorem turn_of_weekday (h : memoryIsWeekdayToken tok) : TurnIndexes d (tok :: rest) := by
  obtain ⟨hapart, -, hyear⟩ := weekday_apart tok (of_decide_eq_true h)
  have hapart := Apart.of_isApart hapart
  refine .of_eq hapart.not_swallowedAt ?_
  rw [temporalRefsAt.eq_def, hapart.phraseRefs_eq, relativeDayRefs, if_neg hrelative, wordRefs, if_neg hmonth, if_pos h, hyear]
  simp only [if_neg hrelative, if_neg hmonth, if_pos h]
  simp

variable (hweekday : ¬ memoryIsWeekdayToken tok)
include hweekday

/-- Four digits are a year, also where they are counted back. -/
theorem turn_of_year (h : isYearToken tok) : TurnIndexes d (tok :: rest) ∨ TurnSwallows d (tok :: rest) := by
  have hphrases : phraseRefs d (tok :: rest) = _ := phraseRefs_of_digit (head_isdigit_of_year h)
  have hturn := temporalRefsAt.eq_def (some d) (tok :: rest)
  rw [if_pos h] at hphrases
  simp only [if_neg hrelative, if_neg hmonth, if_neg hweekday, if_pos h] at hturn
  by_cases hswallowed : SwallowedAt (tok :: rest)
  · refine .inr ⟨hswallowed, ?_, by rw [hturn]; simp [swallowable]⟩
    obtain ⟨unit, rest', hunit, hhead, rfl⟩ := year_of_swallowedAt h hswallowed
    refine ⟨⟨text "ago", .relative, 1⟩, ?_, by simp [swallowable]⟩
    rw [hphrases, agoPhraseRefs_swallowed h hhead]
    exact List.mem_append_right _ (ago_mem_agoRefs hunit)
  · refine .inl (.of_eq hswallowed ?_)
    rw [hturn, hphrases, agoPhraseRefs_of_year h hswallowed, List.append_nil]

variable (hyear : ¬ isYearToken tok)
include hyear

theorem words_eq_nil : relativeDayRefs d tok ++ wordRefs tok = [] := by
  rw [relativeDayRefs, if_neg hrelative, wordRefs, if_neg hmonth, if_neg hweekday, if_neg hyear]
  rfl

theorem turn_of_word (h : tok ∈ ["before", "after", "during", "first", "last", "recently"].map text) :
    TurnIndexes d (tok :: rest) := by
  obtain ⟨hbetween, hdigit⟩ := ordering_apart tok h
  have hphrases : phraseRefs d (tok :: rest) = pairRefs d tok rest := by
    rw [phraseRefs, words_eq_nil hrelative hmonth hweekday hyear, rangeRefs_eq_nil hbetween, agoPhraseRefs_eq_nil hdigit]
    simp
  have hturn := temporalRefsAt.eq_def (some d) (tok :: rest)
  simp only [if_neg hrelative, if_neg hmonth, if_neg hweekday, if_neg hyear, if_pos h] at hturn
  have hkept : swallowable ⟨tok, .relative, 12 / 10⟩ = false := by
    simp [swallowable]
    norm_num
  refine ⟨not_swallowedAt_of_ne hbetween (Bool.eq_false_iff.2 hyear), [⟨tok, .relative, 12 / 10⟩], ?_, by simpa using hkept⟩
  rw [hphrases, hturn]
  refine List.Perm.trans ?_ (List.perm_append_singleton _ _).symm
  cases rest <;> exact .refl _

/-- Of any other word only a number is looked at: "between" has no test that is reached. -/
theorem turn_of_other (h : tok ∉ ["before", "after", "during", "first", "last", "recently"].map text) :
    TurnIndexes d (tok :: rest) ∨ TurnSwallows d (tok :: rest) := by
  have hpair : pairRefs d tok rest = [] := by
    refine pairRefs_eq_nil (fun hlast => h (by rw [hlast]; decide)) fun hordering => h ?_
    exact (by decide : ["before", "after", "during"].map text ⊆
      ["before", "after", "during", "first", "last", "recently"].map text) hordering
  have hphrases : phraseRefs d (tok :: rest) = rangeRefs tok rest ++ agoPhraseRefs d tok rest := by
    rw [phraseRefs, words_eq_nil hrelative hmonth hweekday hyear, hpair]
    rfl
  have hago : temporalRefsAt (some d) (tok :: rest) = agoPhraseRefs d tok rest := by
    rw [temporalRefsAt.eq_def]
    simp only [if_neg hrelative, if_neg hmonth, if_neg hweekday, if_neg hyear, if_neg h]
    cases rest with
    | nil => rfl
    | cons unit rest => cases rest <;> rfl
  by_cases hbetween : tok = text "between"
  · subst hbetween
    rw [agoPhraseRefs_eq_nil (by decide)] at hphrases hago
    match rest, hphrases with
    | [], hphrases => exact .inl (.of_eq not_false (by rw [hago, hphrases]; rfl))
    | [_], hphrases => exact .inl (.of_eq not_false (by rw [hago, hphrases]; rfl))
    | a :: b :: rest, hphrases =>
      refine .inr ⟨.inl rfl, ⟨_, by rw [hphrases, rangeRefs, if_pos rfl]; exact List.mem_cons_self, rfl⟩, ?_⟩
      rw [hago]
      simp
  · refine .inl (.of_eq (not_swallowedAt_of_ne hbetween (Bool.eq_false_iff.2 hyear)) ?_)
    rw [hago, hphrases, rangeRefs_eq_nil hbetween, List.nil_append]

end

/-- **One turn**: the phrases that begin here are all indexed, or one of them is swallowed. -/
theorem turn_cases (d : Date) (ts : List Text) : TurnIndexes d ts ∨ TurnSwallows d ts := by
  cases ts with
  | nil => exact .inl (.of_eq not_false rfl)
  | cons tok rest =>
    -- the tests in the order of the chain
    by_cases hrelative : tok ∈ ["today", "yesterday", "tomorrow", "tonight", "morning", "afternoon", "evening"].map text
    · exact .inl (turn_of_relativeDay hrelative)
    by_cases hmonth : memoryIsMonthToken tok
    · exact .inl (turn_of_month hrelative hmonth)
    by_cases hweekday : memoryIsWeekdayToken tok
    · exact .inl (turn_of_weekday hrelative hmonth hweekday)
    by_cases hyear : isYearToken tok
    · exact turn_of_year hrelative hmonth hweekday hyear
    by_cases hword : tok ∈ ["before", "after", "during", "first", "last", "recently"].map text
    · exact .inl (turn_of_word hrelative hmonth hweekday hyear hword)
    · exact turn_of_other hrelative hmonth hweekday hyear hword

/-- A turn has at most the refs that can be lost of its phrases, and fewer where one is swallowed. -/
theorem countP_turn_le (d : Date) (ts : List Text) :
    (temporalRefsAt (some d) ts).countP swallowable ≤ (phraseRefs d ts).countP swallowable := by
  rcases turn_cases d ts with hindexes | hswallows
  · obtain ⟨more, hperm, hmore⟩ := hindexes.refs
    have hnone : more.countP swallowable = 0 := List.countP_eq_zero.2 fun ref href => by simp [hmore ref href]
    rw [hperm.countP_eq, List.countP_append, hnone]
    rfl
  · have hnone : (temporalRefsAt (some d) ts).countP swallowable = 0 :=
      List.countP_eq_zero.2 fun ref href => by simp [hswallows.refs ref href]
    rw [hnone]
    exact Nat.zero_le _

theorem countP_turn_lt (h : SwallowedAt ts) :
    (temporalRefsAt (some d) ts).countP swallowable < (phraseRefs d ts).countP swallowable := by
  rcases turn_cases d ts with hindexes | hswallows
  · exact absurd h hindexes.unswallowed
  · have hnone : (temporalRefsAt (some d) ts).countP swallowable = 0 :=
      List.countP_eq_zero.2 fun ref href => by simp [hswallows.refs ref href]
    rw [hnone]
    exact List.countP_pos_iff.2 hswallows.lost

/-! ### Keys that are kept -/

theorem any_isalnum_number {w : Text} (h : IsNumber w) : w.any isalnum := by
  cases w with
  | nil => exact absurd rfl h.1
  | cons c cs =>
    have hdigit := List.all_eq_true.1 h.2 c List.mem_cons_self
    simp [isalnum, hdigit]

theorem any_isalnum_formatInt {width : ℕ} (h : 1 < width) (z : ℤ) : (formatInt width z).any isalnum := by
  rw [formatInt]
  split_ifs
  · rw [List.any_append, any_isalnum_number (isNumber_padded (Nat.sub_pos_of_lt h) _), Bool.or_true]
  · exact any_isalnum_number (isNumber_padded (Nat.lt_of_succ_lt h) _)

theorem any_isalnum_date (year month day : ℤ) : (memoryFormatDate year month day).any isalnum := by
  rw [memoryFormatDate, List.any_append, any_isalnum_formatInt Nat.one_lt_two, Bool.or_true]

/-- Refs whose keys all have a letter or a digit. -/
def Worded (refs : List TemporalRef) : Prop := ∀ ref ∈ refs, ref.refKey.any isalnum

@[simp] theorem worded_nil : Worded [] := by simp [Worded]

@[simp] theorem worded_cons {ref : TemporalRef} {refs : List TemporalRef} :
    Worded (ref :: refs) ↔ ref.refKey.any isalnum ∧ Worded refs := List.forall_mem_cons

@[simp] theorem worded_append {refs refs' : List TemporalRef} : Worded (refs ++ refs') ↔ Worded refs ∧ Worded refs' :=
  List.forall_mem_append

theorem any_isalnum_onDay (e : Date) (weight : ℚ) : (TemporalRef.onDay e weight).refKey.any isalnum :=
  any_isalnum_date ..

theorem worded_relativeDayRefs : Worded (relativeDayRefs d tok) := by
  rw [relativeDayRefs]
  by_cases hrelative : tok ∈ ["today", "yesterday", "tomorrow", "tonight", "morning", "afternoon", "evening"].map text
  · have hword := (by decide : ∀ w ∈ ["today", "yesterday", "tomorrow", "tonight", "morning", "afternoon", "evening"].map text,
      w.any isalnum) tok hrelative
    rw [if_pos hrelative, worded_cons]
    refine ⟨hword, ?_⟩
    split_ifs <;> simp only [worded_cons, worded_nil, any_isalnum_onDay, and_self]
  · rw [if_neg hrelative]
    exact worded_nil

theorem worded_wordRefs : Worded (wordRefs tok) := by
  have hmonths : ∀ w ∈ months, w.any isalnum := by decide
  have hweekdays : ∀ w ∈ weekdays, w.any isalnum := by decide
  rw [wordRefs, worded_append, worded_append]
  refine ⟨⟨?_, ?_⟩, ?_⟩
  · split_ifs with hmonth
    · simpa using hmonths tok (of_decide_eq_true hmonth)
    · exact worded_nil
  · split_ifs with hweekday
    · simpa using hweekdays tok (of_decide_eq_true hweekday)
    · exact worded_nil
  · split_ifs with hyear
    · simp only [isYearToken, decide_eq_true_eq] at hyear
      have hnumber : IsNumber tok := ⟨by rintro rfl; exact absurd hyear.1 (by decide), hyear.2⟩
      simpa using any_isalnum_number hnumber
    · exact worded_nil

theorem worded_lastRefs : Worded (lastRefs d tok) := by
  have hweek : (text "last:week").any isalnum := by decide
  have hmonth : (text "last:month").any isalnum := by decide
  have hyear : (text "last:year").any isalnum := by decide
  rw [lastRefs]
  have hnumber (z : ℤ) : (formatInt 4 z).any isalnum := any_isalnum_formatInt (by decide) z
  split_ifs <;>
    simp only [worded_cons, worded_nil, any_isalnum_onDay, any_isalnum_date, hnumber, hweek, hmonth, hyear, and_self]

theorem worded_pairRefs : Worded (pairRefs d tok rest) := by
  cases rest with
  | nil => exact worded_nil
  | cons next rest =>
    rw [pairRefs, worded_append]
    refine ⟨?_, ?_⟩
    · split_ifs
      · exact worded_lastRefs
      · exact worded_nil
    · split_ifs with hordering
      · have hword := (by decide : ∀ w ∈ ["before", "after", "during"].map text, w.any isalnum) tok hordering
        simp [hword]
      · exact worded_nil

theorem worded_rangeRefs : Worded (rangeRefs tok rest) := by
  rw [rangeRefs.eq_def]
  split
  · split_ifs
    · refine worded_cons.2 ⟨?_, worded_nil⟩
      rfl
    · exact worded_nil
  · exact worded_nil

theorem worded_agoPhraseRefs : Worded (agoPhraseRefs d tok rest) := by
  have hago : (text "ago").any isalnum := by decide
  rw [agoPhraseRefs.eq_def]
  split
  · rw [agoRefs]
    split_ifs <;> simp only [worded_cons, worded_nil, any_isalnum_onDay, any_isalnum_date, hago, and_self]
  · exact worded_nil

/-- Every key that stands for a phrase has a letter or a digit. -/
theorem worded_phraseRefs : Worded (phraseRefs d ts) := by
  cases ts with
  | nil => exact worded_nil
  | cons tok rest =>
    simp only [phraseRefs, worded_append]
    exact ⟨⟨⟨⟨worded_relativeDayRefs, worded_wordRefs⟩, worded_pairRefs⟩, worded_rangeRefs⟩, worded_agoPhraseRefs⟩

theorem insert_phraseRefs (hkeeps : KeepsWords normalizeKey) (d : Date) (ts : List Text) :
    (phraseRefs d ts).filterMap (memoryTemporalInsert normalizeKey) = (phraseRefs d ts).map (TemporalRef.stored normalizeKey) := by
  rw [← List.filterMap_eq_map]
  apply List.filterMap_congr
  intro ref href
  rw [memoryTemporalInsert, if_neg (hkeeps _ (worded_phraseRefs ref href))]
  rfl

/-! ### The whole content -/

theorem memorySplitTokens_eq (content : Text) (n : ℕ) :
    memorySplitTokens (normalizeKey content) n = (contentTokens normalizeKey content).take n := rfl

/-- No word of the key stands for a ref that can be lost. -/
theorem countP_temporalRefsOfKey (tok : Text) : (temporalRefsOfKey tok).countP swallowable = 0 := by
  rw [temporalRefsOfKey]
  split_ifs <;> rfl

theorem subperm_flatMap {α β : Type*} {f g : α → List β} {xs : List α} (h : ∀ x ∈ xs, (f x).Subperm (g x)) :
    (xs.flatMap f).Subperm (xs.flatMap g) := by
  induction xs with
  | nil => exact .refl _
  | cons x xs ih =>
    rw [List.flatMap_cons, List.flatMap_cons]
    exact (h x List.mem_cons_self).append (ih fun y hy => h y (List.mem_cons_of_mem _ hy))

theorem unswallowed_iff (tokens : List Text) : Unswallowed tokens ↔ ∀ ts, ts <:+ tokens → ¬ SwallowedAt ts := by
  constructor
  · intro h ts hts hswallowed
    rw [SwallowedAt.eq_def] at hswallowed
    split at hswallowed
    · next tok a b rest =>
      have hwithin : [tok, a, b] <:+: tokens := ((List.prefix_append [tok, a, b] rest).isInfix).trans hts.isInfix
      rcases hswallowed with rfl | ⟨hyear, hhead, hunit, rfl⟩
      · exact h.noRange a b hwithin
      · exact h.noYear tok a hyear hhead hunit hwithin
    · exact hswallowed
  · intro h
    have hfront {tok a b : Text} (hwithin : [tok, a, b] <:+: tokens) (hat : ∀ rest, SwallowedAt (tok :: a :: b :: rest)) :
        False := by
      obtain ⟨ts, ⟨rest, rfl⟩, hts⟩ := List.infix_iff_prefix_suffix.1 hwithin
      exact h _ hts (hat rest)
    exact ⟨fun a b hwithin => hfront hwithin fun _ => .inl rfl,
      fun n unit hyear hhead hunit hwithin => hfront hwithin fun _ => .inr ⟨hyear, hhead, hunit, rfl⟩⟩

/-- A stored row can be lost as its ref can. -/
theorem countP_stored_le (refs : List TemporalRef) :
    (refs.filterMap (memoryTemporalInsert normalizeKey)).countP swallowable ≤ refs.countP swallowable := by
  rw [List.countP_eq_length_filter, filter_filterMap_insert fun _ _ => rfl, List.countP_eq_length_filter]
  exact List.length_filterMap_le _ _

/-- The rows of a content of at most 24 words. -/
theorem memoryRefreshTemporalRefs_short (created : Option Date) (key : Text) {content : Text}
    (hcount : (contentTokens normalizeKey content).length ≤ 24) :
    memoryRefreshTemporalRefs normalizeKey created key content =
      ((memorySplitTokens (normalizeKey key) 24).flatMap temporalRefsOfKey).filterMap (memoryTemporalInsert normalizeKey) ++
        (contentTokens normalizeKey content).tails.flatMap fun ts =>
          (temporalRefsAt created ts).filterMap (memoryTemporalInsert normalizeKey) := by
  have htokens : memorySplitTokens (normalizeKey content) 24 = contentTokens normalizeKey content := by
    rw [memorySplitTokens_eq, List.take_of_length_le hcount]
  rw [memoryRefreshTemporalRefs, htokens, List.filterMap_append, List.filterMap_flatMap (l := List.tails _)]

/-- Each turn has at most what its phrases stand for, so that none may have less. -/
theorem unswallowed_of_indexed {key content : Text} (hcount : (contentTokens normalizeKey content).length ≤ 24)
    (h : PhrasesIndexed normalizeKey d key content) : Unswallowed (contentTokens normalizeKey content) := by
  have hle := h.countP_le swallowable
  rw [memoryRefreshTemporalRefs_short _ _ hcount] at hle
  rw [unswallowed_iff]
  generalize contentTokens normalizeKey content = tokens at hle
  intro ts hts hswallowed
  have hkey : ((memorySplitTokens (normalizeKey key) 24).flatMap temporalRefsOfKey).countP swallowable = 0 := by
    rw [List.countP_flatMap, List.sum_eq_zero]
    intro n hn
    obtain ⟨tok, -, rfl⟩ := List.mem_map.1 hn
    exact countP_temporalRefsOfKey tok
  have hkeyRows : (((memorySplitTokens (normalizeKey key) 24).flatMap temporalRefsOfKey).filterMap
      (memoryTemporalInsert normalizeKey)).countP swallowable ≤ _ := countP_stored_le _
  have hstored : swallowable ∘ TemporalRef.stored normalizeKey = swallowable := rfl
  have hlt : (tokens.tails.flatMap fun ts => (temporalRefsAt (some d) ts).filterMap (memoryTemporalInsert normalizeKey)).countP
      swallowable < (tokens.tails.flatMap (phraseRefs d)).countP swallowable := by
    rw [List.countP_flatMap, List.countP_flatMap]
    exact List.sum_lt_sum _ _ (fun ts _ => (countP_stored_le _).trans (countP_turn_le d ts))
      ⟨ts, (List.mem_tails ..).2 hts, (countP_stored_le _).trans_lt (countP_turn_lt hswallowed)⟩
  rw [List.countP_map, hstored, List.countP_append] at hle
  omega

/-- **Temporal phrases are indexed**, all of them, exactly where none is swallowed. -/
theorem phrasesIndexed_iff (hkeeps : KeepsWords normalizeKey) (d : Date) (key content : Text)
    (hcount : (contentTokens normalizeKey content).length ≤ 24) :
    PhrasesIndexed normalizeKey d key content ↔ Unswallowed (contentTokens normalizeKey content) := by
  refine ⟨unswallowed_of_indexed hcount, fun h => ?_⟩
  rw [unswallowed_iff] at h
  have hturns : ((contentTokens normalizeKey content).tails.flatMap fun ts =>
      (phraseRefs d ts).map (TemporalRef.stored normalizeKey)).Subperm
        ((contentTokens normalizeKey content).tails.flatMap fun ts =>
          (temporalRefsAt (some d) ts).filterMap (memoryTemporalInsert normalizeKey)) := by
    refine subperm_flatMap fun ts hts => ?_
    rcases turn_cases d ts with hindexes | hswallows
    · obtain ⟨more, hperm, -⟩ := hindexes.refs
      rw [← insert_phraseRefs hkeeps]
      refine List.Subperm.trans ?_ (hperm.symm.filterMap _).subperm
      rw [List.filterMap_append]
      exact (List.sublist_append_left _ _).subperm
    · exact absurd hswallows.swallowed (h ts ((List.mem_tails ..).1 hts))
  rw [PhrasesIndexed, memoryRefreshTemporalRefs_short _ _ hcount, List.map_flatMap]
  exact hturns.trans (List.sublist_append_right _ _).subperm

/-! ### A Friday -/

theorem hyphensToBlanks_keeps : KeepsWords hyphensToBlanks := by
  intro t ht hnil
  obtain ⟨c, hc, halnum⟩ := List.any_eq_true.1 ht
  have hblank := List.dropWhile_eq_nil_iff.1 hnil c (List.mem_map.2 ⟨c, hc, ?_⟩)
  · rw [of_decide_eq_true hblank] at halnum
    cases halnum
  · rw [if_neg]
    rintro rfl
    cases halnum

/-- On a Friday. -/
theorem lastMonday_indexed : PhrasesIndexed hyphensToBlanks friday [] (text "in may 2 days ago after last monday") := by
  refine (phrasesIndexed_iff hyphensToBlanks_keeps friday [] _ (by decide)).2 ((unswallowed_iff _).2 fun ts hts => ?_)
  have hall : ∀ ts ∈ (contentTokens hyphensToBlanks (text "in may 2 days ago after last monday")).tails, ¬ SwallowedAt ts := by
    decide
  exact hall ts ((List.mem_tails ..).2 hts)

/-- A range is not indexed, nor a day a thousand days ago. -/
theorem between_not_indexed : KeepsWords hyphensToBlanks ∧
    ¬ PhrasesIndexed hyphensToBlanks friday [] (text "between monday and friday") ∧
    ¬ PhrasesIndexed hyphensToBlanks friday [] (text "1000 days ago") := by
  refine ⟨hyphensToBlanks_keeps, fun h => ?_, fun h => ?_⟩
  · exact (unswallowed_of_indexed (by decide) h).noRange (text "monday") (text "and") (by decide)
  · exact (unswallowed_of_indexed (by decide) h).noYear (text "1000") (text "days") (by decide) (by decide) (by decide) (by decide)

end AimeeMemory.Recall
