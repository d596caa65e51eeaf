import AimeeMemory.Core.Directives
import AimeeMemory.Core.Transcripts

/-!
# Prospective memory

`memory_prospective_match`, the matcher of reminders with its four stages. Both matchers
are a merge of stages without repetitions as long as the lookups fit the buffers of the
stages (`staged_matching_iff`); a caller that asks for no more rows than such a buffer
holds is safe (`memoryProspectiveMatch_of_le`).

## Honest scope

The database is as the sweep of expired reminders leaves it. The moment that is logged for
the reminders found, the times and the counters of the metrics are left out.
-/

namespace AimeeMemory.Core

open AimeeMemory.Lib

structure Reminder where
  id : ℤ
  triggerText : Text
  actionText : Text
  deriving DecidableEq, Repr

/-- The lookups of the database with the size of the caller's buffer, and what the module
takes from its header and from `util_lower_copy`. -/
structure ProspectiveDb where
  /-- `MEMORY_PROSPECTIVE_MAX_MATCHES`. -/
  maxMatches : ℕ
  /-- `MEMORY_PROSPECTIVE_TRIGGER_LEN`. -/
  triggerLen : ℕ
  lowerEntity : Text → Text
  listByEntity : Text → ℕ → List Reminder
  listByFile : Text → ℕ → List Reminder
  listByTriggerTerms : Text → ℕ → List Reminder
  listArmed : ℕ → List Reminder

/-! ## Stems -/

/-- The endings that are dropped, in the order in which they are tried. -/
def suffixes : List Text :=
  [text "ations", text "ations", text "ization", text "ations", text "ations", text "ings", text "ations", text "tion",
    text "tions", text "sion", text "sions", text "ment", text "ments", text "ness", text "ing", text "ed", text "es",
    text "s"]

/-- The stem of a word: its first 47 bytes in lower case, without the first ending that fits. -/
def stemOf (w : Text) : Text :=
  let stem := (w.take 47).map tolower
  match suffixes.find? fun suffix => suffix.length + 2 < stem.length ∧ suffix <:+ stem with
  | some suffix => stem.take (stem.length - suffix.length)
  | none => stem

def addStem (stems : List Text) (w : Text) : List Text :=
  if 8 ≤ stems.length then stems
  else if w.length < 5 then stems
  else
    let stem := stemOf w
    if stem.length < 4 ∨ stem ∈ stems then stems else stems ++ [stem]

/-- Up to 8 stems of a turn. -/
def turnStems (t : Text) : List Text := (wordRuns t).foldl addStem []

/-- A stem of the turn occurs in the trigger, as far as the trigger is copied. -/
def stemMatches (db : ProspectiveDb) (stems : List Text) (r : Reminder) : Bool :=
  let triggerLc := (r.triggerText.take (db.triggerLen - 1)).map tolower
  stems.any fun stem => (strstr triggerLc stem).isSome

example : turnStems (text "Rotate the signing keys; rotations, rotating!") =
    [text "rotate", text "sign", text "rotat"] := by decide +kernel

/-! ## The staged match -/

/-- The four stages of `memory_prospective_match`. -/
def prospectiveStages (db : ProspectiveDb) (turnText activeEntity activeFile : Option Text) (max : ℕ) :
    List (Stage Reminder) :=
  let stems := turnStems (turnText.getD [])
  [{ asked := given activeEntity
     answer := db.listByEntity (db.lowerEntity (activeEntity.getD [])) max
     room := db.maxMatches },
   { asked := given activeFile
     answer := db.listByFile (activeFile.getD []) max
     room := db.maxMatches },
   { asked := given turnText
     answer := db.listByTriggerTerms (turnText.getD []) max
     room := db.maxMatches },
   { asked := given turnText && stems ≠ []
     answer := db.listArmed (db.maxMatches * 4)
     room := db.maxMatches * 4
     kept := stemMatches db stems }]

/-- `memory_prospective_match`: the rows, and the lookups made on the way. -/
def memoryProspectiveMatch (db : ProspectiveDb) (turnText activeEntity activeFile : Option Text) (max : ℤ) :
    Staged Reminder ℤ :=
  if max ≤ 0 then {}
  else
    staged Reminder.id max.toNat (db.maxMatches * 3)
      (prospectiveStages db turnText activeEntity activeFile max.toNat)

theorem memoryProspectiveMatch_eq (db : ProspectiveDb) (turnText activeEntity activeFile : Option Text) (max : ℤ) :
    memoryProspectiveMatch db turnText activeEntity activeFile max =
      staged Reminder.id max.toNat (db.maxMatches * 3)
        (prospectiveStages db turnText activeEntity activeFile max.toNat) := by
  unfold memoryProspectiveMatch
  split
  · next hmax => rw [Int.toNat_of_nonpos hmax, staged_zero]
  · rfl

/-- Both matchers merge their stages exactly when the lookups that are made fit their
buffers and, of reminders, none comes again that was met when no more could be remembered. -/
theorem staged_matching_iff (ddb : DirectiveDb) (pdb : ProspectiveDb) (turnText activeEntity activeFile : Option Text)
    (max : ℤ) :
    (StagedMerge Directive.id max.toNat (directiveStages ddb turnText activeEntity activeFile max.toNat)
        (memoryDirectiveMatch ddb turnText activeEntity activeFile max) ↔
      AnswersFit Directive.id max.toNat (directiveStages ddb turnText activeEntity activeFile max.toNat)) ∧
    (StagedMerge Reminder.id max.toNat (prospectiveStages pdb turnText activeEntity activeFile max.toNat)
        (memoryProspectiveMatch pdb turnText activeEntity activeFile max) ↔
      AnswersFit Reminder.id max.toNat (prospectiveStages pdb turnText activeEntity activeFile max.toNat) ∧
        Remembers Reminder.id max.toNat (pdb.maxMatches * 3)
          (stageRows (prospectiveStages pdb turnText activeEntity activeFile max.toNat))) := by
  refine ⟨memoryDirectiveMatch_iff max, ?_⟩
  rw [memoryProspectiveMatch_eq]
  exact stagedMerge_iff

/-- A database with as many directives and reminders about an entity as are asked for. -/
def crowdedDirectives : DirectiveDb where
  maxMatches := 8
  lowerEntity t := t.map tolower
  matchByEntity _ n := (List.range n).map fun i => ⟨i + 1, [], text "why?", []⟩
  matchByFile _ _ := []
  matchByLexical _ _ := []
  listOpen _ := []

def crowdedReminders : ProspectiveDb where
  maxMatches := 8
  triggerLen := 256
  lowerEntity t := t.map tolower
  listByEntity _ n := (List.range n).map fun i => ⟨i + 1, text "deploy", text "tell ops"⟩
  listByFile _ _ := []
  listByTriggerTerms _ _ := []
  listArmed _ := []

/-- Nine rows that are asked for go into buffers of eight. -/
theorem staged_matching_overflows :
    ¬ StagedMerge Directive.id 9 (directiveStages crowdedDirectives none (some (text "Gateway")) none 9)
        (memoryDirectiveMatch crowdedDirectives none (some (text "Gateway")) none 9) ∧
    ¬ StagedMerge Reminder.id 9 (prospectiveStages crowdedReminders none (some (text "Gateway")) none 9)
        (memoryProspectiveMatch crowdedReminders none (some (text "Gateway")) none 9) := by
  constructor
  · intro h
    exact absurd (h.contained (9, 8) (by decide)) (by decide)
  · intro h
    exact absurd (h.contained (9, 8) (by decide)) (by decide)

/-- A caller that asks for no more rows than a buffer holds gets a staged match, of lookups that
answer no more rows than they are asked for. -/
theorem memoryProspectiveMatch_of_le {db : ProspectiveDb} {turnText activeEntity activeFile : Option Text} {max : ℤ}
    (hmax : max.toNat ≤ db.maxMatches) (hentity : ∀ t n, (db.listByEntity t n).length ≤ n)
    (hfile : ∀ t n, (db.listByFile t n).length ≤ n) (hterms : ∀ t n, (db.listByTriggerTerms t n).length ≤ n)
    (harmed : ∀ n, (db.listArmed n).length ≤ n) :
    StagedMerge Reminder.id max.toNat (prospectiveStages db turnText activeEntity activeFile max.toNat)
      (memoryProspectiveMatch db turnText activeEntity activeFile max) := by
  rw [memoryProspectiveMatch_eq, stagedMerge_iff]
  refine ⟨answersFit_of_forall fun s hs => ?_, remembers_of_le (by omega)⟩
  simp only [prospectiveStages, List.mem_cons, List.not_mem_nil, or_false] at hs
  rcases hs with rfl | rfl | rfl | rfl
  · exact (hentity _ _).trans hmax
  · exact (hfile _ _).trans hmax
  · exact (hterms _ _).trans hmax
  · exact harmed _

end AimeeMemory.Core
