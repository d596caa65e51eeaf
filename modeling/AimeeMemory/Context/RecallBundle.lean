import AimeeMemory.Core.Store
import AimeeMemory.Lib.Trimming
import Mathlib.Data.PNat.Basic

/-!
# The recall bundle

The seven sections of `memory_recall` and their trim to the limit of tokens, which keeps to
the order of the sections (`recallTrim_respectsPriority`).

## Honest scope

The size of a bundle in tokens is any function of it. Objects and arrays can be made.
-/

namespace AimeeMemory.Context

open AimeeMemory.Core AimeeMemory.Lib

/-! ## Sections -/

inductive RecallSection where
  | alwaysOnRules
  | identity
  | preferences
  | activeContext
  | openCommitments
  | reminders
  | directives
  deriving DecidableEq, Repr

/-- An item of a section: a rule, or a row with its `memory_id`. -/
inductive RecallItem where
  | rule (id : ℤ) (polarity title description : Text) (weight : ℤ)
  | row (memoryId : ℤ) (tier kind key text why : Text)
  deriving DecidableEq, Repr

def RecallItem.memoryId : RecallItem → Option ℤ
  | .rule .. => none
  | .row id .. => some id

structure RecallBundle where
  sessionStart : Bool
  limitTokens : ℤ
  sections : RecallSection → List RecallItem

/-! ## The trim -/

/-- The limits of `memory.h`. -/
structure RecallLimits where
  defaultSession : ℤ
  defaultTurn : ℤ
  min : ℕ+
  max : ℕ+

/-- The limit that a caller gets. -/
def RecallLimits.clamp (limits : RecallLimits) (limitTokens : ℤ) (sessionStart : Bool) : ℤ :=
  let limit :=
    if limitTokens ≤ 0 then if sessionStart then limits.defaultSession else limits.defaultTurn else limitTokens
  let limit := if limit < limits.min then (limits.min : ℤ) else limit
  if (limits.max : ℤ) < limit then limits.max else limit

/-- `recall_truncate_section`. -/
def recallTruncateSection (tokens : RecallBundle → ℤ) (b : RecallBundle) (s : RecallSection) (limitTokens : ℤ) :
    RecallBundle :=
  if limitTokens ≤ 0 then b
  else { b with sections := trimSection (fun sections => tokens { b with sections }) limitTokens b.sections s }

/-- The sections in the order in which they are trimmed. -/
def trimOrder : List RecallSection :=
  [.directives, .reminders, .openCommitments, .activeContext, .preferences, .identity, .alwaysOnRules]

/-- The trim of `memory_recall`. -/
def recallTrim (tokens : RecallBundle → ℤ) (b : RecallBundle) (limitTokens : ℤ) : RecallBundle :=
  trimOrder.foldl (fun b s => recallTruncateSection tokens b s limitTokens) b

/-- A trim that respects the priority of the sections. -/
structure RespectsPriority (tokens : RecallBundle → ℤ) (limitTokens : ℤ) (b out : RecallBundle) : Prop where
  within : tokens out ≤ limitTokens ∨ ∀ s, out.sections s = []
  lower : ∀ s, out.sections s ≠ b.sections s → ∀ t, trimOrder.idxOf t < trimOrder.idxOf s → out.sections t = []
  kept : ∀ s, out.sections s <+: b.sections s

/-- The first `n` items of a bundle, counted from the section that is trimmed last. -/
def RecallBundle.first (b : RecallBundle) (n : ℕ) : RecallBundle := { b with sections := cut trimOrder b.sections n }

theorem mem_trimOrder (s : RecallSection) : s ∈ trimOrder := by
  cases s <;> decide

theorem trimOrder_nodup : trimOrder.Nodup := by decide

theorem RecallLimits.clamp_pos (limits : RecallLimits) (limitTokens : ℤ) (sessionStart : Bool) :
    0 < limits.clamp limitTokens sessionStart := by
  have hmin : (0 : ℤ) < limits.min := Int.natCast_pos.2 limits.min.pos
  have hmax : (0 : ℤ) < limits.max := Int.natCast_pos.2 limits.max.pos
  unfold RecallLimits.clamp
  dsimp only
  split_ifs <;> omega

/-- The seven truncations are one trim of the sections. -/
theorem recallTrim_eq (tokens : RecallBundle → ℤ) (b : RecallBundle) {limitTokens : ℤ} (hpos : 0 < limitTokens) :
    recallTrim tokens b limitTokens =
      { b with sections := trimAll (fun sections => tokens { b with sections }) limitTokens trimOrder b.sections } := by
  have hfold : ∀ (order : List RecallSection) (c : RecallSection → List RecallItem),
      order.foldl (fun b s => recallTruncateSection tokens b s limitTokens) { b with sections := c } =
        { b with sections := trimAll (fun sections => tokens { b with sections }) limitTokens order c } := by
    intro order
    induction order with
    | nil => exact fun _ => rfl
    | cons s order ih =>
      intro c
      rw [List.foldl_cons, recallTruncateSection, if_neg (by omega)]
      exact ih _
  exact hfold trimOrder b.sections

/-- The trim leaves the first items, as many as fit. -/
theorem recallTrim_eq_first (tokens : RecallBundle → ℤ) (b : RecallBundle) {limitTokens : ℤ} (hpos : 0 < limitTokens) :
    ∃ m, recallTrim tokens b limitTokens = b.first m ∧ m ≤ itemsIn b.sections trimOrder ∧
      (tokens (b.first m) ≤ limitTokens ∨ m = 0) ∧
      ∀ n, m < n → n ≤ itemsIn b.sections trimOrder → limitTokens < tokens (b.first n) := by
  obtain ⟨m, heq, hle, hlight, hheavy⟩ := trimAll_eq_cut (fun sections => tokens { b with sections }) limitTokens
    b.sections mem_trimOrder trimOrder_nodup
  exact ⟨m, by rw [recallTrim_eq tokens b hpos, heq]; rfl, hle, hlight, hheavy⟩

theorem first_zero (b : RecallBundle) (s : RecallSection) : (b.first 0).sections s = [] := by
  show (b.sections s).take (0 - above trimOrder b.sections s) = []
  rw [Nat.zero_sub, List.take_zero]

theorem first_of_full {b : RecallBundle} {n : ℕ} (h : itemsIn b.sections trimOrder ≤ n) : b.first n = b := by
  have hsections : cut trimOrder b.sections n = b.sections := funext fun s => cut_of_full (mem_trimOrder s) h
  rw [RecallBundle.first, hsections]

/-- For every content of the sections and every limit that a caller asks for, the trim keeps
to the priority of the sections. -/
theorem recallTrim_respectsPriority (limits : RecallLimits) (tokens : RecallBundle → ℤ) (b : RecallBundle)
    (limitTokens : ℤ) (sessionStart : Bool) :
    RespectsPriority tokens (limits.clamp limitTokens sessionStart) b
      (recallTrim tokens b (limits.clamp limitTokens sessionStart)) := by
  rw [recallTrim_eq tokens b (limits.clamp_pos limitTokens sessionStart)]
  obtain ⟨hwithin, hlower, hkept⟩ := trimAll_keeps (fun sections => tokens { b with sections })
    (limits.clamp limitTokens sessionStart) b.sections mem_trimOrder trimOrder_nodup
  exact ⟨hwithin, hlower, hkept⟩

end AimeeMemory.Context
