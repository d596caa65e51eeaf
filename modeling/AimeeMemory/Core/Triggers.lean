import AimeeMemory.Core.Prospective
import AimeeMemory.Lib.Trace
import Mathlib.Data.Fintype.Basic

/-!
# Triggering a reminder

`memory_prospective_mark_triggered` of any number of clients on one reminder. A call reads
the row, and where the row is armed it writes the trigger in a second step; the write does
not look at the row again. Two calls that both have read the row armed both succeed. In a
run in which no call reads the armed row between another one's read and its write, at most
one call on a reminder that fires once succeeds (`mark_triggered_once`).

## Honest scope

The id is positive. Reading the row and recording a trigger are atomic. What a recorded trigger does to the row
is a parameter; a write that the database refuses changes nothing. The log line and the
counter of the metrics are left out.
-/

namespace AimeeMemory.Core

open AimeeMemory.Lib

/-- The states of a reminder. -/
inductive ReminderState where
  | armed
  | triggered
  | completed
  | expired
  deriving DecidableEq, Repr

inductive Recurrence where
  | once
  | repeating
  deriving DecidableEq, Repr

structure ReminderRow where
  state : ReminderState
  recurrence : Recurrence
  triggerCount : ℕ
  deriving DecidableEq, Repr

/-- What `db2_prospective_record_trigger` makes of a row, for a reminder that fires once or not. -/
abbrev RecordTrigger := Bool → ReminderRow → ReminderRow

/-- A trigger leaves the recurrence alone, and a reminder that fires once is not armed behind it. -/
structure RecordTrigger.Lawful (recordTrigger : RecordTrigger) : Prop where
  recurrence : ∀ isOnce row, (recordTrigger isOnce row).recurrence = row.recurrence
  once : ∀ row, (recordTrigger true row).state ≠ .armed

/-- How far a call has come. -/
inductive MarkCall where
  | ready
  | read (cur : ReminderRow)
  | returned (rc : ℤ)
  deriving DecidableEq, Repr

/-- The call has read the row armed and has its write before it. -/
def MarkCall.pending : MarkCall → Bool
  | .read _ => true
  | _ => false

/-- `memory_prospective_mark_triggered` up to its check of the state. -/
def markRead (row : Option ReminderRow) : MarkCall :=
  match row with
  | none => .returned (-1)
  | some cur => if cur.state = .armed then .read cur else .returned (-1)

/-- `memory_prospective_mark_triggered` from its write on: what it returns, and the row. -/
def markWrite (recordTrigger : RecordTrigger) (taken : Bool) (cur : ReminderRow) (row : Option ReminderRow) :
    MarkCall × Option ReminderRow :=
  let isOnce := cur.recurrence = .once
  if taken then (.returned 0, row.map (recordTrigger isOnce)) else (.returned (-1), row)

/-- The row, and the calls of the clients. -/
structure Triggering (ι : Type*) where
  row : Option ReminderRow
  calls : ι → MarkCall

/-- A step of a client: its read, or its write, which the database takes or refuses. -/
inductive MarkStep (ι : Type*) where
  | get (client : ι)
  | record (client : ι) (taken : Bool)

variable {ι : Type*} [DecidableEq ι] {recordTrigger : RecordTrigger}

def markStep (recordTrigger : RecordTrigger) (s : Triggering ι) : MarkStep ι → Triggering ι
  | .get c =>
    match s.calls c with
    | .ready => { s with calls := Function.update s.calls c (markRead s.row) }
    | _ => s
  | .record c taken =>
    match s.calls c with
    | .read cur =>
      let (result, row) := markWrite recordTrigger taken cur s.row
      { row, calls := Function.update s.calls c result }
    | _ => s

/-- No call has begun. -/
def Triggering.start (row : Option ReminderRow) : Triggering ι := { row, calls := fun _ => .ready }

/-- At most one call has returned success. -/
def OneSuccess (s : Triggering ι) : Prop := ∀ c d, s.calls c = .returned 0 → s.calls d = .returned 0 → c = d

def Triggering.armed (s : Triggering ι) : Bool := s.row.any (·.state = .armed)

/-- No call reads the armed row while another one has its write before it. -/
def NoOverlap (s : Triggering ι) : MarkStep ι → Prop
  | .get _ => s.armed = true → ∀ d, (s.calls d).pending = false
  | .record _ _ => True

/-- What holds in a run without overlap: one call at most has its write before it, none where
one has succeeded, and then the row is not armed. -/
structure Exclusive (s : Triggering ι) : Prop where
  rowOnce : ∀ row ∈ s.row, row.recurrence = .once
  readOnce : ∀ c cur, s.calls c = .read cur → cur.recurrence = .once
  pendingOne : ∀ c d, (s.calls c).pending = true → (s.calls d).pending = true → c = d
  spent : ∀ c, s.calls c = .returned 0 → s.armed = false ∧ ∀ d, (s.calls d).pending = false
  one : OneSuccess s

omit [DecidableEq ι] in
theorem Exclusive.start {row : Option ReminderRow} (h : ∀ r ∈ row, r.recurrence = .once) :
    Exclusive (Triggering.start row : Triggering ι) := by
  refine ⟨h, ?_, ?_, ?_, ?_⟩
  · intro c cur hc; cases hc
  · intro c d hc; cases hc
  · intro c hc; cases hc
  · intro c d hc; cases hc

/-- A call that has read the row armed. -/
theorem markRead_eq_read {row : Option ReminderRow} {cur : ReminderRow} (h : markRead row = .read cur) :
    row = some cur ∧ cur.state = .armed := by
  cases row with
  | none => cases h
  | some r =>
    by_cases harmed : r.state = .armed
    · rw [markRead, if_pos harmed] at h
      cases h
      exact ⟨rfl, harmed⟩
    · rw [markRead, if_neg harmed] at h
      cases h

theorem markRead_ne_ready (row : Option ReminderRow) : markRead row ≠ .ready := by
  cases row with
  | none => decide
  | some r =>
    unfold markRead
    dsimp only
    split <;> exact fun h => by cases h

/-- A read that ends the call ends it with an error. -/
theorem markRead_eq_returned {row : Option ReminderRow} {rc : ℤ} (h : markRead row = .returned rc) :
    MarkCall.returned rc = .returned (-1) := by
  cases row with
  | none => exact h.symm
  | some r =>
    by_cases harmed : r.state = .armed
    · rw [markRead, if_pos harmed] at h
      cases h
    · rw [markRead, if_neg harmed] at h
      exact h.symm

/-! ### What one step does -/

section

omit [DecidableEq ι]

variable {s t : Triggering ι} {c : ι}

/-- A call that fails. -/
theorem Exclusive.failed (h : Exclusive s) (hframe : ∀ d, d ≠ c → t.calls d = s.calls d) (hrow : t.row = s.row)
    (hc : t.calls c = .returned (-1)) : Exclusive t := by
  have hold : ∀ d, t.calls d ≠ .returned (-1) → t.calls d = s.calls d :=
    fun d hd => hframe d fun hdc => hd (hdc ▸ hc)
  have hpending : ∀ d, (t.calls d).pending = true → t.calls d = s.calls d :=
    fun d hd => hold d fun hrc => by rw [hrc] at hd; cases hd
  have hsuccess : ∀ d, t.calls d = .returned 0 → s.calls d = .returned 0 :=
    fun d hd => (hold d (by rw [hd]; decide)).symm.trans hd
  refine ⟨hrow ▸ h.rowOnce, ?_, ?_, ?_, ?_⟩
  · intro d cur hd
    exact h.readOnce d cur ((hold d (by rw [hd]; exact fun h => by cases h)).symm.trans hd)
  · intro d e hd he
    apply h.pendingOne d e
    · exact hpending d hd ▸ hd
    · exact hpending e he ▸ he
  · intro d hd
    obtain ⟨harmed, hquiet⟩ := h.spent d (hsuccess d hd)
    refine ⟨by rwa [Triggering.armed, hrow], fun e => ?_⟩
    rw [← Bool.not_eq_true]
    intro he
    have hpe := hquiet e
    rw [← hpending e he, he] at hpe
    cases hpe
  · intro d e hd he
    exact h.one d e (hsuccess d hd) (hsuccess e he)

/-- A call that reads the row armed while no other one has its write before it. -/
theorem Exclusive.read (h : Exclusive s) (hframe : ∀ d, d ≠ c → t.calls d = s.calls d) (hrow : t.row = s.row)
    {cur : ReminderRow} (hcur : s.row = some cur) (harmed : s.armed = true) (hquiet : ∀ d, (s.calls d).pending = false)
    (hc : t.calls c = .read cur) : Exclusive t := by
  have honly : ∀ d, (t.calls d).pending = true → d = c := by
    intro d hd
    by_contra hdc
    rw [hframe d hdc, hquiet d] at hd
    cases hd
  have hnone : ∀ d, t.calls d ≠ .returned 0 := by
    intro d hd
    by_cases hdc : d = c
    · rw [hdc, hc] at hd
      cases hd
    · rw [hframe d hdc] at hd
      have hspent := (h.spent d hd).1
      rw [harmed] at hspent
      cases hspent
  refine ⟨hrow ▸ h.rowOnce, ?_, ?_, ?_, ?_⟩
  · intro d cur' hd
    obtain rfl := honly d (by rw [hd]; rfl)
    rw [hc] at hd
    cases hd
    exact h.rowOnce cur hcur
  · intro d e hd he
    rw [honly d hd, honly e he]
  · intro d hd
    exact absurd hd (hnone d)
  · intro d e hd _
    exact absurd hd (hnone d)

/-- A call that has the one write before it succeeds. -/
theorem Exclusive.success (h : Exclusive s) (hlaw : recordTrigger.Lawful) (hframe : ∀ d, d ≠ c → t.calls d = s.calls d)
    (hpending : (s.calls c).pending = true) (hrow : t.row = s.row.map (recordTrigger true))
    (hc : t.calls c = .returned 0) : Exclusive t := by
  have hquiet : ∀ d, (t.calls d).pending = false := by
    intro d
    rw [← Bool.not_eq_true]
    intro hd
    by_cases hdc : d = c
    · rw [hdc, hc] at hd
      cases hd
    · rw [hframe d hdc] at hd
      exact hdc (h.pendingOne d c hd hpending)
  have honly : ∀ d, t.calls d = .returned 0 → d = c := by
    intro d hd
    by_contra hdc
    rw [hframe d hdc] at hd
    have hnot := (h.spent d hd).2 c
    rw [hpending] at hnot
    cases hnot
  have hspent : t.armed = false := by
    rw [Triggering.armed, hrow]
    cases s.row with
    | none => rfl
    | some row => exact decide_eq_false (hlaw.once row)
  refine ⟨?_, ?_, ?_, fun d _ => ⟨hspent, hquiet⟩, ?_⟩
  · intro row hmem
    rw [hrow] at hmem
    obtain ⟨old, hold, rfl⟩ := Option.map_eq_some_iff.1 hmem
    rw [hlaw.recurrence]
    exact h.rowOnce old hold
  · intro d cur hd
    have hnot := hquiet d
    rw [hd] at hnot
    cases hnot
  · intro d e hd _
    have hnot := hquiet d
    rw [hd] at hnot
    cases hnot
  · intro d e hd he
    rw [honly d hd, honly e he]

end

/-- A step without overlap keeps the calls exclusive. -/
theorem Exclusive.step (hlaw : recordTrigger.Lawful) {s : Triggering ι} (h : Exclusive s) {a : MarkStep ι}
    (hok : NoOverlap s a) : Exclusive (markStep recordTrigger s a) := by
  cases a with
  | get c =>
    cases hc : s.calls c with
    | read cur => simpa only [markStep, hc] using h
    | returned rc => simpa only [markStep, hc] using h
    | ready =>
      have hframe : ∀ d, d ≠ c → Function.update s.calls c (markRead s.row) d = s.calls d :=
        fun d hd => Function.update_of_ne hd _ _
      simp only [markStep, hc]
      cases hread : markRead s.row with
      | ready => exact absurd hread (markRead_ne_ready _)
      | read cur =>
        obtain ⟨hrow, harmed⟩ := markRead_eq_read hread
        have hs : s.armed = true := by
          rw [Triggering.armed, hrow, Option.any_some, harmed]
          rfl
        rw [hread] at hframe
        exact h.read hframe rfl hrow hs (hok hs) (Function.update_self _ _ _)
      | returned rc =>
        rw [hread] at hframe
        exact h.failed hframe rfl ((Function.update_self _ _ _).trans (markRead_eq_returned hread))
  | record c taken =>
    cases hc : s.calls c with
    | ready => simpa only [markStep, hc] using h
    | returned rc => simpa only [markStep, hc] using h
    | read cur =>
      simp only [markStep, hc]
      cases taken with
      | true =>
        refine h.success hlaw (fun d hd => Function.update_of_ne hd _ _) (by rw [hc]; rfl) ?_ (Function.update_self _ _ _)
        simp [markWrite, h.readOnce c cur hc]
      | false => exact h.failed (fun d hd => Function.update_of_ne hd _ _) rfl (Function.update_self _ _ _)

/-- In every run in which no call reads the armed row between another one's read and its
write, at most one call on a reminder that fires once succeeds. -/
theorem mark_triggered_once (hlaw : recordTrigger.Lawful) {row : Option ReminderRow}
    (honce : ∀ r ∈ row, r.recurrence = .once) (steps : List (MarkStep ι))
    (hsteps : Meets (markStep recordTrigger) (fun _ => NoOverlap) (Triggering.start row) steps) :
    OneSuccess (run (markStep recordTrigger) (Triggering.start row) steps) := by
  have hrun := run_invariant (I := fun _ s => Exclusive s) (Exclusive.start honce)
    (fun _ _ _ h hok => h.step hlaw hok) steps hsteps
  exact hrun.one

/-- A trigger that is counted, and ends a reminder that fires once. -/
def countTrigger : RecordTrigger := fun isOnce row =>
  { row with state := if isOnce then .triggered else row.state, triggerCount := row.triggerCount + 1 }

theorem countTrigger_lawful : countTrigger.Lawful :=
  ⟨fun _ _ => rfl, fun row => by simp [countTrigger]⟩

/-- A reminder that is armed and fires once. -/
def armedRow : Option ReminderRow := some ⟨.armed, .once, 0⟩

instance {s : Triggering (Fin 2)} : (a : MarkStep (Fin 2)) → Decidable (NoOverlap s a)
  | .get _ => inferInstanceAs (Decidable (s.armed = true → ∀ d, (s.calls d).pending = false))
  | .record _ _ => .isTrue trivial

/-- One call after the other. -/
theorem mark_triggered_in_turn :
    Meets (markStep countTrigger) (fun _ => NoOverlap) (Triggering.start armedRow : Triggering (Fin 2))
        [.get 0, .record 0 true, .get 1] ∧
      OneSuccess (run (markStep countTrigger) (Triggering.start armedRow : Triggering (Fin 2)) [.get 0, .record 0 true, .get 1]) :=
  ⟨by decide +kernel, mark_triggered_once countTrigger_lawful (by decide) _ (by decide +kernel)⟩

/-- Two calls that both read before either writes. -/
theorem mark_triggered_twice :
    ¬ OneSuccess (run (markStep countTrigger) (Triggering.start armedRow : Triggering (Fin 2))
      [.get 0, .get 1, .record 0 true, .record 1 true]) := by
  intro h
  exact absurd (h 0 1 (by decide) (by decide)) (by decide)

end AimeeMemory.Core
