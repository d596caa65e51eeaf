import AimeeMemory.Lib.Trace
import AimeeMemory.Core.Store
import Mathlib.Logic.Function.Basic

/-!
# Lifecycle transitions

The state machine of `memory_lifecycle.c`, and its two callers that change a row's
state: `memory_transition_lifecycle` and `memory_mark_pending`. Each reads the state,
checks the edge and writes, in two accesses to the database. Here they are first the
functions of the source, run by a single client, and then the calls of any number of
clients on one row, cut at these two accesses.

## What is proved

* **`lifecycleOrdered_iff`**: in a run of such calls every change of the stored state is
  a permitted edge, and an archived row stays archived, exactly when every write still
  finds the state that its call has checked, or one that makes no difference.
* **`archived_resurrected`**: nothing in the code sees to that. A transition to archived
  and a `memory_mark_pending` that both read an active row leave a pending one.

## Honest scope

All that is modelled of a row is its state. What else the two writes store (the reason,
the expiry) goes to the database and is read by neither call.
-/

namespace AimeeMemory.Core

open AimeeMemory.Lib

/-- The `MEMORY_LIFECYCLE_STATE_*` texts, and any other text. -/
inductive LifecycleState where
  | active
  | pending
  | fulfilled
  | superseded
  | archived
  | other (name : Text)
  deriving DecidableEq, Repr

/-- `lc_is_valid_state`. -/
def lcIsValidState : LifecycleState → Bool
  | .other _ => false
  | _ => true

/-- `lc_transition_allowed`. -/
def lcTransitionAllowed (source target : LifecycleState) : Bool :=
  if !lcIsValidState source || !lcIsValidState target then false
  else if source = target then false
  else match source with
    | .active => target = .superseded ∨ target = .archived ∨ target = .pending
    | .pending => target = .fulfilled ∨ target = .archived
    | .fulfilled => target = .archived
    | .superseded => target = .archived
    | _ => false

/-- What the database answers to one call: whether its read and its write succeed. -/
structure Access where
  reads : Bool := true
  writes : Bool := true
  deriving DecidableEq, Repr

/-- `memory_transition_lifecycle`: its result, and the stored state after it. -/
def memoryTransitionLifecycle (memoryId : ℤ) (newState : LifecycleState) (db : Access)
    (stored : LifecycleState) : ℤ × LifecycleState :=
  if memoryId ≤ 0 ∨ !lcIsValidState newState then (-1, stored)
  else if !db.reads then (-1, stored)
  else if !lcTransitionAllowed stored newState then (-1, stored)
  else if !db.writes then (-1, stored)
  else (0, newState)

/-- `memory_mark_pending`. -/
def memoryMarkPending (memoryId : ℤ) (db : Access) (stored : LifecycleState) : ℤ × LifecycleState :=
  if memoryId ≤ 0 then (-1, stored)
  else if !db.reads then (-1, stored)
  -- re-marking a pending row would reset its expiry
  else if stored ≠ .active then (-1, stored)
  else if !db.writes then (-1, stored)
  else (0, .pending)

/-! ## Calls cut at their database accesses -/

/-- A call on the row, with its arguments. -/
inductive LifecycleCall where
  | transition (memoryId : ℤ) (newState : LifecycleState) (archiveReason : Text)
  | markPending (memoryId : ℤ) (ttlDays : ℤ)
  deriving DecidableEq, Repr

namespace LifecycleCall

/-- The arguments are accepted. -/
def accepts : LifecycleCall → Bool
  | transition memoryId newState _ => 0 < memoryId ∧ lcIsValidState newState
  | markPending memoryId _ => 0 < memoryId

/-- The check of the state that was read. -/
def passes : LifecycleCall → LifecycleState → Bool
  | transition _ newState _, current => lcTransitionAllowed current newState
  | markPending .., current => current = .active

/-- The state it writes. -/
def target : LifecycleCall → LifecycleState
  | transition _ newState _ => newState
  | markPending .. => .pending

end LifecycleCall

/-- Where a client stands. -/
inductive LifecyclePhase where
  | idle
  /-- In front of the read. -/
  | reading (call : LifecycleCall)
  /-- In front of the write, with the local `current`. -/
  | writing (call : LifecycleCall) (current : LifecycleState)
  | returned (rc : ℤ)
  deriving DecidableEq, Repr

/-- The row, and the clients that work on it. -/
structure LifecycleRun where
  stored : LifecycleState
  clients : ℕ → LifecyclePhase := fun _ => .idle

/-- One atomic step of a client. -/
inductive LifecycleEvent where
  | call (client : ℕ) (c : LifecycleCall)
  /-- `db2_memory_lifecycle_get_state`, which may fail. -/
  | read (client : ℕ) (ok : Bool)
  /-- `db2_memory_lifecycle_update_state` or `db2_memory_lifecycle_mark_pending`. -/
  | write (client : ℕ) (ok : Bool)
  deriving DecidableEq, Repr

namespace LifecycleRun

/-- A client moves on; the row is as it was. -/
def move (m : LifecycleRun) (client : ℕ) (p : LifecyclePhase) : LifecycleRun :=
  { m with clients := Function.update m.clients client p }

@[simp] theorem move_stored (m : LifecycleRun) (client : ℕ) (p : LifecyclePhase) :
    (m.move client p).stored = m.stored := rfl

/-- An event of a client that stands elsewhere is no step. -/
def step (m : LifecycleRun) : LifecycleEvent → LifecycleRun
  | .call client c =>
    match m.clients client with
    | .idle | .returned _ => m.move client (if c.accepts then .reading c else .returned (-1))
    | _ => m
  | .read client ok =>
    match m.clients client with
    | .reading c =>
      m.move client (if ok ∧ c.passes m.stored then .writing c m.stored else .returned (-1))
    | _ => m
  | .write client ok =>
    match m.clients client with
    | .writing c _ =>
      if ok then { m.move client (.returned 0) with stored := c.target } else m.move client (.returned (-1))
    | _ => m

end LifecycleRun

/-! ## A call that nobody interrupts -/

/-- What the source's function for a call returns and stores. -/
def LifecycleCall.alone (c : LifecycleCall) (db : Access) (stored : LifecycleState) : ℤ × LifecycleState :=
  match c with
  | .transition memoryId newState _ => memoryTransitionLifecycle memoryId newState db stored
  | .markPending memoryId _ => memoryMarkPending memoryId db stored

theorem LifecycleCall.alone_eq (c : LifecycleCall) (db : Access) (stored : LifecycleState) :
    c.alone db stored =
      if c.accepts ∧ db.reads ∧ c.passes stored ∧ db.writes then (0, c.target) else (-1, stored) := by
  cases c with
  | transition memoryId newState archiveReason =>
    simp only [alone, memoryTransitionLifecycle, accepts, passes, target]
    grind
  | markPending memoryId ttlDays =>
    simp only [alone, memoryMarkPending, accepts, passes, target]
    grind

/-- The three steps of a call, one after the other, are the function of the source. -/
theorem run_alone (m : LifecycleRun) (client : ℕ) (hidle : m.clients client = .idle) (c : LifecycleCall)
    (db : Access) :
    let m' := run LifecycleRun.step m [.call client c, .read client db.reads, .write client db.writes]
    m'.clients client = .returned (c.alone db m.stored).1 ∧ m'.stored = (c.alone db m.stored).2 := by
  simp only [run, List.foldl_cons, List.foldl_nil, LifecycleCall.alone_eq]
  by_cases haccepts : c.accepts
  · by_cases hpasses : db.reads ∧ c.passes m.stored
    · cases hwrites : db.writes <;>
        simp [LifecycleRun.step, LifecycleRun.move, hidle, haccepts, hpasses]
    · have hreturns : ¬ (db.reads ∧ c.passes m.stored ∧ db.writes) := fun h => hpasses ⟨h.1, h.2.1⟩
      simp [LifecycleRun.step, LifecycleRun.move, hidle, haccepts, if_neg hpasses, if_neg hreturns]
  · simp [LifecycleRun.step, LifecycleRun.move, hidle, haccepts]

/-! ## Any interleaving -/

/-- A state that follows another: the same, or the end of a permitted edge. -/
def Follows (before after : LifecycleState) : Prop := before = after ∨ lcTransitionAllowed before after

instance (before after : LifecycleState) : Decidable (Follows before after) :=
  inferInstanceAs (Decidable (_ ∨ _))

/-- Every change of the stored state follows a permitted edge, and an archived row stays
archived to the end. -/
def LifecycleOrdered (stored : LifecycleState) (es : List LifecycleEvent) : Prop :=
  Meets LifecycleRun.step (fun _ m e => Follows m.stored (m.step e).stored) ⟨stored, fun _ => .idle⟩ es ∧
    ∀ pre post, es = pre ++ post →
      (run LifecycleRun.step ⟨stored, fun _ => .idle⟩ pre).stored = .archived →
      (run LifecycleRun.step ⟨stored, fun _ => .idle⟩ es).stored = .archived

/-- What a write finds is the state its call has read, or the one it writes; a write that
archives may find any. -/
def StillCurrent (m : LifecycleRun) : LifecycleEvent → Prop
  | .write client true =>
    match m.clients client with
    | .writing c current => m.stored = current ∨ m.stored = c.target ∨ c.target = .archived
    | _ => True
  | _ => True

instance (m : LifecycleRun) (e : LifecycleEvent) : Decidable (StillCurrent m e) := by
  unfold StillCurrent
  split
  · split <;> infer_instance
  · infer_instance

theorem follows_valid {a b : LifecycleState} (h : Follows a b) (ha : lcIsValidState a) : lcIsValidState b := by
  rcases h with rfl | h
  · exact ha
  · unfold lcTransitionAllowed at h
    grind

/-- Nothing follows archived but archived. -/
theorem follows_archived {b : LifecycleState} (h : Follows .archived b) : b = .archived := by
  rcases h with rfl | h
  · rfl
  · unfold lcTransitionAllowed at h
    grind

/-- What a call checks is the edge to the state that it writes. -/
theorem LifecycleCall.passes_iff (c : LifecycleCall) (current : LifecycleState) (h : c.passes current) :
    lcTransitionAllowed current c.target := by
  cases c with
  | transition memoryId newState archiveReason => exact h
  | markPending memoryId ttlDays =>
    simp only [passes, decide_eq_true_eq] at h
    subst h
    rfl

/-- With a state that was allowed to move to `target` at hand, a valid state may be replaced by
`target` exactly when it is that state, or `target`, or `target` is archived. -/
theorem follows_iff_current {current target stored : LifecycleState}
    (hchecked : lcTransitionAllowed current target) (hvalid : lcIsValidState stored) :
    Follows stored target ↔ stored = current ∨ stored = target ∨ target = .archived := by
  cases stored <;> cases current <;> cases target <;>
    simp_all [Follows, lcTransitionAllowed, lcIsValidState]

/-- In front of a write its call's check has passed, and the row is in a valid state. -/
def Checked (m : LifecycleRun) : Prop :=
  ∀ client c current, m.clients client = .writing c current →
    lcTransitionAllowed current c.target ∧ lcIsValidState m.stored

/-- What a step can do to the row and to the writes ahead: a read puts a checked one there, a write
that succeeds stores its target, and nothing else happens to either. -/
theorem LifecycleRun.step_cases (m : LifecycleRun) (e : LifecycleEvent) :
    ((m.step e).stored = m.stored ∧ ∀ client c current, (m.step e).clients client = .writing c current →
        m.clients client = .writing c current ∨ current = m.stored ∧ c.passes current) ∨
      ∃ client c current, e = .write client true ∧ m.clients client = .writing c current ∧
        (m.step e).stored = c.target ∧
        ∀ client c current, (m.step e).clients client = .writing c current →
          m.clients client = .writing c current := by
  have hmove : ∀ client p, (∀ c current, p = .writing c current → current = m.stored ∧ c.passes current) →
      ∀ client' c current, (m.move client p).clients client' = .writing c current →
        m.clients client' = .writing c current ∨ current = m.stored ∧ c.passes current := by
    intro client p hp client' c current h
    by_cases hclient : client' = client
    · subst hclient
      simp only [move, Function.update_self] at h
      exact .inr (hp c current h)
    · simp only [move, Function.update_of_ne hclient] at h
      exact .inl h
  cases e with
  | call client c =>
    left
    simp only [step]
    split
    · exact ⟨rfl, hmove client _ (by split <;> simp)⟩
    · exact ⟨rfl, hmove client _ (by split <;> simp)⟩
    · exact ⟨rfl, fun _ _ _ => .inl⟩
  | read client ok =>
    left
    simp only [step]
    split
    · exact ⟨rfl, hmove client _ (by grind)⟩
    · exact ⟨rfl, fun _ _ _ => .inl⟩
  | write client ok =>
    simp only [step]
    split
    · rename_i c current hwriting
      cases ok with
      | false => exact .inl ⟨rfl, hmove client _ (by simp)⟩
      | true =>
        refine .inr ⟨client, c, current, rfl, hwriting, rfl, fun client' c' current' h => ?_⟩
        by_cases hclient : client' = client
        · subst hclient
          simp [move] at h
        · simpa [move, Function.update_of_ne hclient] using h
    · exact .inl ⟨rfl, fun _ _ _ => .inl⟩

theorem Checked.step {m : LifecycleRun} (h : Checked m) {e : LifecycleEvent} : Checked (m.step e) := by
  intro client c current hwriting
  rcases m.step_cases e with ⟨hsame, hnew⟩ | ⟨client', c', current', -, hwas, hstored, hnew⟩
  · rcases hnew client c current hwriting with hold | ⟨rfl, hpasses⟩
    · exact hsame ▸ h client c current hold
    · have hedge := c.passes_iff _ hpasses
      refine ⟨hedge, ?_⟩
      unfold lcTransitionAllowed at hedge
      grind
  · have hedge := (h client' c' current' hwas).1
    refine ⟨(h client c current (hnew client c current hwriting)).1, ?_⟩
    rw [hstored]
    unfold lcTransitionAllowed at hedge
    grind

/-- One step follows the order exactly when its write is still current. -/
theorem follows_iff_stillCurrent {m : LifecycleRun} (h : Checked m) (e : LifecycleEvent) :
    Follows m.stored (m.step e).stored ↔ StillCurrent m e := by
  rcases m.step_cases e with ⟨hsame, -⟩ | ⟨client, c, current, rfl, hwriting, hstored, -⟩
  · refine iff_of_true (.inl hsame.symm) ?_
    unfold StillCurrent
    split
    · rename_i client
      split
      · rename_i c current hwriting
        simp only [LifecycleRun.step, hwriting, if_true] at hsame
        exact .inr (.inl hsame.symm)
      · trivial
    · trivial
  · obtain ⟨hchecked, hvalid⟩ := h client c current hwriting
    simp only [StillCurrent, hwriting, hstored]
    exact follows_iff_current hchecked hvalid

variable (stored : LifecycleState) (es : List LifecycleEvent)

theorem checked_run (pre : List LifecycleEvent) :
    Checked (run LifecycleRun.step ⟨stored, fun _ => .idle⟩ pre) := by
  refine run_keeps (I := fun _ => Checked) ?_ ?_ pre
  · intro client c current h
    simp at h
  · intro _ m e h
    exact h.step

/-- While every change follows a permitted edge, what is archived stays archived. -/
theorem archived_stays {m : LifecycleRun}
    (h : Meets LifecycleRun.step (fun _ m e => Follows m.stored (m.step e).stored) m es)
    (harchived : m.stored = .archived) : (run LifecycleRun.step m es).stored = .archived := by
  refine run_invariant (I := fun _ m => m.stored = .archived) harchived ?_ es h
  intro _ m e harchived hfollows
  exact follows_archived (harchived ▸ hfollows)

/-- Any interleaving of the calls of any clients on one row keeps the order of the lifecycle exactly
when each of its writes is still current. -/
theorem lifecycleOrdered_iff :
    LifecycleOrdered stored es ↔ Meets LifecycleRun.step (fun _ => StillCurrent) ⟨stored, fun _ => .idle⟩ es := by
  have hsteps : ∀ pre e, Follows (run LifecycleRun.step ⟨stored, fun _ => .idle⟩ pre).stored
      ((run LifecycleRun.step ⟨stored, fun _ => .idle⟩ pre).step e).stored ↔
      StillCurrent (run LifecycleRun.step ⟨stored, fun _ => .idle⟩ pre) e :=
    fun pre e => follows_iff_stillCurrent (checked_run stored pre) e
  constructor
  · rintro ⟨h, -⟩ pre e post hsplit
    exact (hsteps pre e).1 (h pre e post hsplit)
  · intro h
    have hmeets : Meets LifecycleRun.step (fun _ m e => Follows m.stored (m.step e).stored)
        ⟨stored, fun _ => .idle⟩ es :=
      fun pre e post hsplit => (hsteps pre e).2 (h pre e post hsplit)
    refine ⟨hmeets, ?_⟩
    rintro pre post rfl harchived
    rw [run, List.foldl_append]
    refine archived_stays post (fun mid e rest hsplit => ?_) harchived
    have := hmeets (pre ++ mid) e rest (by rw [hsplit, List.append_assoc])
    rwa [run, List.foldl_append] at this

/-- A transition to archived and a `memory_mark_pending`, both with the active row read before either
writes: the archived row becomes pending. -/
theorem archived_resurrected :
    ¬ LifecycleOrdered .active
      [.call 0 (.transition 1 .archived []), .call 1 (.markPending 1 7), .read 0 true, .read 1 true,
        .write 0 true, .write 1 true] := by
  rintro ⟨hfollows, -⟩
  exact absurd hfollows (by decide)

end AimeeMemory.Core
