import AimeeMemory.Bus.RoundTrip
import AimeeMemory.Lib.Progress

/-!
# The deadline of a call under traffic

`awaitReply` of `server-go/bus/module_caller.go` on a ring that never runs out: an infinite
string of what `Poll` finds, in which nothing is for the call and from some poll on the
clock has passed the expiry or the context has ended.

The loop looks at the clock and at the context only where `Poll` finds no event. So time
alone does not end the call.

## What is proved

* `turn_givesUp`, `turn_patient`: a poll for others ends the call exactly where it finds no event
  after the end of the call's time.
* **`returns_iff_pause`**: the call returns after finitely many polls, with a deadline or
  cancellation error, exactly when the traffic pauses at some poll after the end of its time.
* **`busyTraffic_never_returns`**: a client that is sent one event after another never returns
  from the call, though its time was over before the first.
-/

namespace AimeeMemory.Bus

open AimeeMemory.Lib

variable {call : Call}

/-- What `Poll` finds is not for the call: the ring is empty, its slot holds no frame, or an event
of another correlation. -/
def Polling.foreign : Polling call → Bool
  | .failed => false
  | .empty _ _ => true
  | .delivered d _ _ =>
    match poll call.slotSize d.slot with
    | .skipped => true
    | .panicked => false
    | .event e => e.frame.correlationID != call.correlation

/-- At this poll the clock has passed the expiry, or the context has ended. -/
def Polling.timeOver : Polling call → Bool
  | .failed => false
  | .empty ctxDone late => ctxDone || late
  | .delivered _ ctxDone late => ctxDone || late

/-- An infinite string of polls, none of them for the call, whose time comes to an end. -/
structure Traffic (call : Call) where
  polls : ℕ → Polling call
  foreign : ∀ n, (polls n).foreign
  ends : ∃ N, ∀ n, N ≤ n → (polls n).timeOver

namespace Traffic

/-- After finitely many polls the call returns, and its error is the deadline's or the context's. -/
def Returns (t : Traffic call) : Prop :=
  ∃ n left err, awaitReply [] (firstInputs t.polls n) = some (.error err, left) ∧ (err = .deadline ∨ err = .cancelled)

/-- `Poll` finds no event when the time of the call is over. -/
def Pauses (t : Traffic call) : Prop := ∃ n, (t.polls n).event? = none ∧ (t.polls n).timeOver

end Traffic

/-! ### One poll -/

variable {p : Polling call} {body : List UInt8}

theorem Polling.foreign_event (h : p.foreign) : ∀ e, p.event? = some e → e.frame.correlationID ≠ call.correlation := by
  intro e he
  cases p with
  | failed => simp [Polling.event?] at he
  | empty ctxDone late => simp [Polling.event?] at he
  | delivered d ctxDone late =>
    cases hp : poll call.slotSize d.slot with
    | skipped => simp [Polling.event?, hp] at he
    | panicked => simp [Polling.event?, hp] at he
    | event e' =>
      obtain rfl : e' = e := by simpa [Polling.event?, hp] using he
      simpa [Polling.foreign, hp] using h

/-- With an event in the ring, or time left, the loop goes on. -/
theorem Polling.goesOn_of_foreign (h : p.foreign) (hbusy : ¬(p.event? = none ∧ p.timeOver)) : p.goesOn := by
  cases p with
  | failed => simp [Polling.foreign] at h
  | empty ctxDone late =>
    simpa [Polling.goesOn, Polling.event?, Polling.timeOver] using hbusy
  | delivered d ctxDone late =>
    cases hp : poll call.slotSize d.slot with
    | skipped => simpa [Polling.goesOn, Polling.event?, Polling.timeOver, hp] using hbusy
    | panicked => simp [Polling.foreign, hp] at h
    | event e => simp [Polling.goesOn, hp]

theorem turn_patient (h : p.foreign) (hbusy : ¬(p.event? = none ∧ p.timeOver)) : p.turn body = .waiting body :=
  turn_other (Polling.goesOn_of_foreign h hbusy) (Polling.foreign_event h)

theorem idleTurn_givesUp {ctxDone late : Bool} (h : ctxDone || late) :
    ∃ err, idleTurn body ctxDone late = .returned (.error err) ∧ (err = .deadline ∨ err = .cancelled) := by
  cases ctxDone with
  | true => exact ⟨.cancelled, rfl, .inr rfl⟩
  | false =>
    obtain rfl : late = true := by simpa using h
    exact ⟨.deadline, rfl, .inl rfl⟩

/-- Without an event, and with its time over, the call gives up. -/
theorem turn_givesUp (body : List UInt8) (h : p.foreign) (hnone : p.event? = none) (hover : p.timeOver) :
    ∃ err, p.turn body = .returned (.error err) ∧ (err = .deadline ∨ err = .cancelled) := by
  cases p with
  | failed => simp [Polling.foreign] at h
  | empty ctxDone late => exact idleTurn_givesUp hover
  | delivered d ctxDone late =>
    rw [Polling.turn]
    cases hp : poll call.slotSize d.slot with
    | skipped => exact idleTurn_givesUp hover
    | panicked => simp [Polling.foreign, hp] at h
    | event e => simp [Polling.event?, hp] at hnone

/-! ### The whole string -/

/-- Polls at which the loop goes on leave the call where it was. -/
theorem awaitReply_patient {ps : List (Polling call)} (h : ∀ p ∈ ps, p.turn body = .waiting body)
    (rest : List (Polling call)) : awaitReply body (ps ++ rest) = awaitReply body rest := by
  induction ps with
  | nil => rfl
  | cons p ps ih =>
    rw [List.cons_append, awaitReply_waiting body _ (h p (by simp))]
    apply ih
    intro q hq
    exact h q (by simp [hq])

namespace Traffic

variable (t : Traffic call)

/-- Up to the first pause the call waits. -/
theorem turn_first (body : List UInt8) {n : ℕ} (h : ∀ m < n, ¬((t.polls m).event? = none ∧ (t.polls m).timeOver)) :
    ∀ p ∈ firstInputs t.polls n, p.turn body = .waiting body := by
  intro p hp
  obtain ⟨m, hm, rfl⟩ := mem_firstInputs.1 hp
  exact turn_patient (t.foreign m) (h m hm)

/-- **The call returns in time** exactly when the traffic pauses after the end of its time. -/
theorem returns_iff_pause : t.Returns ↔ t.Pauses := by
  classical
  constructor
  · rintro ⟨n, left, err, hreturn, -⟩
    by_contra hbusy
    have hwait : ∀ m, ¬((t.polls m).event? = none ∧ (t.polls m).timeOver) := fun m hm => hbusy ⟨m, hm⟩
    have hpatient : ∀ p ∈ firstInputs t.polls n, p.turn [] = .waiting [] := t.turn_first [] fun m _ => hwait m
    have hnone := awaitReply_patient hpatient []
    rw [List.append_nil, hreturn] at hnone
    cases hnone
  · intro hpause
    -- The first pause is where the loop gives up.
    obtain ⟨hnone, hover⟩ := Nat.find_spec hpause
    obtain ⟨err, hturn, herr⟩ := turn_givesUp [] (t.foreign _) hnone hover
    refine ⟨Nat.find hpause + 1, [], err, ?_, herr⟩
    rw [firstInputs_succ, awaitReply_patient (t.turn_first [] fun m hm => Nat.find_min hpause hm),
      awaitReply_returned _ _ hturn]

end Traffic

/-! ### A client that is never idle -/

/-- A call that waits behind the result of another. -/
def waitingCall : Call := { exampleCall with correlation := 2 }

/-- The result of the call with correlation 1, found when the time of this one is over. -/
def otherResult : Polling waitingCall := .delivered (.ofRead (resultSlot 7 [1] false)) false true

theorem foreign_otherResult : otherResult.foreign ∧ otherResult.event?.isSome := by decide +kernel

/-- One result of another call after the other. -/
def busyTraffic : Traffic waitingCall where
  polls _ := otherResult
  foreign _ := foreign_otherResult.1
  ends := ⟨0, fun _ _ => rfl⟩

/-- The time of the call is over at every poll, and it never returns. -/
theorem busyTraffic_never_returns : (∀ n, (busyTraffic.polls n).timeOver) ∧ ¬ busyTraffic.Returns := by
  refine ⟨fun _ => rfl, ?_⟩
  rintro ⟨n, left, err, hreturn, -⟩
  have hwait : ∀ p ∈ firstInputs busyTraffic.polls n, p.turn [] = .waiting [] := by
    apply busyTraffic.turn_first
    intro m _ hpause
    have hsome : (otherResult.event?).isSome := foreign_otherResult.2
    rw [show otherResult.event? = none from hpause.1] at hsome
    cases hsome
  have hnone := awaitReply_patient hwait []
  rw [List.append_nil, hreturn] at hnone
  cases hnone

end AimeeMemory.Bus
