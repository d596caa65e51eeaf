import AimeeMemory.Bus.ModuleProtocol
import AimeeMemory.Bus.Wire
import AimeeMemory.Lib.Stream

/-!
# The caller's side of a module call

`awaitReply` of `server-go/bus/module_caller.go`, which polls the caller's client until
the correlated result is complete.

A delivery is a slot of the inbound ring together with the bytes of this call's reply
that its sender put into it. The two agree where the slot reads as a fragment of the
reply; of a slot that cannot be read as one, only the sender knows what it carried.

## What is proved

* `awaitReply_ok`: a successful return is the concatenation of the fragments that were read.
* **`awaitReply_whole_iff`**: that is the whole reply exactly when the slots that were passed
  over carried nothing of it.
* **`droppedMiddle_not_whole`**: a frame of the reply whose message does not decode is passed
  over, and the call succeeds without it.
-/

namespace AimeeMemory.Bus

open AimeeMemory.Lib

/-- What a call waits for, and the limits of its client. -/
structure Call where
  eventKind : UInt32
  correlation : UInt64
  slotSize : UInt32
  responseLimit : UInt32 := ModuleMessageMaxBody
  deriving DecidableEq, Repr

/-- How a call ends without a body. -/
inductive CallError where
  /-- `Poll` fails. -/
  | poll
  | cancelled
  | deadline
  | capabilityAbsent
  | rejected
  /-- The module's own status. -/
  | status (s : UInt16)
  /-- `ErrModuleRuntime`. -/
  | runtime
  /-- `Poll` panics, and the call does not return. -/
  | panicked
  deriving DecidableEq, Repr

/-- One turn of the loop. -/
inductive Turn where
  | returned (r : Except CallError (List UInt8))
  | waiting (body : List UInt8)
  deriving DecidableEq

/-- No event: the loop gives up when its context or its deadline has ended. -/
def idleTurn (body : List UInt8) (ctxDone late : Bool) : Turn :=
  if ctxDone then .returned (.error .cancelled)
  else if late then .returned (.error .deadline)
  else .waiting body

/-- The loop body of `awaitReply` on an event. -/
def Call.eventTurn (call : Call) (body : List UInt8) (e : Event) : Turn :=
  if e.frame.correlationID = call.correlation ∧ e.frame.eventKind = KindCapabilityAbsent then
    .returned (.error .capabilityAbsent)
  else if e.frame.correlationID = call.correlation ∧ e.frame.eventKind = KindError then
    .returned (.error .rejected)
  else if e.frame.eventKind ≠ call.eventKind ∨ e.frame.correlationID ≠ call.correlation then .waiting body
  else
    match decodeModuleMessage e.payload with
    | none => .waiting body
    | some message =>
      if message.operation ≠ ModuleOpResult then .waiting body
      else if message.status ≠ ModuleStatusOK then .returned (.error (.status message.status))
      else if ModuleMessageHeaderLen + message.bodyLen.toNat > e.payload.length then
        .returned (.error .runtime)
      else if UInt32.ofNat body.length + message.bodyLen > call.responseLimit then
        .returned (.error .runtime)
      else
        let body := body ++ message.bodyOf e.payload
        if hasFlag e.frame.hdrFlags FMore then .waiting body else .returned (.ok body)

/-- The bytes of the reply that an event carries: those of an OK result of this call. -/
def Call.eventFragment (call : Call) (e : Event) : Option (List UInt8) :=
  if e.frame.eventKind = call.eventKind ∧ e.frame.correlationID = call.correlation then
    match decodeModuleMessage e.payload with
    | some message =>
      if message.operation = ModuleOpResult ∧ message.status = ModuleStatusOK then
        some (message.bodyOf e.payload)
      else none
    | none => none
  else none

/-- The bytes of the reply that a slot reads as. -/
def Call.fragmentOf (call : Call) (slot : List UInt8) : Option (List UInt8) :=
  match poll call.slotSize slot with
  | .event e => call.eventFragment e
  | _ => none

/-- A slot of the ring, and the bytes of this call's reply that were sent in it. -/
structure Delivery (call : Call) where
  slot : List UInt8
  chunk : List UInt8
  /-- A slot that reads as a fragment of the reply holds what was sent. -/
  intact : ∀ b, call.fragmentOf slot = some b → chunk = b

/-- What one `Poll` finds. -/
inductive Polling (call : Call) where
  /-- It fails: the client is detached, or the host has restarted. -/
  | failed
  /-- The ring is empty. -/
  | empty (ctxDone late : Bool)
  /-- There is a slot to read. -/
  | delivered (d : Delivery call) (ctxDone late : Bool)

variable {call : Call}

/-- The bytes of the reply that were sent in what is polled. -/
def Polling.chunk : Polling call → List UInt8
  | .delivered d _ _ => d.chunk
  | _ => []

/-- Whether what is polled is read as a fragment of the reply. -/
def Polling.isRead : Polling call → Bool
  | .delivered d _ _ => (call.fragmentOf d.slot).isSome
  | _ => false

/-- One turn of the loop. A frame that does not decode is no event. -/
def Polling.turn (body : List UInt8) : Polling call → Turn
  | .failed => .returned (.error .poll)
  | .empty ctxDone late => idleTurn body ctxDone late
  | .delivered d ctxDone late =>
    match poll call.slotSize d.slot with
    | .skipped => idleTurn body ctxDone late
    | .panicked => .returned (.error .panicked)
    | .event e => call.eventTurn body e

/-- `awaitReply`: its result, and what is left to poll when it returns. -/
def awaitReply (body : List UInt8) :
    List (Polling call) → Option (Except CallError (List UInt8) × List (Polling call))
  | [] => none
  | p :: ps =>
    match p.turn body with
    | .returned r => some (r, ps)
    | .waiting body => awaitReply body ps

/-- The body is all that was sent of the reply. -/
def WholeReply (polled : List (Polling call)) (body : List UInt8) : Prop := body = polled.flatMap Polling.chunk

/-! ### What is read -/

/-- A turn that does not fail adds `part` to the body. -/
def Turn.Extends (t : Turn) (body part : List UInt8) : Prop :=
  t = .waiting (body ++ part) ∨ t = .returned (.ok (body ++ part)) ∨ ∃ err, t = .returned (.error err)

theorem idleTurn_extends (body : List UInt8) (ctxDone late : Bool) :
    (idleTurn body ctxDone late).Extends body [] := by
  cases ctxDone <;> cases late <;> simp [idleTurn, Turn.Extends]

theorem eventTurn_extends (body : List UInt8) (e : Event) :
    (call.eventTurn body e).Extends body ((call.eventFragment e).getD []) := by
  rw [Call.eventTurn]
  by_cases habsent : e.frame.correlationID = call.correlation ∧ e.frame.eventKind = KindCapabilityAbsent
  · exact if_pos habsent ▸ .inr (.inr ⟨_, rfl⟩)
  by_cases hrejected : e.frame.correlationID = call.correlation ∧ e.frame.eventKind = KindError
  · exact if_neg habsent ▸ if_pos hrejected ▸ .inr (.inr ⟨_, rfl⟩)
  rw [if_neg habsent, if_neg hrejected, Call.eventFragment]
  by_cases hown : e.frame.eventKind = call.eventKind ∧ e.frame.correlationID = call.correlation
  · rw [if_neg (by tauto), if_pos hown]
    cases decodeModuleMessage e.payload with
    | none => exact .inl (by simp)
    | some message =>
      by_cases hop : message.operation = ModuleOpResult
      · by_cases hstatus : message.status = ModuleStatusOK
        · simp only [hop, hstatus, ne_eq, not_true_eq_false, if_false, and_self, if_true]
          split_ifs
          · exact .inr (.inr ⟨_, rfl⟩)
          · exact .inr (.inr ⟨_, rfl⟩)
          · exact .inl rfl
          · exact .inr (.inl rfl)
        · simp only [hop, hstatus, ne_eq, not_true_eq_false, not_false_eq_true, if_false, if_true]
          exact .inr (.inr ⟨_, rfl⟩)
      · exact .inl (by simp [hop])
  · rw [if_pos (by tauto), if_neg hown]
    exact .inl (by simp)

/-- A turn adds to the body what was sent, where it is read, and nothing elsewhere. -/
theorem turn_extends (body : List UInt8) (p : Polling call) :
    (p.turn body).Extends body (keptContent Polling.chunk Polling.isRead p) := by
  cases p with
  | failed => exact .inr (.inr ⟨_, rfl⟩)
  | empty ctxDone late => exact idleTurn_extends body ctxDone late
  | delivered d ctxDone late =>
    have hkept : keptContent Polling.chunk Polling.isRead (.delivered d ctxDone late) =
        (call.fragmentOf d.slot).getD [] := by
      cases hf : call.fragmentOf d.slot with
      | none => simp [keptContent, Polling.isRead, hf]
      | some b => simp [keptContent, Polling.isRead, Polling.chunk, hf, d.intact b hf]
    rw [hkept, Polling.turn, Call.fragmentOf]
    cases poll call.slotSize d.slot with
    | skipped => exact idleTurn_extends body ctxDone late
    | panicked => exact .inr (.inr ⟨_, rfl⟩)
    | event e => exact eventTurn_extends body e

theorem awaitReply_waiting {start : List UInt8} (body : List UInt8) {p : Polling call}
    (ps : List (Polling call)) (h : p.turn start = .waiting body) : awaitReply start (p :: ps) = awaitReply body ps := by
  rw [awaitReply, h]

theorem awaitReply_returned {start : List UInt8} (r : Except CallError (List UInt8)) {p : Polling call}
    (ps : List (Polling call)) (h : p.turn start = .returned r) :
    awaitReply start (p :: ps) = some (r, ps) := by
  rw [awaitReply, h]

theorem length_awaitReply {start : List UInt8} {ps rest : List (Polling call)}
    {r : Except CallError (List UInt8)} (h : awaitReply start ps = some (r, rest)) :
    rest.length < ps.length := by
  induction ps generalizing start with
  | nil => simp [awaitReply] at h
  | cons p ps ih =>
    rw [awaitReply] at h
    split at h
    · cases h
      simp
    · exact (ih h).trans (by simp)

/-- **A successful return is the concatenation of the fragments that were read.** -/
theorem awaitReply_ok {polled rest : List (Polling call)} {start body : List UInt8}
    (h : awaitReply start (polled ++ rest) = some (.ok body, rest)) :
    body = start ++ polled.flatMap (keptContent Polling.chunk Polling.isRead) := by
  induction polled generalizing start with
  | nil => exact absurd (length_awaitReply h) (by simp)
  | cons p ps ih =>
    rw [List.cons_append] at h
    rcases turn_extends start p with ht | ht | ⟨err, ht⟩
    · rw [awaitReply_waiting _ _ ht] at h
      simpa using ih h
    · simp only [awaitReply_returned _ _ ht, Option.some.injEq, Prod.mk.injEq, Except.ok.injEq, List.append_left_eq_self] at h
      obtain ⟨rfl, rfl⟩ := h
      simp
    · simp [awaitReply_returned _ _ ht] at h

/-- **The reply is whole** exactly when every slot that was passed over carried none of it. -/
theorem awaitReply_whole_iff {polled rest : List (Polling call)} {body : List UInt8}
    (h : awaitReply [] (polled ++ rest) = some (.ok body, rest)) :
    WholeReply polled body ↔ ∀ p ∈ polled, p.isRead = false → p.chunk = [] := by
  rw [WholeReply, awaitReply_ok h, List.nil_append]
  exact flatMap_kept_iff Polling.chunk Polling.isRead polled

/-! ### A reply in three fragments -/

def exampleCall : Call where
  eventKind := 256
  correlation := 1
  slotSize := 128

/-- The slot of a fragment of the reply. A stage 0 does not decode. -/
def resultSlot (stageID : UInt32) (body : List UInt8) (more : Bool) : List UInt8 :=
  let frame : Frame :=
    { hdrFlags := FReply ||| FInline ||| if more then FMore else 0
      eventKind := 256
      correlationID := 1
      payloadRef := 64
      payloadLen := .ofNat (ModuleMessageHeaderLen + body.length) }
  let message : ModuleMessage := { operation := ModuleOpResult, stageID, bodyLen := .ofNat body.length }
  let used := frame.bytes ++ message.bytes ++ body
  used ++ List.replicate (128 - used.length) 0

/-- The delivery of a slot that is read. -/
def Delivery.ofRead (slot : List UInt8) : Delivery call where
  slot := slot
  chunk := (call.fragmentOf slot).getD []
  intact := fun b h => by simp [h]

/-- A reply whose fragments are all read, behind an empty ring. -/
def wholeReply : List (Polling exampleCall) :=
  [.empty false false, .delivered (.ofRead (resultSlot 7 [1] true)) false false,
    .delivered (.ofRead (resultSlot 7 [2] false)) false false]

theorem awaitReply_wholeReply : awaitReply [] (wholeReply ++ []) = some (.ok [1, 2], []) := by
  rw [wholeReply, List.append_nil, awaitReply_waiting [] _ (by decide +kernel),
    awaitReply_waiting [1] _ (by decide +kernel), awaitReply_returned (.ok [1, 2]) _ (by decide +kernel)]

theorem whole_wholeReply : WholeReply wholeReply [1, 2] :=
  (awaitReply_whole_iff awaitReply_wholeReply).2 (by decide +kernel)

theorem fragmentOf_undecodable : exampleCall.fragmentOf (resultSlot 0 [2] true) = none := by decide +kernel

/-- The middle fragment of a reply, with a header that does not decode. -/
def droppedMiddle : List (Polling exampleCall) :=
  [.delivered (.ofRead (resultSlot 7 [1] true)) false false,
    .delivered ⟨resultSlot 0 [2] true, [2], by simp [fragmentOf_undecodable]⟩ false false,
    .delivered (.ofRead (resultSlot 7 [3] false)) false false]

/-- The call succeeds, and its body lacks the middle of the reply. -/
theorem droppedMiddle_not_whole :
    awaitReply [] droppedMiddle = some (.ok [1, 3], []) ∧ ¬ WholeReply droppedMiddle [1, 3] := by
  refine ⟨?_, by rw [WholeReply]; decide +kernel⟩
  rw [droppedMiddle, awaitReply_waiting [1] _ (by decide +kernel),
    awaitReply_waiting [1] _ (by decide +kernel), awaitReply_returned (.ok [1, 3]) _ (by decide +kernel)]

end AimeeMemory.Bus
