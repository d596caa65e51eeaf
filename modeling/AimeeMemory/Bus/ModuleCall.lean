import AimeeMemory.Bus.ModuleCaller
import AimeeMemory.Bus.ModuleRuntime

/-!
# A module call

`send` and `Call` of `server-go/bus/module_caller.go`: the request goes out in fragments, then
the call waits for its reply, and cancels where it gives up waiting.

## What is proved

* `chunks_flatMap`, `length_chunks_le`: the chunks of a body make the body, and fit.
* `sendFragments_some`: a bus that fails takes the first fragments.
* **`abandonedCancelled_iff`**: a call that ends with an error cancels the request it had begun
  to send exactly when the bus takes all the fragments of the request or none.
* **`cutShort_not_cancelled`**: a request that is cut short is not cancelled, and the module
  keeps its first half.

## Honest scope

A `Poll` that panics ends no call. What a failing `Cancel` returns is dropped, as the code does.
-/

namespace AimeeMemory.Bus

open AimeeMemory.Lib

/-- The arguments of a `RequestFragment`, which are those of a `ReplyFragment`. -/
abbrev Fragment := Reply

/-- One fragment of an invocation, `none` where the header does not encode. -/
def invokeFragment (kind : UInt32) (correlation : UInt64) (stageID : UInt32) (traceID deadlineNS : UInt64)
    (part : List UInt8 × Bool) : Option Fragment :=
  let message : ModuleMessage :=
    { operation := ModuleOpInvoke, stageID, bodyLen := .ofNat part.1.length, deadlineNS, traceID }
  message.encode.map fun header => ⟨kind, correlation, header ++ part.1, part.2⟩

/-- `send`: the fragments the bus accepted, and whether it returned without error. -/
def send (inlineBudget : UInt32) (kind stageID : UInt32) (traceID correlation deadlineNS : UInt64)
    (request : List UInt8) (accepted : Option ℕ) : List Fragment × Bool :=
  if inlineBudget.toNat ≤ ModuleMessageHeaderLen then ([], false)
  else
    let parts := chunks (inlineBudget.toNat - ModuleMessageHeaderLen) request.length request
    sendFragments (invokeFragment kind correlation stageID traceID deadlineNS) parts accepted

/-- The caller, with the geometry of its client. -/
structure ModuleCaller where
  correlation : UInt64 := 0
  inlineBudget : UInt32
  slotSize : UInt32
  responseLimit : UInt32 := ModuleMessageMaxBody
  deriving DecidableEq, Repr

/-- The arguments of a `Call`. -/
structure CallArgs where
  eventKind : UInt32
  stageID : UInt32
  traceID : UInt64 := 0
  /-- In nanoseconds. -/
  deadline : Int64 := 0
  request : List UInt8
  deriving DecidableEq

/-- Why a `Call` fails. -/
inductive CallFailure where
  /-- `ErrModuleConfig`. -/
  | config
  /-- The error of `send`. -/
  | send
  /-- The error of `awaitReply`. -/
  | reply (e : CallError)
  deriving DecidableEq, Repr

/-- A `Call` that has returned. -/
structure Returned where
  /-- The fragments the bus accepted. -/
  sent : List Fragment
  result : Except CallFailure (List UInt8)
  /-- The kind and the correlation of the `Cancel` that was attempted. -/
  cancel : Option (UInt32 × UInt64) := none
  deriving DecidableEq

namespace ModuleCaller

/-- What the next call to a kind waits for. -/
def next (m : ModuleCaller) (eventKind : UInt32) : Call where
  eventKind
  correlation := m.correlation + 1
  slotSize := m.slotSize
  responseLimit := m.responseLimit

/-- The request, sent to a bus at monotonic time `now`. -/
def sendRequest (m : ModuleCaller) (args : CallArgs) (now : UInt64) (accepted : Option ℕ) : List Fragment × Bool :=
  let deadlineNS := if 0 < args.deadline then now + args.deadline.toUInt64 else 0
  send m.inlineBudget args.eventKind args.stageID args.traceID (m.correlation + 1) deadlineNS args.request accepted

/-- `Call`, or `none` where it does not return on what is polled. -/
def call (m : ModuleCaller) (args : CallArgs) (now : UInt64) (accepted : Option ℕ)
    (polled : List (Polling (m.next args.eventKind))) : Option Returned :=
  if UInt32.ofNat args.request.length > ModuleMessageMaxBody then some { sent := [], result := .error .config }
  else
    let sent := m.sendRequest args now accepted
    if !sent.2 then some { sent := sent.1, result := .error .send }
    else
      match awaitReply [] polled with
      | none => none
      | some (.ok body, _) => some { sent := sent.1, result := .ok body }
      | some (.error .panicked, _) => none
      | some (.error e, _) =>
        some { sent := sent.1, result := .error (.reply e), cancel := some (args.eventKind, m.correlation + 1) }

/-- The fragments of a request on a bus that takes them all. -/
def fragments (m : ModuleCaller) (args : CallArgs) (now : UInt64) : List Fragment :=
  if UInt32.ofNat args.request.length > ModuleMessageMaxBody then [] else (m.sendRequest args now none).1

end ModuleCaller

/-- A call that returns an error with a fragment accepted has attempted to cancel its request. -/
def AbandonedCancelled (m : ModuleCaller) (args : CallArgs) (now : UInt64) (accepted : Option ℕ)
    (polled : List (Polling (m.next args.eventKind))) : Prop :=
  ∀ returned, m.call args now accepted polled = some returned → returned.sent ≠ [] →
    (∃ e, returned.result = .error e) → returned.cancel = some (args.eventKind, m.correlation + 1)

/-- The bus takes all the fragments of the request, or none. -/
def AllOrNone (m : ModuleCaller) (args : CallArgs) (now : UInt64) (accepted : Option ℕ) : Prop :=
  ∀ n, accepted = some n → n = 0 ∨ (m.fragments args now).length ≤ n

/-! ### The chunks of a body -/

variable {capacity n : ℕ} {body : List UInt8}

/-- The chunks make the body. -/
theorem chunks_flatMap (capacity n : ℕ) (body : List UInt8) : (chunks capacity n body).flatMap Prod.fst = body := by
  induction n generalizing body with
  | zero => simp [chunks]
  | succ n ih =>
    rw [chunks]
    split_ifs
    · simp
    · rw [List.flatMap_cons, ih, List.take_append_drop]

/-- With a turn for each byte, no chunk is larger than the capacity. -/
theorem length_chunks_le (hcapacity : 0 < capacity) (hn : body.length ≤ n) :
    ∀ part ∈ chunks capacity n body, part.1.length ≤ capacity := by
  induction n generalizing body with
  | zero =>
    intro part hpart
    rw [chunks, List.mem_singleton] at hpart
    subst hpart
    simp only
    omega
  | succ n ih =>
    intro part hpart
    rw [chunks] at hpart
    split_ifs at hpart with hfits
    · rw [List.mem_singleton] at hpart
      subst hpart
      exact hfits
    · rcases List.mem_cons.1 hpart with rfl | hpart
      · exact List.length_take_le _ _
      · exact ih (by simp; omega) part hpart

/-- The first chunk is the largest. -/
theorem chunks_eq_cons (hcapacity : 0 < capacity) (hn : body.length ≤ n) :
    ∃ first rest, chunks capacity n body = first :: rest ∧ ∀ part ∈ rest, part.1.length ≤ first.1.length := by
  cases n with
  | zero => exact ⟨_, [], rfl, by simp⟩
  | succ n =>
    rw [chunks]
    split_ifs with hfits
    · exact ⟨_, [], rfl, by simp⟩
    · refine ⟨_, _, rfl, fun part hpart => ?_⟩
      rw [List.length_take_of_le (by omega)]
      exact length_chunks_le hcapacity (by simp; omega) part hpart

/-! ### Sending -/

variable {encode : List UInt8 × Bool → Option Reply} {parts : List (List UInt8 × Bool)}

/-- A bus that fails after `n` fragments takes the first `n`; all goes out where there are no
more. -/
theorem sendFragments_some (parts : List (List UInt8 × Bool)) (n : ℕ) :
    sendFragments encode parts (some n) =
      ((sendFragments encode parts none).1.take n,
        (sendFragments encode parts none).2 && (sendFragments encode parts none).1.length ≤ n) := by
  induction parts generalizing n with
  | nil => simp [sendFragments]
  | cons part parts ih =>
    rw [sendFragments, sendFragments]
    cases encode part with
    | none => simp
    | some r =>
      cases n with
      | zero => simp
      | succ n => simp [ih]

/-- Where every fragment encodes, all of them are sent. -/
theorem sendFragments_none (h : ∀ part ∈ parts, (encode part).isSome) :
    (sendFragments encode parts none).2 = true ∧
      List.Forall₂ (fun part r => encode part = some r) parts (sendFragments encode parts none).1 := by
  induction parts with
  | nil => exact ⟨rfl, .nil⟩
  | cons part parts ih =>
    obtain ⟨r, hr⟩ := Option.isSome_iff_exists.1 (h part (by simp))
    obtain ⟨hall, hparts⟩ := ih fun p hp => h p (by simp [hp])
    rw [sendFragments, hr]
    exact ⟨hall, .cons hr hparts⟩

theorem valid_invoke (stageID bodyLen : UInt32) (deadlineNS traceID : UInt64) :
    ModuleMessage.valid { operation := ModuleOpInvoke, stageID, bodyLen, deadlineNS, traceID } ↔
      stageID ≠ 0 ∧ bodyLen ≤ ModuleMessageMaxBody := by
  have hop : ¬(ModuleOpInvoke ≠ ModuleOpInvoke ∧ ModuleOpInvoke ≠ ModuleOpResult) := by decide
  have hstatus : ¬(ModuleStatusOK > ModuleStatusInternal ∨
      (ModuleOpInvoke = ModuleOpInvoke ∧ ModuleStatusOK ≠ ModuleStatusOK)) := by decide
  rw [ModuleMessage.valid, if_neg hop, if_neg hstatus]
  simp

theorem valid_result {status : UInt16} (hstatus : status ≤ ModuleStatusInternal) (stageID bodyLen : UInt32)
    (traceID : UInt64) :
    ModuleMessage.valid { operation := ModuleOpResult, status, stageID, bodyLen, traceID } ↔
      stageID ≠ 0 ∧ bodyLen ≤ ModuleMessageMaxBody := by
  have hop : ¬(ModuleOpResult ≠ ModuleOpInvoke ∧ ModuleOpResult ≠ ModuleOpResult) := by decide
  have hresult : ModuleOpResult ≠ ModuleOpInvoke := by decide
  rw [ModuleMessage.valid, if_neg hop, if_neg (by simp [hresult, hstatus])]
  simp

/-- The length of a body that fits 32 bits. -/
theorem bodyLen_le {n : ℕ} (h : n < 4294967296) :
    UInt32.ofNat n ≤ ModuleMessageMaxBody ↔ n ≤ ModuleMessageMaxBody.toNat := by
  rw [UInt32.le_iff_toNat_le, UInt32.toNat_ofNat_of_lt' h]

theorem invokeFragment_isSome {kind stageID : UInt32} {correlation traceID deadlineNS : UInt64}
    {part : List UInt8 × Bool} (hpart : part.1.length < 4294967296) :
    (invokeFragment kind correlation stageID traceID deadlineNS part).isSome ↔
      stageID ≠ 0 ∧ part.1.length ≤ ModuleMessageMaxBody.toNat := by
  rw [← bodyLen_le hpart, ← valid_invoke stageID _ deadlineNS traceID, invokeFragment, Option.isSome_map,
    ModuleMessage.encode]
  split_ifs with hv <;> simp [hv]

theorem resultFragment_isSome {kind stageID : UInt32} {correlation traceID : UInt64} {status : UInt16}
    {part : List UInt8 × Bool} (hstatus : status ≤ ModuleStatusInternal) (hpart : part.1.length < 4294967296) :
    (resultFragment kind correlation stageID traceID status part).isSome ↔
      stageID ≠ 0 ∧ part.1.length ≤ ModuleMessageMaxBody.toNat := by
  rw [← bodyLen_le hpart, ← valid_result hstatus stageID _ traceID, resultFragment, Option.isSome_map,
    ModuleMessage.encode]
  split_ifs with hv <;> simp [hv]

/-- A request is sent up to where the bus fails, or nothing of it is. -/
theorem send_none (inlineBudget kind stageID : UInt32) (traceID correlation deadlineNS : UInt64) (request : List UInt8) :
    (send inlineBudget kind stageID traceID correlation deadlineNS request none).2 = true ∨
      (send inlineBudget kind stageID traceID correlation deadlineNS request none).1 = [] := by
  rw [send]
  split_ifs with hbudget
  · exact .inr rfl
  · simp only
    have hcapacity : 0 < inlineBudget.toNat - ModuleMessageHeaderLen := by omega
    have hlt := inlineBudget.toNat_lt
    have hle := length_chunks_le hcapacity (le_refl request.length)
    obtain ⟨first, rest, hchunks, hfirst⟩ := chunks_eq_cons hcapacity (le_refl request.length)
    rw [hchunks] at hle ⊢
    cases henc : invokeFragment kind correlation stageID traceID deadlineNS first with
    | none =>
      refine .inr ?_
      rw [sendFragments, henc]
    | some r =>
      obtain ⟨hstage, hlen⟩ := (invokeFragment_isSome (by have := hle first (by simp); omega)).1 (Option.isSome_of_eq_some henc)
      refine .inl (sendFragments_none fun part hpart => ?_).1
      refine (invokeFragment_isSome (by have := hle part hpart; omega)).2 ⟨hstage, ?_⟩
      rcases List.mem_cons.1 hpart with rfl | hpart
      · exact hlen
      · exact (hfirst part hpart).trans hlen

theorem send_some (inlineBudget kind stageID : UInt32) (traceID correlation deadlineNS : UInt64) (request : List UInt8)
    (n : ℕ) :
    send inlineBudget kind stageID traceID correlation deadlineNS request (some n) =
      ((send inlineBudget kind stageID traceID correlation deadlineNS request none).1.take n,
        (send inlineBudget kind stageID traceID correlation deadlineNS request none).2 &&
          (send inlineBudget kind stageID traceID correlation deadlineNS request none).1.length ≤ n) := by
  simp only [send]
  split_ifs
  · simp
  · exact sendFragments_some _ n

/-! ### The claim -/

variable {m : ModuleCaller} {args : CallArgs} {now : UInt64} {accepted : Option ℕ}

theorem sendRequest_none (m : ModuleCaller) (args : CallArgs) (now : UInt64) :
    (m.sendRequest args now none).2 = true ∨ (m.sendRequest args now none).1 = [] := send_none ..

theorem sendRequest_some (m : ModuleCaller) (args : CallArgs) (now : UInt64) (n : ℕ) :
    m.sendRequest args now (some n) = ((m.sendRequest args now none).1.take n,
      (m.sendRequest args now none).2 && (m.sendRequest args now none).1.length ≤ n) := send_some ..

/-- All or none of a request is sent exactly when `send` returns without error or nothing was
accepted. -/
theorem allOrNone_iff (hsize : ¬UInt32.ofNat args.request.length > ModuleMessageMaxBody) :
    AllOrNone m args now accepted ↔
      (m.sendRequest args now accepted).2 = true ∨ (m.sendRequest args now accepted).1 = [] := by
  have hnone := sendRequest_none m args now
  rw [AllOrNone, ModuleCaller.fragments, if_neg hsize]
  cases accepted with
  | none => simpa using hnone
  | some n =>
    simp only [Option.some.injEq, forall_eq', sendRequest_some, Bool.and_eq_true, decide_eq_true_eq,
      List.take_eq_nil_iff]
    constructor
    · rintro (rfl | hle)
      · exact .inr (.inl rfl)
      · rcases hnone with hall | hempty
        · exact .inl ⟨hall, hle⟩
        · exact .inr (.inr hempty)
    · rintro (⟨-, hle⟩ | hn | hempty)
      · exact .inr hle
      · exact .inl hn
      · exact .inr (by simp [hempty])

/-- **An abandoned call is cancelled** exactly when the bus takes all the fragments of its request
or none of them. -/
theorem abandonedCancelled_iff (m : ModuleCaller) (args : CallArgs) (now : UInt64) (accepted : Option ℕ)
    (polled : List (Polling (m.next args.eventKind))) :
    AbandonedCancelled m args now accepted polled ↔ AllOrNone m args now accepted := by
  by_cases hsize : UInt32.ofNat args.request.length > ModuleMessageMaxBody
  · -- a request that is too long is not sent at all
    simp [AbandonedCancelled, ModuleCaller.call, AllOrNone, ModuleCaller.fragments, hsize]
  rw [allOrNone_iff hsize, AbandonedCancelled, ModuleCaller.call, if_neg hsize]
  cases hsent : (m.sendRequest args now accepted).2 with
  | false =>
    simp only [hsent, Bool.not_false, if_true, Option.some.injEq, forall_eq', Bool.false_eq_true, false_or]
    constructor
    · intro h
      by_contra hne
      exact absurd (h hne ⟨_, rfl⟩) (by simp)
    · intro hempty hne
      exact absurd hempty hne
  | true =>
    simp only [hsent, Bool.not_true, Bool.false_eq_true, if_false, true_or, iff_true]
    intro returned hreturned _ herror
    obtain ⟨e, he⟩ := herror
    split at hreturned
    · cases hreturned
    · cases hreturned
      cases he
    · cases hreturned
    · cases hreturned
      rfl

/-! ### A request that is cut short -/

/-- A caller whose fragments carry one byte. -/
def narrowCaller : ModuleCaller where
  inlineBudget := 41
  slotSize := 128

/-- A call of stage 7 with a request of two bytes. -/
def twoBytes : CallArgs where
  eventKind := 256
  stageID := 7
  request := [1, 2]

/-- The event that `Poll` makes of a request fragment. -/
def requestEvent (r : Fragment) : Event where
  frame :=
    { hdrFlags := FRequest ||| FInline ||| if r.more then FMore else 0
      eventKind := r.eventKind
      correlationID := r.correlationID
      payloadRef := 64
      payloadLen := .ofNat r.payload.length }
  payload := r.payload

/-- The ring is full at the second fragment. The call returns the error and cancels nothing, and
the module that has polled the first fragment keeps the assembly. -/
theorem cutShort_not_cancelled : ∃ returned, narrowCaller.call twoBytes 0 (some 1) [] = some returned ∧
    returned.sent.length = 1 ∧ returned.result = .error .send ∧ returned.cancel = none ∧
      (run (step oneStage) {} (returned.sent.map fun r => .polled (requestEvent r) 0 none)).assemblies.keys = [1] := by
  refine ⟨{ sent := (narrowCaller.sendRequest twoBytes 0 (some 1)).1, result := .error .send }, ?_, ?_, rfl, rfl, ?_⟩
  all_goals decide +kernel

end AimeeMemory.Bus
