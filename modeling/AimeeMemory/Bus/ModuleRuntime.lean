import AimeeMemory.Bus.ModuleProtocol
import AimeeMemory.Bus.Wire
import AimeeMemory.Lib.Trace
import Mathlib.Data.List.AList

/-!
# The module side of the bus

`server-go/bus/module_runtime.go`: the loop of `runModuleClient` as a machine. Its
state is what the loop keeps in its two maps, its inputs are what the loop and its
handler goroutines meet, in any order: an event polled, a handler that returns, a
result taken from the `done` channel, the end of the loop. The replies the bus
accepted and the handler invocations are logged in the state.

## What is proved

* `replyModuleResult_finals`: a result is sent as fragments of which at most one is final.
* `judge_hold`, `judge_start`: what a fragment that the loop takes looked like.
* `step_fragment`, `step_other`: what one event does to the replies of a correlation.

## Honest scope

Heartbeats and the printing of a handler's failure text are left out: no reply and no
invocation depends on them. Waiting for room in the ring is the bus accepting later; a
bus that stops accepting is an input of the step that sends.
-/

namespace AimeeMemory.Bus

open AimeeMemory.Lib

/-- A `map[uint64]*α` keyed by correlation. -/
abbrev CorrelationMap (α : Type) := AList fun _ : UInt64 => α

def moduleMaxInFlight : ℕ := 16

/-- The process configuration: `stages[kind]` is `0` for a kind that is not served. -/
structure ModuleProcessConfig where
  stages : UInt32 → UInt32
  /-- Whether `Handler` is set. -/
  handler : Bool
  inlineBudget : UInt32

structure ModuleInvocation where
  stageID : UInt32
  deadlineNS : UInt64
  traceID : UInt64
  deriving DecidableEq, Repr

/-- A request whose final fragment has not come yet. -/
structure ModuleAssembly where
  eventKind : UInt32
  message : ModuleMessage
  body : List UInt8
  deriving DecidableEq, Repr

/-- A running handler; `result` is what it put on the `done` channel. -/
structure ModuleWork where
  eventKind : UInt32
  invocation : ModuleInvocation
  cancelled : Bool := false
  result : Option (List UInt8 × UInt16) := none
  deriving DecidableEq, Repr

/-- A reply fragment the bus accepted. -/
structure Reply where
  eventKind : UInt32
  correlationID : UInt64
  payload : List UInt8
  more : Bool
  deriving DecidableEq, Repr

/-- A handler invocation: whose request it is and what the handler was given. -/
structure Invoked where
  correlationID : UInt64
  invocation : ModuleInvocation
  body : List UInt8
  deriving DecidableEq, Repr

structure State where
  assemblies : CorrelationMap ModuleAssembly := ∅
  jobs : CorrelationMap ModuleWork := ∅
  replies : List Reply := []
  invoked : List Invoked := []
  /-- The loop has returned. -/
  stopped : Bool := false

/-- What happens next. `accepted` is `none` when the bus takes every fragment of the reply
this causes, `some n` when it fails after `n` of them. -/
inductive Input where
  /-- `Poll` returns an event, at monotonic time `now`. -/
  | polled (e : Event) (now : UInt64) (accepted : Option ℕ)
  /-- The handler of a job returns. -/
  | handlerReturned (correlation : UInt64) (response : List UInt8) (status : UInt16) (now : UInt64)
  /-- The loop takes the result of a job from `done`. -/
  | resultReceived (correlation : UInt64) (accepted : Option ℕ)
  /-- The context ends, the epoch changes or `Poll` fails. -/
  | stop
  deriving DecidableEq, Repr

/-! ### Replies -/

/-- The chunks of a body, each with its "more" mark. The fuel is the length of the body. -/
def chunks (capacity : ℕ) : ℕ → List UInt8 → List (List UInt8 × Bool)
  | 0, body => [(body, false)]
  | n + 1, body =>
    if body.length ≤ capacity then [(body, false)]
    else (body.take capacity, true) :: chunks capacity n (body.drop capacity)

/-- The status and body a result is sent with. -/
def sentResult (status : UInt16) (body : List UInt8) : UInt16 × List UInt8 :=
  if status > ModuleStatusInternal ∨ body.length > ModuleMessageMaxBody.toNat then (ModuleStatusInternal, [])
  else if status ≠ ModuleStatusOK then (status, [])
  else (status, body)

/-- One fragment of a result, `none` where the header does not encode. -/
def resultFragment (kind : UInt32) (correlation : UInt64) (stageID : UInt32) (traceID : UInt64)
    (status : UInt16) (part : List UInt8 × Bool) : Option Reply :=
  let message : ModuleMessage :=
    { operation := ModuleOpResult, status, stageID, bodyLen := .ofNat part.1.length, traceID }
  message.encode.map fun header => ⟨kind, correlation, header ++ part.1, part.2⟩

/-- The fragments the bus accepted, in order, and whether all went out. -/
def sendFragments (encode : List UInt8 × Bool → Option Reply) :
    List (List UInt8 × Bool) → Option ℕ → List Reply × Bool
  | [], _ => ([], true)
  | part :: parts, accepted =>
    match encode part with
    | none => ([], false)
    | some r =>
      if accepted = some 0 then ([], false)
      else
        let rest := sendFragments encode parts (accepted.map (· - 1))
        (r :: rest.1, rest.2)

/-- `replyModuleResult`: the fragments the bus accepted, and whether it returned without error. -/
def replyModuleResult (inlineBudget : UInt32) (kind : UInt32) (correlation : UInt64) (stageID : UInt32)
    (traceID : UInt64) (status : UInt16) (body : List UInt8) (accepted : Option ℕ) : List Reply × Bool :=
  let sent := sentResult status body
  if inlineBudget.toNat ≤ ModuleMessageHeaderLen then ([], false)
  else
    let parts := chunks (inlineBudget.toNat - ModuleMessageHeaderLen) sent.2.length sent.2
    sendFragments (resultFragment kind correlation stageID traceID sent.1) parts accepted

/-! ### The loop -/

/-- What the loop makes of a request fragment. -/
inductive Verdict where
  /-- The request is refused with a status. -/
  | refuse (stageID : UInt32) (traceID : UInt64) (status : UInt16)
  /-- More fragments are to come. -/
  | hold (assembly : ModuleAssembly)
  /-- The request is complete and goes to the handler. -/
  | start (message : ModuleMessage) (body : List UInt8)
  deriving DecidableEq, Repr

/-- A fragment that does not continue the assembly it arrives at. -/
def mismatched (assembly : ModuleAssembly) (kind : UInt32) (message : ModuleMessage) : Bool :=
  assembly.eventKind ≠ kind ∨ assembly.message.stageID ≠ message.stageID ∨
    assembly.message.deadlineNS ≠ message.deadlineNS ∨ assembly.message.traceID ≠ message.traceID

/-- The checks on a request fragment, in the order of the loop. -/
def judge (config : ModuleProcessConfig) (s : State) (e : Event) (now : UInt64) : Verdict :=
  let expectedStage := config.stages e.frame.eventKind
  let correlation := e.frame.correlationID
  let invalidModuleRequest := Verdict.refuse (if expectedStage = 0 then 1 else expectedStage) 0
    ModuleStatusInvalidRequest
  match decodeModuleMessage e.payload with
  | none => invalidModuleRequest
  | some message =>
    let assembly := s.assemblies.lookup correlation
    if expectedStage = 0 ∨ message.operation ≠ ModuleOpInvoke ∨ message.stageID ≠ expectedStage ∨
        (s.jobs.lookup correlation).isSome ∨ assembly.any (mismatched · e.frame.eventKind message) then
      invalidModuleRequest
    else if assembly = none ∧ s.assemblies.keys.length ≥ moduleMaxInFlight then
      .refuse expectedStage message.traceID ModuleStatusInternal
    else
      let assembly := assembly.getD ⟨e.frame.eventKind, message, []⟩
      let body := assembly.body ++ message.bodyOf e.payload
      if body.length > ModuleMessageMaxBody.toNat then
        .refuse expectedStage message.traceID ModuleStatusInternal
      else if hasFlag e.frame.hdrFlags FMore then .hold { assembly with body }
      else if message.deadlineExpired now then
        .refuse expectedStage message.traceID ModuleStatusDeadlineExceeded
      else if !config.handler then .refuse expectedStage message.traceID ModuleStatusCapabilityAbsent
      else if s.jobs.keys.length ≥ moduleMaxInFlight then
        .refuse expectedStage message.traceID ModuleStatusInternal
      else .start message body

/-- The result `runHandler` puts on the `done` channel. -/
def runHandler (work : ModuleWork) (response : List UInt8) (status : UInt16) (now : UInt64) :
    List UInt8 × UInt16 :=
  let (response, status) :=
    if status > ModuleStatusInternal ∨ response.length > ModuleMessageMaxBody.toNat then
      ([], ModuleStatusInternal)
    else if status ≠ ModuleStatusOK then ([], status)
    else (response, status)
  if work.cancelled then ([], ModuleStatusCancelled)
  else if work.invocation.deadlineNS ≠ 0 ∧ now ≠ 0 ∧ now ≥ work.invocation.deadlineNS then
    ([], ModuleStatusDeadlineExceeded)
  else (response, status)

/-- Sending a result; the loop returns where it fails. -/
def State.reply (config : ModuleProcessConfig) (s : State) (kind : UInt32) (correlation : UInt64)
    (stageID : UInt32) (traceID : UInt64) (status : UInt16) (body : List UInt8) (accepted : Option ℕ) : State :=
  let sent := replyModuleResult config.inlineBudget kind correlation stageID traceID status body accepted
  { s with replies := s.replies ++ sent.1, stopped := !sent.2 }

/-- A request fragment. Where a table is full there is no assembly to erase. -/
def State.request (config : ModuleProcessConfig) (s : State) (e : Event) (now : UInt64)
    (accepted : Option ℕ) : State :=
  let correlation := e.frame.correlationID
  match judge config s e now with
  | .refuse stageID traceID status =>
    { s with assemblies := s.assemblies.erase correlation }.reply config e.frame.eventKind correlation
      stageID traceID status [] accepted
  | .hold assembly => { s with assemblies := s.assemblies.insert correlation assembly }
  | .start message body =>
    let invocation : ModuleInvocation :=
      ⟨config.stages e.frame.eventKind, message.deadlineNS, message.traceID⟩
    { s with
      assemblies := s.assemblies.erase correlation
      jobs := s.jobs.insert correlation { eventKind := e.frame.eventKind, invocation }
      invoked := s.invoked ++ [⟨correlation, invocation, body⟩] }

/-- A cancel. -/
def State.cancel (s : State) (correlation : UInt64) : State :=
  { s with
    assemblies := s.assemblies.erase correlation
    jobs := match s.jobs.lookup correlation with
      | some work => s.jobs.insert correlation { work with cancelled := true }
      | none => s.jobs }

/-- One step of the loop or of a handler. -/
def step (config : ModuleProcessConfig) (s : State) (i : Input) : State :=
  if s.stopped then s
  else match i with
  | .polled e now accepted =>
    if hasFlag e.frame.hdrFlags FCancel then s.cancel e.frame.correlationID
    else if !hasFlag e.frame.hdrFlags FRequest then s
    else s.request config e now accepted
  | .handlerReturned correlation response status now =>
    match s.jobs.lookup correlation with
    | some work =>
      if work.result = none then
        let result := some (runHandler work response status now)
        { s with jobs := s.jobs.insert correlation { work with result } }
      else s
    | none => s
  | .resultReceived correlation accepted =>
    match s.jobs.lookup correlation with
    | some work =>
      match work.result with
      | some (body, status) =>
        { s with jobs := s.jobs.erase correlation }.reply config work.eventKind correlation
          work.invocation.stageID work.invocation.traceID status body accepted
      | none => s
    | none => s
  | .stop => { s with stopped := true }

/-! ### What a reply and a step do -/

variable {config : ModuleProcessConfig} {s : State} {e : Event} {now : UInt64}

/-- How many replies to `correlation` say that no more is to come. -/
def finals (correlation : UInt64) (replies : List Reply) : ℕ :=
  replies.countP fun r => r.correlationID == correlation && !r.more

@[simp] theorem finals_append (c : UInt64) (rs rs' : List Reply) :
    finals c (rs ++ rs') = finals c rs + finals c rs' := List.countP_append

/-- Only the last chunk of a body is final. -/
theorem chunks_final (capacity n : ℕ) (body : List UInt8) :
    (chunks capacity n body).countP (fun part => !part.2) = 1 := by
  induction n generalizing body with
  | zero => simp [chunks]
  | succ n ih =>
    rw [chunks]
    split_ifs
    · simp
    · simpa using ih _

theorem resultFragment_eq {kind : UInt32} {c : UInt64} {stageID : UInt32} {traceID : UInt64} {status : UInt16}
    {part : List UInt8 × Bool} {r : Reply} (h : resultFragment kind c stageID traceID status part = some r) :
    r.correlationID = c ∧ r.more = part.2 := by
  simp only [resultFragment, Option.map_eq_some_iff] at h
  obtain ⟨_, -, rfl⟩ := h
  exact ⟨rfl, rfl⟩

variable {encode : List UInt8 × Bool → Option Reply}

/-- No more final fragments go out than there are final chunks. -/
theorem finals_sendFragments_le (hf : ∀ part r, encode part = some r → r.more = part.2) (c : UInt64)
    (parts : List (List UInt8 × Bool)) (accepted : Option ℕ) :
    finals c (sendFragments encode parts accepted).1 ≤ parts.countP fun part => !part.2 := by
  induction parts generalizing accepted with
  | nil => simp [sendFragments, finals]
  | cons part parts ih =>
    rw [sendFragments]
    cases hr : encode part with
    | none => simp [finals]
    | some r =>
      have hm := hf _ _ hr
      have hrest := ih (accepted.map (· - 1))
      simp only
      split_ifs
      · simp [finals]
      · simp only [finals, List.countP_cons, hm] at hrest ⊢
        cases part.2 <;> simp <;> grind

theorem mem_sendFragments {parts : List (List UInt8 × Bool)} {accepted : Option ℕ} {r : Reply}
    (h : r ∈ (sendFragments encode parts accepted).1) : ∃ part, encode part = some r := by
  induction parts generalizing accepted with
  | nil => simp [sendFragments] at h
  | cons part parts ih =>
    rw [sendFragments] at h
    cases hr : encode part with
    | none => simp [hr] at h
    | some r' =>
      simp only [hr] at h
      split_ifs at h
      · simp at h
      · rcases List.mem_cons.1 h with rfl | h
        · exact ⟨part, hr⟩
        · exact ih h

/-- **A result is answered at most once**: of its fragments at most one is final, and none
is another correlation's. -/
theorem replyModuleResult_finals (budget kind : UInt32) (c c' : UInt64) (stageID : UInt32)
    (traceID : UInt64) (status : UInt16) (body : List UInt8) (accepted : Option ℕ) :
    finals c (replyModuleResult budget kind c' stageID traceID status body accepted).1 ≤
      if c = c' then 1 else 0 := by
  simp only [replyModuleResult]
  split_ifs with _ hc hc
  · simp [finals]
  · simp [finals]
  · calc _ ≤ _ := finals_sendFragments_le (fun _ _ h => (resultFragment_eq h).2) c _ accepted
      _ ≤ 1 := (chunks_final _ _ _).le
  · simp only [Nat.le_zero, finals, List.countP_eq_zero]
    intro r hr
    obtain ⟨part, hp⟩ := mem_sendFragments hr
    simp [(resultFragment_eq hp).1, Ne.symm hc]

/-! ### What the checks decide -/

/-- The request fragments among the inputs: whose they are, and whether more is to come. -/
def fragment : Input → Option (UInt64 × Bool)
  | .polled e _ _ =>
    if hasFlag e.frame.hdrFlags FCancel then none
    else if hasFlag e.frame.hdrFlags FRequest then
      some (e.frame.correlationID, hasFlag e.frame.hdrFlags FMore)
    else none
  | _ => none

/-- The body bytes of a request fragment, `none` where it does not decode. -/
def fragmentBody : Input → Option (List UInt8)
  | .polled e _ _ => (decodeModuleMessage e.payload).map (·.bodyOf e.payload)
  | _ => none

/-- What has been assembled of the request of `correlation`. -/
def State.assembled (s : State) (correlation : UInt64) : List UInt8 :=
  (s.assemblies.lookup correlation).elim [] ModuleAssembly.body

/-- Whether a fragment is taken. -/
def Verdict.accepts : Verdict → Bool
  | .refuse .. => false
  | .hold _ => true
  | .start .. => true

variable {accepted : Option ℕ}

/-- A fragment that is held lengthens the assembly of its request. -/
theorem judge_hold (accepted : Option ℕ) {a : ModuleAssembly} (h : judge config s e now = .hold a) :
    hasFlag e.frame.hdrFlags FMore ∧ ∃ b, fragmentBody (.polled e now accepted) = some b ∧
      a.body = s.assembled e.frame.correlationID ++ b := by
  simp only [judge] at h
  split at h
  · simp at h
  · next message hm =>
    split_ifs at h with _ _ _ hmore
    cases h
    refine ⟨hmore, message.bodyOf e.payload, by simp [fragmentBody, hm], ?_⟩
    cases hl : s.assemblies.lookup e.frame.correlationID <;> simp [State.assembled, hl]

/-- The handler gets what was assembled before the final fragment, and its body. -/
theorem judge_start (accepted : Option ℕ) {m : ModuleMessage} {body : List UInt8}
    (h : judge config s e now = .start m body) :
    hasFlag e.frame.hdrFlags FMore = false ∧ (∃ b, fragmentBody (.polled e now accepted) = some b ∧
      body = s.assembled e.frame.correlationID ++ b) ∧ s.jobs.lookup e.frame.correlationID = none := by
  simp only [judge] at h
  split at h
  · simp at h
  · next message hm =>
    split_ifs at h with hinvalid _ _ hmore
    cases h
    have hjob : s.jobs.lookup e.frame.correlationID = none := by
      cases hl : s.jobs.lookup e.frame.correlationID with
      | none => rfl
      | some w => exact absurd (by simp [hl]) hinvalid
    refine ⟨by simpa using hmore, ⟨m.bodyOf e.payload, by simp [fragmentBody, hm], ?_⟩, hjob⟩
    cases hl : s.assemblies.lookup e.frame.correlationID <;> simp [State.assembled, hl]

@[simp] theorem State.reply_assemblies (kind : UInt32) (c : UInt64) (stageID : UInt32) (traceID : UInt64)
    (status : UInt16) (body : List UInt8) :
    (s.reply config kind c stageID traceID status body accepted).assemblies = s.assemblies := rfl

@[simp] theorem State.reply_jobs (kind : UInt32) (c : UInt64) (stageID : UInt32) (traceID : UInt64)
    (status : UInt16) (body : List UInt8) :
    (s.reply config kind c stageID traceID status body accepted).jobs = s.jobs := rfl

@[simp] theorem State.reply_invoked (kind : UInt32) (c : UInt64) (stageID : UInt32) (traceID : UInt64)
    (status : UInt16) (body : List UInt8) :
    (s.reply config kind c stageID traceID status body accepted).invoked = s.invoked := rfl

/-- A reply to `c'` adds at most one final reply to `c'`, and none to another correlation. -/
theorem State.finals_reply (config : ModuleProcessConfig) (s : State) (accepted : Option ℕ) (c : UInt64)
    (kind : UInt32) (c' : UInt64) (stageID : UInt32) (traceID : UInt64) (status : UInt16)
    (body : List UInt8) :
    finals c (s.reply config kind c' stageID traceID status body accepted).replies ≤
      finals c s.replies + if c = c' then 1 else 0 := by
  simpa [State.reply] using replyModuleResult_finals ..

/-- A fragment is an event that reaches the checks. -/
theorem step_fragment (config : ModuleProcessConfig) {i : Input} {c : UInt64} {more : Bool} (hi : fragment i = some (c, more))
    (hs : s.stopped = false) : ∃ e now accepted, i = .polled e now accepted ∧ e.frame.correlationID = c ∧
      hasFlag e.frame.hdrFlags FMore = more ∧ step config s i = s.request config e now accepted := by
  cases i with
  | polled e now accepted =>
    simp only [fragment] at hi
    split_ifs at hi with hcancel hrequest
    cases hi
    exact ⟨e, now, accepted, rfl, rfl, rfl, by simp [step, hs, hcancel, hrequest]⟩
  | _ => simp [fragment] at hi

/-- An input that is not a fragment starts no handler and no assembly. -/
theorem step_other (config : ModuleProcessConfig) (s : State) {i : Input} (hi : fragment i = none) :
    (step config s i).invoked = s.invoked ∧
      ∀ c a, (step config s i).assemblies.lookup c = some a → s.assemblies.lookup c = some a := by
  cases i with
  | polled e now accepted =>
    simp only [fragment] at hi
    split_ifs at hi with hcancel hrequest
    · simp only [step, hcancel, if_true]
      split_ifs
      · exact ⟨rfl, fun _ _ h => h⟩
      · refine ⟨rfl, fun c a h => ?_⟩
        by_cases hc : c = e.frame.correlationID
        · subst hc
          simp [State.cancel] at h
        · simpa [State.cancel, AList.lookup_erase_ne hc] using h
    · simp [step, hcancel, hrequest]
  | handlerReturned c response status now =>
    simp only [step]
    split_ifs
    · exact ⟨rfl, fun _ _ h => h⟩
    · grind
  | resultReceived c accepted =>
    simp only [step]
    split_ifs
    · exact ⟨rfl, fun _ _ h => h⟩
    · grind [State.reply_invoked, State.reply_assemblies]
  | stop =>
    simp only [step]
    split_ifs <;> exact ⟨rfl, fun _ _ h => h⟩

/-! ### A small process -/

/-- A process that serves kind 256 as stage 7. -/
def oneStage : ModuleProcessConfig where
  stages kind := if kind = 256 then 7 else 0
  handler := true
  inlineBudget := 1024

/-- The event of a request fragment to kind 256. -/
def invokeEvent (correlation : UInt64) (stageID : UInt32) (body : List UInt8) (more : Bool) : Event where
  frame :=
    { hdrFlags := FRequest ||| FInline ||| if more then FMore else 0
      eventKind := 256
      correlationID := correlation
      payloadRef := 64
      payloadLen := .ofNat (ModuleMessageHeaderLen + body.length) }
  payload :=
    ModuleMessage.bytes { operation := ModuleOpInvoke, stageID, bodyLen := .ofNat body.length } ++ body

/-- Such a fragment of correlation 1, polled from a bus that takes the answer. -/
def fragmentPolled (stageID : UInt32) (body : List UInt8) (more : Bool) : Input :=
  .polled (invokeEvent 1 stageID body more) 0 none

end AimeeMemory.Bus
