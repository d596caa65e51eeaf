import AimeeMemory.Bus.Progress

/-!
# A call and its handler

A caller and a module, and what the host carries between them: the fragments of the request, in
order, into the loop of `runModuleClient`, and the replies, in order, into the loop of
`awaitReply`. Between these each party meets whatever else is sent to it, and both move in any
order.

## What is proved

* `awaitReply_delivered`: a call that returns a body has read all the chunks of it.
* `consistent_run`: what holds between the parties in every run.
* **`call_agreement`**: a call that returns a body has had its handler invoked once, with the
  whole request, and returns what the handler returned, in time.

## Honest scope

The host is not under `server-go/bus`. Of it only the order is assumed: a correlation's fragments
reach the module as they were sent, its replies reach the caller so, and neither meets other
events of that correlation (`InOrder`).
-/

namespace AimeeMemory.Bus

open AimeeMemory.Lib

variable {config : ModuleProcessConfig} {s : State} {i : Input} {e : Event} {now : UInt64} {accepted : Option ℕ}
  {correlation : UInt64} {q : ModuleRequest} {part : List UInt8 × Bool} {stageID : UInt32} {traceID : UInt64}
  {status : UInt16} {body : List UInt8} {r : Reply}

/-! ### What the caller reads -/

variable {call : Call} {p : Polling call} {polled left : List (Polling call)} {start returned : List UInt8}

/-- The events of the call's kind and correlation, in order. -/
def ownReplies (polled : List (Polling call)) : List Event :=
  (polled.filterMap Polling.event?).filter fun e =>
    e.frame.eventKind = call.eventKind ∧ e.frame.correlationID = call.correlation

theorem ownReplies_cons (p : Polling call) (polled : List (Polling call)) :
    (ownReplies (p :: polled) = ownReplies polled ∧ ∀ e, p.event? = some e →
        ¬(e.frame.eventKind = call.eventKind ∧ e.frame.correlationID = call.correlation)) ∨
      ∃ e, p.event? = some e ∧ (e.frame.eventKind = call.eventKind ∧ e.frame.correlationID = call.correlation) ∧
        ownReplies (p :: polled) = e :: ownReplies polled :=
  filterMap_filter_cons Polling.event?
    (fun e => e.frame.eventKind = call.eventKind ∧ e.frame.correlationID = call.correlation) p polled

theorem idleTurn_waits (start : List UInt8) (ctxDone late : Bool) :
    idleTurn start ctxDone late = .waiting start ∨ ∃ err, idleTurn start ctxDone late = .returned (.error err) := by
  cases ctxDone <;> cases late <;> simp [idleTurn]

/-- What is no reply to the call leaves its body alone, or ends it with an error. -/
theorem turn_foreign (start : List UInt8) (h : ∀ e, p.event? = some e →
      ¬(e.frame.eventKind = call.eventKind ∧ e.frame.correlationID = call.correlation)) :
    p.turn start = .waiting start ∨ ∃ err, p.turn start = .returned (.error err) := by
  cases p with
  | failed => exact .inr ⟨_, rfl⟩
  | empty ctxDone late => exact idleTurn_waits ..
  | delivered d ctxDone late =>
    rw [Polling.turn]
    cases hp : poll call.slotSize d.slot with
    | skipped => exact idleTurn_waits ..
    | panicked => exact .inr ⟨_, rfl⟩
    | event e =>
      have hne := h e (by simp [Polling.event?, hp])
      dsimp only
      rw [Call.eventTurn]
      by_cases habsent : e.frame.correlationID = call.correlation ∧ e.frame.eventKind = KindCapabilityAbsent
      · exact .inr ⟨_, if_pos habsent⟩
      by_cases hrejected : e.frame.correlationID = call.correlation ∧ e.frame.eventKind = KindError
      · exact .inr ⟨_, by rw [if_neg habsent, if_pos hrejected]⟩
      rw [if_neg habsent, if_neg hrejected, if_pos (by tauto)]
      exact .inl rfl

/-- A chunk of an OK result is appended to the body, which is returned with the last one; else the
call ends with an error. -/
theorem eventTurn_chunk (start : List UInt8)
    (hr : resultFragment call.eventKind call.correlation stageID traceID ModuleStatusOK part = some r)
    (hcarries : Carries e r) (hlen : part.1.length < 4294967296) :
    call.eventTurn start e = (if part.2 then .waiting (start ++ part.1) else .returned (.ok (start ++ part.1))) ∨
      ∃ err, call.eventTurn start e = .returned (.error err) := by
  obtain ⟨hdecode, hbody, hlength⟩ := decode_carried hr (toNat_ofNat_length hlen) hcarries
  obtain ⟨hkind, hcorrelation, hmore, -⟩ := fragmentOf_encode hr
  rw [Call.eventTurn, hcarries.eventKind, hcarries.correlationID, hkind, hcorrelation, hdecode]
  have hop : ¬ModuleOpResult ≠ ModuleOpResult := by decide
  simp only [ne_eq, not_true_eq_false, or_self, if_false, true_and, toNat_ofNat_length hlen, hlength, gt_iff_lt,
    lt_irrefl, hbody, hcarries.more, hmore]
  by_cases habsent : call.eventKind = KindCapabilityAbsent
  · exact .inr ⟨_, if_pos habsent⟩
  by_cases hrejected : call.eventKind = KindError
  · exact .inr ⟨_, by rw [if_neg habsent, if_pos hrejected]⟩
  rw [if_neg habsent, if_neg hrejected]
  by_cases hlimit : call.responseLimit < UInt32.ofNat start.length + UInt32.ofNat part.1.length
  · exact .inr ⟨_, if_pos hlimit⟩
  · exact .inl (if_neg hlimit)

/-- A result that is not OK ends the call with an error. -/
theorem eventTurn_refused (start : List UInt8)
    (hr : resultFragment call.eventKind call.correlation stageID traceID status ([], false) = some r)
    (hcarries : Carries e r) (hstatus : status ≠ ModuleStatusOK) :
    ∃ err, call.eventTurn start e = .returned (.error err) := by
  obtain ⟨hdecode, -⟩ := decode_carried hr rfl hcarries
  obtain ⟨hkind, hcorrelation, -⟩ := fragmentOf_encode hr
  rw [Call.eventTurn, hcarries.eventKind, hcarries.correlationID, hkind, hcorrelation, hdecode]
  simp only [ne_eq, not_true_eq_false, or_self, if_false, true_and, if_pos hstatus]
  split_ifs
  · exact ⟨_, rfl⟩
  · exact ⟨_, rfl⟩
  · exact ⟨_, rfl⟩

/-- A call that returns a body has been replied to, and the first reply was no error. -/
theorem awaitReply_first (h : awaitReply start polled = some (.ok returned, left)) :
    ∃ e es, ownReplies polled = e :: es ∧ ∀ err, call.eventTurn start e ≠ .returned (.error err) := by
  induction polled with
  | nil => cases h
  | cons p polled ih =>
    rcases ownReplies_cons p polled with ⟨hother, hne⟩ | ⟨e, hevent, -, hcons⟩
    · rcases turn_foreign start hne with hturn | ⟨err, hturn⟩
      · rw [awaitReply_waiting start polled hturn] at h
        exact hother ▸ ih h
      · rw [awaitReply_returned _ _ hturn] at h
        cases h
    · refine ⟨e, _, hcons, fun err hturn => ?_⟩
      rw [awaitReply_returned _ _ ((turn_event hevent).trans hturn)] at h
      cases h

/-- **A call that returns a body has read all the chunks of it**, where what it is replied is the
first chunks of an OK result. -/
theorem awaitReply_delivered {capacity n : ℕ} {rest : List UInt8} {parts : List (List UInt8 × Bool)}
    (hlen : rest.length ≤ ModuleMessageMaxBody.toNat) (hparts : parts <+: chunks capacity n rest)
    (hown : List.Forall₂ (fun part e => ∃ r,
      resultFragment call.eventKind call.correlation stageID traceID ModuleStatusOK part = some r ∧ Carries e r)
      parts (ownReplies polled)) (h : awaitReply start polled = some (.ok returned, left)) :
    returned = start ++ rest := by
  have hmax : ModuleMessageMaxBody.toNat = 16777216 := rfl
  induction polled generalizing start rest n parts with
  | nil => cases h
  | cons p polled ih =>
    rcases ownReplies_cons p polled with ⟨hother, hne⟩ | ⟨e, hevent, -, hcons⟩
    · rcases turn_foreign start hne with hturn | ⟨err, hturn⟩
      · rw [awaitReply_waiting start polled hturn] at h
        exact ih hlen hparts (hother ▸ hown) h
      · rw [awaitReply_returned _ _ hturn] at h
        cases h
    · rw [hcons] at hown
      cases hown with
      | cons hpart hrest =>
        obtain ⟨r, hr, hcarries⟩ := hpart
        rcases chunks_cases capacity n rest with hlast | ⟨m, hmore⟩
        · -- the last chunk
          rw [hlast, List.cons_prefix_cons] at hparts
          obtain ⟨rfl, -⟩ := hparts
          rcases eventTurn_chunk start hr hcarries (by dsimp only; omega) with hturn | ⟨err, hturn⟩
          · rw [awaitReply_returned _ _ ((turn_event hevent).trans hturn)] at h
            cases h
            rfl
          · rw [awaitReply_returned _ _ ((turn_event hevent).trans hturn)] at h
            cases h
        · rw [hmore, List.cons_prefix_cons] at hparts
          obtain ⟨rfl, hparts⟩ := hparts
          rcases eventTurn_chunk start hr hcarries (by simp; omega) with hturn | ⟨err, hturn⟩
          · rw [awaitReply_waiting _ _ ((turn_event hevent).trans hturn)] at h
            rw [ih (by simp; omega) hparts hrest h, List.append_assoc, List.take_append_drop]
          · rw [awaitReply_returned _ _ ((turn_event hevent).trans hturn)] at h
            cases h

/-! ### The system -/

/-- A caller and a module, and what each has met. -/
structure System (call : Call) where
  met : List Input := []
  loop : State := {}
  polled : List (Polling call) := []

/-- One of the parties moves. -/
inductive Move (call : Call) where
  | loop (i : Input)
  | caller (p : Polling call)

def System.step (config : ModuleProcessConfig) (w : System call) : Move call → System call
  | .loop i => { w with met := w.met ++ [i], loop := Bus.step config w.loop i }
  | .caller p => { w with polled := w.polled ++ [p] }

/-- The host carries the fragments to the module, and its replies to the caller, in order. -/
def InOrder (fragments : List Fragment) (w : System call) : Move call → Prop
  | .loop i => Delivers call.correlation fragments w.met i
  | .caller p => ∀ e ∈ p.event?, e.frame.eventKind = call.eventKind ∧ e.frame.correlationID = call.correlation →
      ∃ r ∈ (w.loop.repliesTo call.correlation)[(ownReplies w.polled).length]?, Carries e r

/-- What holds between the parties. -/
structure System.Consistent (config : ModuleProcessConfig) (q : ModuleRequest) (w : System call) : Prop where
  run : w.loop = run (Bus.step config) {} w.met
  progress : Progress config q w.met w.loop
  /-- The caller has polled the first replies. -/
  delivered : ∃ replies, List.Forall₂ Carries (ownReplies w.polled) replies ∧
    replies <+: w.loop.repliesTo call.correlation

theorem consistent_step {w : System call} {move : Move call} {fragments : List Fragment}
    (hlens : ∀ part ∈ q.parts, part.1.length < 4294967296) (hsent : q.SentAs fragments)
    (hcorrelation : q.correlation = call.correlation) (h : w.Consistent config q) (hmove : InOrder fragments w move) :
    (w.step config move).Consistent config q := by
  obtain ⟨replies, hcarried, hbegins⟩ := h.delivered
  cases move with
  | loop i =>
    refine ⟨?_, progress_step hlens hsent h.progress h.run ?_, replies, hcarried, hbegins.trans (repliesTo_step ..)⟩
    · rw [System.step, run_concat, ← h.run]
    · rw [hcorrelation]
      exact hmove
  | caller p =>
    refine ⟨h.run, h.progress, ?_⟩
    have hpolled : ownReplies (w.polled ++ [p]) = ownReplies w.polled ++ ownReplies [p] := by
      simp [ownReplies]
    rw [System.step, hpolled]
    rcases ownReplies_cons p [] with ⟨hother, -⟩ | ⟨e, hevent, hown, hcons⟩
    · rw [hother]
      exact ⟨replies, by simpa [ownReplies] using hcarried, hbegins⟩
    · obtain ⟨r, hr, hcarries⟩ := hmove e hevent hown
      refine ⟨replies ++ [r], ?_, ?_⟩
      · rw [hcons]
        exact List.rel_append hcarried (.cons hcarries .nil)
      · rw [hcarried.length_eq, Option.mem_def] at hr
        obtain ⟨later, hlater⟩ := hbegins
        rw [← hlater, List.getElem?_append_right le_rfl, Nat.sub_self] at hr
        cases later with
        | nil => cases hr
        | cons r' later =>
          obtain rfl := Option.some.inj hr
          exact ⟨later, by simp [← hlater]⟩

theorem consistent_run {moves : List (Move call)} {fragments : List Fragment}
    (hlens : ∀ part ∈ q.parts, part.1.length < 4294967296) (hsent : q.SentAs fragments)
    (hcorrelation : q.correlation = call.correlation)
    (hmoves : Meets (System.step config) (fun _ => InOrder fragments) {} moves) :
    (run (System.step config) ({} : System call) moves).Consistent config q := by
  have hinit : ({} : System call).Consistent config q := ⟨rfl, progress_init config q, [], .nil, List.nil_prefix⟩
  have hstep (_ : List (Move call)) (w : System call) (move : Move call) (hw : w.Consistent config q)
      (hmove : InOrder fragments w move) : (w.step config move).Consistent config q :=
    consistent_step hlens hsent hcorrelation hw hmove
  exact run_invariant (I := fun _ w => w.Consistent config q) hinit hstep moves hmoves

/-! ### A call that returns a body -/

variable {encode : List UInt8 × Bool → Option Reply} {parts : List (List UInt8 × Bool)}

/-- What goes out is the first chunks, encoded. -/
theorem sendFragments_forall₂ (encode : List UInt8 × Bool → Option Reply) (parts : List (List UInt8 × Bool))
    (accepted : Option ℕ) : ∃ sent, sent <+: parts ∧
      List.Forall₂ (fun part r => encode part = some r) sent (sendFragments encode parts accepted).1 ∧
        ((sendFragments encode parts accepted).2 = true → sent = parts) := by
  induction parts generalizing accepted with
  | nil => exact ⟨[], List.prefix_rfl, .nil, fun _ => rfl⟩
  | cons part parts ih =>
    rw [sendFragments]
    cases hr : encode part with
    | none => exact ⟨[], List.nil_prefix, .nil, by simp⟩
    | some r =>
      dsimp only
      split_ifs
      · exact ⟨[], List.nil_prefix, .nil, by simp⟩
      · obtain ⟨sent, hsent, hparts, hall⟩ := ih (accepted.map (· - 1))
        exact ⟨part :: sent, List.cons_prefix_cons.2 ⟨rfl, hsent⟩, .cons hr hparts, fun h => by rw [hall h]⟩

/-- A request that is sent is sent whole. -/
theorem send_forall₂ {inlineBudget kind : UInt32} {deadlineNS : UInt64} {request : List UInt8}
    (h : (send inlineBudget kind stageID traceID correlation deadlineNS request accepted).2 = true) :
    ModuleMessageHeaderLen < inlineBudget.toNat ∧
      List.Forall₂ (fun part r => invokeFragment kind correlation stageID traceID deadlineNS part = some r)
        (chunks (inlineBudget.toNat - ModuleMessageHeaderLen) request.length request)
        (send inlineBudget kind stageID traceID correlation deadlineNS request accepted).1 := by
  rw [send] at h ⊢
  split_ifs at h ⊢ with hbudget
  obtain ⟨sent, -, hparts, hwhole⟩ := sendFragments_forall₂ (invokeFragment kind correlation stageID traceID deadlineNS)
    (chunks (inlineBudget.toNat - ModuleMessageHeaderLen) request.length request) accepted
  rw [hwhole h] at hparts
  exact ⟨by omega, hparts⟩

namespace ModuleCaller

/-- What a call asks of the module. -/
def asks (m : ModuleCaller) (args : CallArgs) (now : UInt64) : ModuleRequest where
  eventKind := args.eventKind
  stageID := args.stageID
  correlation := m.correlation + 1
  traceID := args.traceID
  deadlineNS := if 0 < args.deadline then now + args.deadline.toUInt64 else 0
  body := args.request
  capacity := m.inlineBudget.toNat - ModuleMessageHeaderLen

variable {m : ModuleCaller} {args : CallArgs} {returned : Returned} {body : List UInt8}

/-- A call that returns a body has sent all of its request, and waited for its reply. -/
theorem call_ok {polled : List (Polling (m.next args.eventKind))}
    (hcall : m.call args now accepted polled = some returned) (hok : returned.result = .ok body) :
    ModuleMessageHeaderLen < m.inlineBudget.toNat ∧ (m.asks args now).SentAs (m.fragments args now) ∧
      ∃ left, awaitReply [] polled = some (.ok body, left) := by
  rw [ModuleCaller.call] at hcall
  dsimp only at hcall
  split_ifs at hcall with hsize hsent
  · cases hcall
    cases hok
  · cases hcall
    cases hok
  · rw [Bool.not_eq_true, Bool.not_eq_false'] at hsent
    have hall : (m.sendRequest args now none).2 = true := by
      cases accepted with
      | none => exact hsent
      | some n =>
        rw [sendRequest_some, Bool.and_eq_true] at hsent
        exact hsent.1
    have hreply : ∃ left, awaitReply [] polled = some (.ok body, left) := by
      split at hcall
      · cases hcall
      · next b left hreply =>
        cases hcall
        cases hok
        exact ⟨left, hreply⟩
      · cases hcall
      · cases hcall
        cases hok
    obtain ⟨hbudget, hparts⟩ := send_forall₂ hall
    refine ⟨hbudget, ?_, hreply⟩
    rw [ModuleCaller.fragments, if_neg hsize]
    exact hparts

/-- A chunk fits 32 bits. -/
theorem length_parts_lt (hbudget : ModuleMessageHeaderLen < m.inlineBudget.toNat) :
    ∀ part ∈ (m.asks args now).parts, part.1.length < 4294967296 := by
  intro part hpart
  have hle := length_chunks_le (Nat.sub_pos_of_lt hbudget) (le_refl args.request.length) part hpart
  have := m.inlineBudget.toNat_lt
  omega

end ModuleCaller

/-- The handler was invoked once for a request, with all of it, and returned the body in time. -/
def Served (config : ModuleProcessConfig) (q : ModuleRequest) (met : List Input) (body : List UInt8) : Prop :=
  (run (step config) {} met).invokedFor q.correlation = [⟨q.correlation, q.invocation, q.body⟩] ∧
    ∃ before now after, met = before ++ .handlerReturned q.correlation body ModuleStatusOK now :: after ∧
      (run (step config) {} before).jobs.lookup q.correlation =
        some { eventKind := q.eventKind, invocation := q.invocation } ∧
      (q.deadlineNS = 0 ∨ now = 0 ∨ now < q.deadlineNS)

/-- A result that is OK is what the handler returned, in time. -/
theorem runHandler_ok {work : ModuleWork} {response : List UInt8}
    (h : runHandler work response status now = (body, ModuleStatusOK)) :
    response = body ∧ status = ModuleStatusOK ∧
      (work.invocation.deadlineNS = 0 ∨ now = 0 ∨ now < work.invocation.deadlineNS) := by
  have hinternal : ModuleStatusInternal ≠ ModuleStatusOK := by decide
  have hcancelled : ModuleStatusCancelled ≠ ModuleStatusOK := by decide
  have hdeadline : ModuleStatusDeadlineExceeded ≠ ModuleStatusOK := by decide
  rw [runHandler] at h
  by_cases hbad : status > ModuleStatusInternal ∨ response.length > ModuleMessageMaxBody.toNat
  · simp only [hbad, if_true] at h
    split_ifs at h <;> simp_all
  · simp only [hbad, if_false] at h
    split_ifs at h with hne hc hlate <;> simp_all
    tauto

theorem sentResult_ok (h : (sentResult status body).1 = ModuleStatusOK) :
    status = ModuleStatusOK ∧ sentResult status body = (ModuleStatusOK, body) := by
  have hinternal : ModuleStatusInternal ≠ ModuleStatusOK := by decide
  rw [sentResult] at h ⊢
  split_ifs at h ⊢ with hbad hne
  · exact absurd h hinternal
  · exact absurd h hne
  · exact ⟨h, by rw [not_not.1 hne]⟩

/-- The module of a call that returns a body has answered it with that body. -/
theorem answered_of_reply {met : List Input} {replies : List Reply} (h : Progress config q met s)
    (hkind : q.eventKind = call.eventKind) (hcorrelation : q.correlation = call.correlation)
    (hcarried : List.Forall₂ Carries (ownReplies polled) replies) (hbegins : replies <+: s.repliesTo call.correlation)
    (hreply : awaitReply [] polled = some (.ok body, left)) :
    HandlerReturned config q met (body, ModuleStatusOK) ∧
      s.invokedFor q.correlation = [⟨q.correlation, q.invocation, q.body⟩] := by
  obtain ⟨e, es, hfirst, hnoError⟩ := awaitReply_first hreply
  -- the first reply is no refusal
  have hfirstReply : ∃ r, [r] <+: s.repliesTo q.correlation ∧ Carries e r := by
    rw [hfirst] at hcarried
    cases hcarried with
    | cons hcarries _ =>
      exact ⟨_, (List.cons_prefix_cons.2 ⟨rfl, List.nil_prefix⟩).trans (hcorrelation ▸ hbegins), hcarries⟩
  obtain ⟨r, hr, hcarries⟩ := hfirstReply
  have hsilent : s.repliesTo q.correlation ≠ [] := by
    intro hnone
    rw [hnone] at hr
    simp at hr
  have hrefusal {stageID : UInt32} {traceID : UInt64} {status : UInt16} {r' : Reply} (hstatus : status ≠ ModuleStatusOK)
      (hr' : resultFragment q.eventKind q.correlation stageID traceID status ([], false) = some r')
      (hreplies : [r'] <+: s.repliesTo q.correlation) : False := by
    obtain rfl : r = r' := by
      obtain ⟨later, hlater⟩ := hreplies
      rw [← hlater, List.singleton_append, List.cons_prefix_cons] at hr
      exact hr.1
    rw [hkind, hcorrelation] at hr'
    obtain ⟨err, herr⟩ := eventTurn_refused [] hr' hcarries hstatus
    exact hnoError err herr
  cases h with
  | collecting _ _ hreplies => exact absurd hreplies hsilent
  | running _ _ _ _ hreplies => exact absurd hreplies hsilent
  | silenced _ hreplies => exact absurd hreplies hsilent
  | refused _ _ _ _ hstatus hr' hreplies => exact (hrefusal hstatus hr' hreplies).elim
  | answered result accepted _ _ hreturned hreplies hinvoked =>
    obtain ⟨response, status⟩ := result
    by_cases hstatus : (sentResult status response).1 = ModuleStatusOK
    · obtain ⟨rfl, hsame⟩ := sentResult_ok hstatus
      have hlen : response.length ≤ ModuleMessageMaxBody.toNat := by
        have := (sentResult_le ModuleStatusOK response).2.1
        rwa [hsame] at this
      simp only [replyModuleResult, hsame] at hreplies
      split_ifs at hreplies
      · exact absurd hreplies hsilent
      -- what has been polled is the first chunks of the response
      obtain ⟨sent, hsent, hparts, -⟩ := sendFragments_forall₂
        (resultFragment q.eventKind q.correlation q.stageID q.traceID ModuleStatusOK)
        (chunks (config.inlineBudget.toNat - ModuleMessageHeaderLen) response.length response) accepted
      rw [← hreplies, hcorrelation] at hparts
      have hpolled := List.forall₂_take replies.length hparts
      rw [← List.prefix_iff_eq_take.1 hbegins, hkind] at hpolled
      have hbody := awaitReply_delivered hlen ((List.take_prefix _ _).trans hsent) (forall₂_comp hpolled hcarried) hreply
      rw [List.nil_append] at hbody
      exact ⟨hbody ▸ hreturned, hinvoked⟩
    · rcases replyModuleResult_refusal config.inlineBudget q.eventKind q.correlation q.stageID q.traceID hstatus accepted with
        hnone | ⟨r', hr', hone⟩
      · rw [hnone] at hreplies
        exact absurd hreplies hsilent
      · rw [hone] at hreplies
        exact (hrefusal hstatus hr' (hreplies ▸ List.prefix_rfl)).elim

/-- **A call and its handler agree**: in every run in which the host keeps the order, a call that
returns a body has had its handler invoked once, with the whole request, and returns what the
handler returned, in time. -/
theorem call_agreement {m : ModuleCaller} {args : CallArgs} {returned : Returned}
    {moves : List (Move (m.next args.eventKind))}
    (hmoves : Meets (System.step config) (fun _ => InOrder (m.fragments args now)) {} moves)
    (hcall : m.call args now accepted (run (System.step config) {} moves).polled = some returned)
    (hok : returned.result = .ok body) :
    Served config (m.asks args now) (run (System.step config) {} moves).met body := by
  obtain ⟨hbudget, hsent, left, hreply⟩ := ModuleCaller.call_ok hcall hok
  have hconsistent := consistent_run (ModuleCaller.length_parts_lt hbudget) hsent rfl hmoves
  obtain ⟨replies, hcarried, hbegins⟩ := hconsistent.delivered
  obtain ⟨hreturned, hinvoked⟩ := answered_of_reply hconsistent.progress rfl rfl hcarried hbegins hreply
  obtain ⟨before, response, status, now, after, hmet, hwork, hresult⟩ := hreturned
  obtain ⟨rfl, rfl, htime⟩ := runHandler_ok hresult.symm
  exact ⟨hconsistent.run ▸ hinvoked, before, now, after, hmet, hwork, htime⟩

instance (e : Event) (r : Reply) : Decidable (Carries e r) :=
  decidable_of_iff (e.frame.eventKind = r.eventKind ∧ e.frame.correlationID = r.correlationID ∧
      hasFlag e.frame.hdrFlags FMore = r.more ∧ e.payload = r.payload)
    ⟨fun h => ⟨h.1, h.2.1, h.2.2.1, h.2.2.2⟩, fun h => ⟨h.eventKind, h.correlationID, h.more, h.payload⟩⟩

instance (e : Event) (r : Reply) : Decidable (CarriesRequest e r) :=
  decidable_of_iff (Carries e r ∧ hasFlag e.frame.hdrFlags FRequest = true ∧ hasFlag e.frame.hdrFlags FCancel = false)
    ⟨fun h => ⟨h.1, h.2.1, h.2.2⟩, fun h => ⟨h.toCarries, h.request, h.notCancel⟩⟩

instance (fragments : List Fragment) (w : System call) (move : Move call) : Decidable (InOrder fragments w move) :=
  match move with
  | .loop i => inferInstanceAs (Decidable (∀ e ∈ i.event?, e.frame.correlationID = call.correlation →
      ∃ r ∈ fragments[(ownInputs call.correlation w.met).length]?, CarriesRequest e r))
  | .caller p => inferInstanceAs (Decidable (∀ e ∈ p.event?,
      e.frame.eventKind = call.eventKind ∧ e.frame.correlationID = call.correlation →
        ∃ r ∈ (w.loop.repliesTo call.correlation)[(ownReplies w.polled).length]?, Carries e r))

/-- The two fragments of a request arrive before and behind a request of another caller; its handler
returns a byte. -/
def twoCallers : List (Move (narrowCaller.next twoBytes.eventKind)) :=
  let fragments := narrowCaller.fragments twoBytes 0
  (fragments.take 1).map (fun r => .loop (.polled (requestEvent r) 0 none)) ++
    [.loop (.polled (invokeEvent 2 7 [5] false) 0 none)] ++
    (fragments.drop 1).map (fun r => .loop (.polled (requestEvent r) 0 none)) ++
    [.loop (.handlerReturned 2 [8] ModuleStatusOK 0), .loop (.handlerReturned 1 [9] ModuleStatusOK 0),
      .loop (.resultReceived 2 none), .loop (.resultReceived 1 none),
      .caller (.delivered (.ofRead (resultSlot 7 [9] false)) false false)]

theorem call_agreement_twoCallers :
    Served oneStage (narrowCaller.asks twoBytes 0) (run (System.step oneStage) {} twoCallers).met [9] := by
  have hmoves : Meets (System.step oneStage) (fun _ => InOrder (narrowCaller.fragments twoBytes 0)) {} twoCallers := by
    decide +kernel
  have hcall : narrowCaller.call twoBytes 0 none (run (System.step oneStage) {} twoCallers).polled =
      some { sent := narrowCaller.fragments twoBytes 0, result := .ok [9] } := by decide +kernel
  exact call_agreement hmoves hcall rfl

end AimeeMemory.Bus
