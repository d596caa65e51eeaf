import AimeeMemory.Bus.RoundTrip

/-!
# The progress of a request

A request in the loop of `runModuleClient`, whose fragments arrive in order between the events of
other correlations. The loop collects them, runs the handler and sends what it returned; or it
refuses one of them, and then nothing that it sends for the request is the first reply to it.

## What is proved

* `unmoved_step`: an input of another correlation moves nothing of the request.
* `judge_carried`: the loop takes the next fragment of the request, or refuses it with a status.
* **`progress_step`**: what the module has of the request after any of its steps.
-/

namespace AimeeMemory.Bus

open AimeeMemory.Lib

/-- The replies to a correlation, in order. -/
def State.repliesTo (s : State) (correlation : UInt64) : List Reply :=
  s.replies.filter (·.correlationID = correlation)

/-- The invocations for a correlation, in order. -/
def State.invokedFor (s : State) (correlation : UInt64) : List Invoked :=
  s.invoked.filter (·.correlationID = correlation)

/-! ### A correlation in the loop -/

/-- Whose input it is. -/
def Input.correlation? : Input → Option UInt64
  | .polled e _ _ => some e.frame.correlationID
  | .handlerReturned correlation _ _ _ => some correlation
  | .resultReceived correlation _ => some correlation
  | .stop => none

/-- All that the loop has of a correlation is unchanged. -/
structure Unmoved (correlation : UInt64) (s s' : State) : Prop where
  assembly : s'.assemblies.lookup correlation = s.assemblies.lookup correlation
  job : s'.jobs.lookup correlation = s.jobs.lookup correlation
  replies : s'.repliesTo correlation = s.repliesTo correlation
  invoked : s'.invokedFor correlation = s.invokedFor correlation

variable {config : ModuleProcessConfig} {s : State} {i : Input} {e : Event} {now : UInt64} {accepted : Option ℕ}
  {correlation : UInt64}

theorem Unmoved.refl (correlation : UInt64) (s : State) : Unmoved correlation s s := ⟨rfl, rfl, rfl, rfl⟩

theorem replyModuleResult_correlation {budget kind stageID : UInt32} {traceID : UInt64} {status : UInt16}
    {body : List UInt8} {r : Reply}
    (h : r ∈ (replyModuleResult budget kind correlation stageID traceID status body accepted).1) :
    r.correlationID = correlation := by
  simp only [replyModuleResult] at h
  split_ifs at h
  · simp at h
  · obtain ⟨part, hpart⟩ := mem_sendFragments h
    exact (resultFragment_eq hpart).1

/-- A reply to a correlation is added to its replies. -/
theorem repliesTo_reply (config : ModuleProcessConfig) (s : State) (correlation : UInt64) (accepted : Option ℕ)
    (kind : UInt32) (stageID : UInt32) (traceID : UInt64) (status : UInt16) (body : List UInt8) :
    (s.reply config kind correlation stageID traceID status body accepted).repliesTo correlation = s.repliesTo correlation ++
      (replyModuleResult config.inlineBudget kind correlation stageID traceID status body accepted).1 := by
  rw [State.repliesTo, State.reply, List.filter_append, State.repliesTo, List.append_cancel_left_eq,
    List.filter_eq_self]
  intro r hr
  simpa using replyModuleResult_correlation hr

theorem repliesTo_reply_ne {other : UInt64} (hne : other ≠ correlation) (kind : UInt32) (stageID : UInt32)
    (traceID : UInt64) (status : UInt16) (body : List UInt8) :
    (s.reply config kind other stageID traceID status body accepted).repliesTo correlation = s.repliesTo correlation := by
  rw [State.repliesTo, State.reply, List.filter_append, State.repliesTo, List.append_right_eq_self, List.filter_eq_nil_iff]
  intro r hr
  simpa [replyModuleResult_correlation hr] using hne

theorem unmoved_request (hne : e.frame.correlationID ≠ correlation) :
    Unmoved correlation s (s.request config e now accepted) := by
  have hne' := hne.symm
  unfold State.request
  dsimp only
  split
  · refine ⟨?_, rfl, repliesTo_reply_ne hne .., rfl⟩
    simp [AList.lookup_erase_ne hne']
  · exact ⟨AList.lookup_insert_ne hne', rfl, rfl, rfl⟩
  · refine ⟨AList.lookup_erase_ne hne', AList.lookup_insert_ne hne', rfl, ?_⟩
    simp [State.invokedFor, List.filter_append, hne]

theorem unmoved_cancel {other : UInt64} (hne : other ≠ correlation) : Unmoved correlation s (s.cancel other) := by
  refine ⟨AList.lookup_erase_ne hne.symm, ?_, rfl, rfl⟩
  simp only [State.cancel]
  split
  · exact AList.lookup_insert_ne hne.symm
  · rfl

/-- An input of another correlation moves nothing of this one. -/
theorem unmoved_step (config : ModuleProcessConfig) (s : State) (h : i.correlation? ≠ some correlation) :
    Unmoved correlation s (step config s i) := by
  unfold step
  by_cases hs : s.stopped = true
  · rw [if_pos hs]
    exact .refl _ _
  rw [if_neg hs]
  cases i with
  | polled e now accepted =>
    have hne : e.frame.correlationID ≠ correlation := fun he => h (congrArg some he)
    dsimp only
    split_ifs
    · exact unmoved_cancel hne
    · exact .refl _ _
    · exact unmoved_request hne
  | handlerReturned other response status now =>
    have hne : correlation ≠ other := fun he => h (congrArg some he.symm)
    dsimp only
    split
    · split_ifs
      · exact ⟨rfl, AList.lookup_insert_ne hne, rfl, rfl⟩
      · exact .refl _ _
    · exact .refl _ _
  | resultReceived other accepted =>
    have hne : correlation ≠ other := fun he => h (congrArg some he.symm)
    dsimp only
    split
    · split
      · exact ⟨rfl, AList.lookup_erase_ne hne, repliesTo_reply_ne hne.symm .., rfl⟩
      · exact .refl _ _
    · exact .refl _ _
  | stop => exact ⟨rfl, rfl, rfl, rfl⟩

theorem repliesTo_reply_prefix (config : ModuleProcessConfig) (s : State) (kind : UInt32) (other : UInt64) (stageID : UInt32)
    (traceID : UInt64) (status : UInt16) (body : List UInt8) (accepted : Option ℕ) : s.repliesTo correlation <+:
      (s.reply config kind other stageID traceID status body accepted).repliesTo correlation := by
  rw [State.repliesTo, State.repliesTo, State.reply, List.filter_append]
  exact List.prefix_append _ _

/-- A reply that has gone out stays out. -/
theorem repliesTo_step (config : ModuleProcessConfig) (s : State) (i : Input) (correlation : UInt64) :
    s.repliesTo correlation <+: (step config s i).repliesTo correlation := by
  unfold step
  split
  · exact List.prefix_rfl
  cases i with
  | polled e now accepted =>
    dsimp only
    split_ifs
    · exact List.prefix_rfl
    · exact List.prefix_rfl
    · unfold State.request
      dsimp only
      split
      · exact repliesTo_reply_prefix config { s with assemblies := s.assemblies.erase e.frame.correlationID } ..
      · exact List.prefix_rfl
      · exact List.prefix_rfl
  | handlerReturned other response status now =>
    dsimp only
    split
    · split_ifs <;> exact List.prefix_rfl
    · exact List.prefix_rfl
  | resultReceived other accepted =>
    dsimp only
    split
    · split
      · exact repliesTo_reply_prefix ..
      · exact List.prefix_rfl
    · exact List.prefix_rfl
  | stop => exact List.prefix_rfl

/-! ### The progress of a request -/

/-- A request that is sent in chunks. -/
structure ModuleRequest where
  eventKind : UInt32
  stageID : UInt32
  correlation : UInt64
  traceID : UInt64
  deadlineNS : UInt64
  body : List UInt8
  capacity : ℕ

namespace ModuleRequest

def parts (q : ModuleRequest) : List (List UInt8 × Bool) := chunks q.capacity q.body.length q.body

def invocation (q : ModuleRequest) : ModuleInvocation := ⟨q.stageID, q.deadlineNS, q.traceID⟩

/-- The bytes of the first chunks. -/
def arrived (q : ModuleRequest) (n : ℕ) : List UInt8 := (q.parts.take n).flatMap Prod.fst

/-- The fragments are those of the request. -/
def SentAs (q : ModuleRequest) (fragments : List Fragment) : Prop :=
  List.Forall₂ (fun part r =>
    invokeFragment q.eventKind q.correlation q.stageID q.traceID q.deadlineNS part = some r) q.parts fragments

end ModuleRequest

/-- The handler of a request returned, and this is what it put on the `done` channel. -/
def HandlerReturned (config : ModuleProcessConfig) (q : ModuleRequest) (met : List Input) (result : List UInt8 × UInt16) :
    Prop :=
  ∃ before response status now after, met = before ++ .handlerReturned q.correlation response status now :: after ∧
    let work : ModuleWork := { eventKind := q.eventKind, invocation := q.invocation }
    (run (step config) {} before).jobs.lookup q.correlation = some work ∧ result = runHandler work response status now

theorem HandlerReturned.concat {q : ModuleRequest} {met : List Input} {result : List UInt8 × UInt16}
    (h : HandlerReturned config q met result) (i : Input) : HandlerReturned config q (met ++ [i]) result := by
  obtain ⟨before, response, status, now, after, rfl, hreturned⟩ := h
  exact ⟨before, response, status, now, after ++ [i], by simp, hreturned⟩

/-- What the module has of a request. -/
inductive Progress (config : ModuleProcessConfig) (q : ModuleRequest) (met : List Input) (s : State) : Prop
  /-- More of its fragments are to come. -/
  | collecting (hcount : (ownInputs q.correlation met).length < q.parts.length)
      (hholds : Holds s q.eventKind q.stageID q.correlation q.traceID q.deadlineNS
        (q.arrived (ownInputs q.correlation met).length))
      (hreplies : s.repliesTo q.correlation = []) (hinvoked : s.invokedFor q.correlation = [])
  /-- Its handler runs, or has returned. -/
  | running (result : Option (List UInt8 × UInt16)) (hcount : (ownInputs q.correlation met).length = q.parts.length)
      (hwork : s.jobs.lookup q.correlation = some { eventKind := q.eventKind, invocation := q.invocation, result })
      (hresult : ∀ r ∈ result, HandlerReturned config q met r) (hreplies : s.repliesTo q.correlation = [])
      (hinvoked : s.invokedFor q.correlation = [⟨q.correlation, q.invocation, q.body⟩])
  /-- The result of its handler has been sent, or a part of it. -/
  | answered (result : List UInt8 × UInt16) (accepted : Option ℕ)
      (hcount : (ownInputs q.correlation met).length = q.parts.length) (hjob : s.jobs.lookup q.correlation = none)
      (hreturned : HandlerReturned config q met result)
      (hreplies : s.repliesTo q.correlation = (replyModuleResult config.inlineBudget q.eventKind q.correlation q.stageID
        q.traceID result.2 result.1 accepted).1)
      (hinvoked : s.invokedFor q.correlation = [⟨q.correlation, q.invocation, q.body⟩])
  /-- A fragment of it was refused. -/
  | refused (stageID : UInt32) (traceID : UInt64) (status : UInt16) (r : Reply) (hstatus : status ≠ ModuleStatusOK)
      (hr : resultFragment q.eventKind q.correlation stageID traceID status ([], false) = some r)
      (hreplies : [r] <+: s.repliesTo q.correlation)
  /-- The loop has returned without a reply. -/
  | silenced (hstopped : s.stopped = true) (hreplies : s.repliesTo q.correlation = [])

/-! ### Chunks -/

/-- Of the chunks of a body the last one is marked. -/
theorem chunks_eq (capacity n : ℕ) (rest : List UInt8) :
    ∃ (init : List (List UInt8)) (last : List UInt8), chunks capacity n rest = init.map (·, true) ++ [(last, false)] := by
  induction n generalizing rest with
  | zero => exact ⟨[], rest, rfl⟩
  | succ n ih =>
    rw [chunks]
    split_ifs
    · exact ⟨[], rest, rfl⟩
    · obtain ⟨init, last, hih⟩ := ih (rest.drop capacity)
      exact ⟨rest.take capacity :: init, last, by rw [hih]; rfl⟩

variable {q : ModuleRequest} {part : List UInt8 × Bool} {k : ℕ}

theorem ModuleRequest.more_iff (h : q.parts[k]? = some part) : part.2 = true ↔ k + 1 < q.parts.length := by
  rw [ModuleRequest.parts] at h ⊢
  obtain ⟨init, last, hchunks⟩ := chunks_eq q.capacity q.body.length q.body
  rw [hchunks, List.getElem?_append] at h
  rw [hchunks, List.length_append, List.length_map, List.length_singleton]
  split_ifs at h with hk
  · rw [List.length_map] at hk
    rw [List.getElem?_map, Option.map_eq_some_iff] at h
    obtain ⟨_, -, rfl⟩ := h
    simpa using hk
  · rw [List.length_map] at hk h
    rw [List.getElem?_singleton] at h
    split_ifs at h
    cases h
    simp only [Bool.false_eq_true, false_iff]
    omega

theorem ModuleRequest.arrived_succ (h : q.parts[k]? = some part) : q.arrived (k + 1) = q.arrived k ++ part.1 := by
  rw [ModuleRequest.arrived, List.take_add_one, h, List.flatMap_append]
  simp [ModuleRequest.arrived]

theorem ModuleRequest.arrived_all (q : ModuleRequest) : q.arrived q.parts.length = q.body := by
  rw [ModuleRequest.arrived, List.take_length]
  exact chunks_flatMap ..

/-! ### One step of the module -/

variable {met : List Input} {stageID : UInt32} {traceID : UInt64} {status : UInt16} {body : List UInt8} {r : Reply}

/-- The loop takes the next fragment of a request, or refuses it with a status. -/
theorem judge_carried (config : ModuleProcessConfig) (now : UInt64)
    (h : Holds s q.eventKind q.stageID q.correlation q.traceID q.deadlineNS (q.arrived k)) (hpart : q.parts[k]? = some part)
    (hlen : part.1.length < 4294967296)
    (hr : invokeFragment q.eventKind q.correlation q.stageID q.traceID q.deadlineNS part = some r) (hcarries : Carries e r) :
    (config.stages q.eventKind = q.stageID ∧ judge config s e now = nextVerdict s q.eventKind q.correlation
        (invokeMessage q.stageID q.traceID q.deadlineNS part.1.length) (q.arrived (k + 1)) part.2) ∨
      ∃ stageID traceID status, judge config s e now = .refuse stageID traceID status ∧ status ≠ ModuleStatusOK := by
  obtain ⟨hdecode, hcontent, -⟩ := decode_carried (m := invokeMessage q.stageID q.traceID q.deadlineNS part.1.length) hr
    (toNat_ofNat_length hlen) hcarries
  obtain ⟨hkind, hcorrelation, hmore, -⟩ := fragmentOf_encode hr
  have hkind' : e.frame.eventKind = q.eventKind := hcarries.eventKind.trans hkind
  have hcorrelation' : e.frame.correlationID = q.correlation := hcarries.correlationID.trans hcorrelation
  have hmore' : hasFlag e.frame.hdrFlags FMore = part.2 := hcarries.more.trans hmore
  obtain ⟨hopened, -⟩ := h.opened part.1.length
  have hstage : (invokeMessage q.stageID q.traceID q.deadlineNS part.1.length).stageID = q.stageID := rfl
  rw [ModuleRequest.arrived_succ hpart]
  generalize invokeMessage q.stageID q.traceID q.deadlineNS part.1.length = m at *
  rw [← hcorrelation'] at hopened ⊢
  unfold judge
  simp only [hkind', hdecode, hcontent, hopened, hmore']
  -- the checks of the loop, in its order
  split_ifs with hinvalid hzero hfull hbig hpending hexpired hhandler hjobs
  · exact .inr ⟨_, _, _, rfl, by decide⟩
  · exact .inr ⟨_, _, _, rfl, by decide⟩
  · exact .inr ⟨_, _, _, rfl, by decide⟩
  · exact .inr ⟨_, _, _, rfl, by decide⟩
  · simp only [not_or, not_not, hstage] at hinvalid
    exact .inl ⟨hinvalid.2.2.1.symm, by rw [nextVerdict, if_pos hpending]⟩
  · exact .inr ⟨_, _, _, rfl, by decide⟩
  · exact .inr ⟨_, _, _, rfl, by decide⟩
  · exact .inr ⟨_, _, _, rfl, by decide⟩
  · simp only [not_or, not_not, hstage] at hinvalid
    exact .inl ⟨hinvalid.2.2.1.symm, by rw [nextVerdict, if_neg hpending]⟩

theorem sentResult_ne (h : status ≠ ModuleStatusOK) (body : List UInt8) : (sentResult status body).1 ≠ ModuleStatusOK := by
  rw [sentResult]
  split_ifs
  · decide
  · exact h

/-- A result that is not OK goes out as one fragment, or not at all, and then the loop returns. -/
theorem replyModuleResult_refusal (budget kind : UInt32) (correlation : UInt64) (stageID : UInt32) (traceID : UInt64)
    (h : (sentResult status body).1 ≠ ModuleStatusOK) (accepted : Option ℕ) :
    replyModuleResult budget kind correlation stageID traceID status body accepted = ([], false) ∨
      ∃ r, resultFragment kind correlation stageID traceID (sentResult status body).1 ([], false) = some r ∧
        replyModuleResult budget kind correlation stageID traceID status body accepted = ([r], true) := by
  have hempty := (sentResult_le status body).2.2 h
  simp only [replyModuleResult, hempty]
  split_ifs
  · exact .inl rfl
  · rw [List.length_nil, chunks, sendFragments]
    cases resultFragment kind correlation stageID traceID (sentResult status body).1 ([], false) with
    | none => exact .inl rfl
    | some r =>
      dsimp only
      split_ifs
      · exact .inl rfl
      · exact .inr ⟨r, rfl, rfl⟩

/-- A refusal is the first reply to its request, or the loop returns without one. -/
theorem progress_refusal (s' : State) (hreplies : s'.repliesTo q.correlation = []) (hstatus : status ≠ ModuleStatusOK)
    (stageID : UInt32) (traceID : UInt64) (accepted : Option ℕ) :
    Progress config q met (s'.reply config q.eventKind q.correlation stageID traceID status [] accepted) := by
  have hne := sentResult_ne hstatus []
  have hsent := repliesTo_reply config s' q.correlation accepted q.eventKind stageID traceID status []
  rw [hreplies, List.nil_append] at hsent
  rcases replyModuleResult_refusal config.inlineBudget q.eventKind q.correlation stageID traceID hne accepted with
    hnone | ⟨r, hr, hone⟩
  · refine .silenced ?_ (by rw [hsent, hnone])
    simp [State.reply, hnone]
  · refine .refused stageID traceID _ r hne hr ?_
    have hreply := hsent.trans (congrArg Prod.fst hone)
    exact hreply ▸ List.prefix_rfl

/-- The next fragment of a request. -/
theorem progress_fragment {r : Fragment} (hs : s.stopped = false)
    (hcount : (ownInputs q.correlation met).length = k)
    (h : Holds s q.eventKind q.stageID q.correlation q.traceID q.deadlineNS (q.arrived k)) (hpart : q.parts[k]? = some part)
    (hlen : part.1.length < 4294967296) (hreplies : s.repliesTo q.correlation = [])
    (hinvoked : s.invokedFor q.correlation = [])
    (hr : invokeFragment q.eventKind q.correlation q.stageID q.traceID q.deadlineNS part = some r)
    (hcarries : CarriesRequest e r) :
    Progress config q (met ++ [.polled e now accepted]) (step config s (.polled e now accepted)) := by
  have hkind : e.frame.eventKind = q.eventKind := hcarries.eventKind.trans (fragmentOf_encode hr).eventKind
  have hcorrelation : e.frame.correlationID = q.correlation :=
    hcarries.correlationID.trans (fragmentOf_encode hr).correlationID
  have hcount' : (ownInputs q.correlation (met ++ [.polled e now accepted])).length = k + 1 := by
    rw [ownInputs, List.filterMap_append, List.filter_append, List.length_append, ← hcount]
    simp [ownInputs, Input.event?, hcorrelation]
  have hstep : step config s (.polled e now accepted) = s.request config e now accepted := by
    simp [step, hs, hcarries.notCancel, hcarries.request]
  rw [hstep, State.request, hcorrelation, hkind]
  rcases judge_carried config now h hpart hlen hr hcarries.toCarries with
    ⟨hserved, htaken⟩ | ⟨stage, trace, status, hrefused, hstatus⟩
  · rw [htaken, nextVerdict]
    by_cases hmore : part.2 = true
    · -- the bytes are added to what has come
      rw [if_pos hmore]
      have hlt := (ModuleRequest.more_iff hpart).1 hmore
      obtain ⟨-, hsame⟩ := h.opened part.1.length
      refine .collecting (by rw [hcount']; exact hlt) ⟨h.job, ?_, fun a ha => ?_⟩ hreplies hinvoked
      · rw [hcount']
        simp [State.assembled]
      · simp only [AList.lookup_insert, Option.some.injEq] at ha
        subst ha
        exact hsame
    · -- the request is complete
      rw [if_neg hmore]
      have hlast : k + 1 = q.parts.length := by
        have hk : k < q.parts.length := (List.getElem?_eq_some_iff.1 hpart).1
        have := mt (ModuleRequest.more_iff hpart).2 hmore
        omega
      refine .running none (hcount'.trans hlast) ?_ (by simp) hreplies ?_
      · rw [hserved]
        exact AList.lookup_insert _
      · rw [State.invokedFor] at hinvoked
        simp [State.invokedFor, hinvoked, hserved, hlast, q.arrived_all, invokeMessage, ModuleRequest.invocation]
  · rw [hrefused]
    exact progress_refusal { s with assemblies := s.assemblies.erase q.correlation } hreplies hstatus _ _ _

theorem ownInputs_concat_ne (h : ∀ e, i.event? = some e → e.frame.correlationID ≠ correlation) (met : List Input) :
    ownInputs correlation (met ++ [i]) = ownInputs correlation met := by
  rw [ownInputs, List.filterMap_append, List.filter_append, ownInputs, List.append_right_eq_self]
  cases hi : i.event? with
  | none => simp [hi]
  | some e => simp [hi, h e hi]

/-- What moves nothing of a request leaves its progress alone. -/
theorem Progress.unmoved {s' : State} (h : Progress config q met s) (hs : Unmoved q.correlation s s')
    (hown : ownInputs q.correlation (met ++ [i]) = ownInputs q.correlation met) (hstopped : s.stopped → s'.stopped) :
    Progress config q (met ++ [i]) s' := by
  cases h with
  | collecting hcount hholds hreplies hinvoked =>
    refine .collecting (by rwa [hown]) ⟨hs.job.trans hholds.job, ?_, fun a ha => ?_⟩ (hs.replies.trans hreplies)
      (hs.invoked.trans hinvoked)
    · rw [State.assembled, hs.assembly, hown]
      exact hholds.body
    · exact hholds.same a (hs.assembly ▸ ha)
  | running result hcount hwork hresult hreplies hinvoked =>
    exact .running result (by rwa [hown]) (hs.job.trans hwork) (fun r hr => (hresult r hr).concat i)
      (hs.replies.trans hreplies) (hs.invoked.trans hinvoked)
  | answered result accepted hcount hjob hreturned hreplies hinvoked =>
    exact .answered result accepted (by rwa [hown]) (hs.job.trans hjob) (hreturned.concat i) (hs.replies.trans hreplies)
      (hs.invoked.trans hinvoked)
  | refused stageID traceID status r hstatus hr hreplies =>
    exact .refused stageID traceID status r hstatus hr (hs.replies ▸ hreplies)
  | silenced hstop hreplies => exact .silenced (hstopped hstop) (hs.replies.trans hreplies)

/-- The handler of a request returns. -/
theorem progress_returned (h : Progress config q met s) (hrun : s = run (step config) {} met) (hs : s.stopped = false)
    (response : List UInt8) (status : UInt16) (now : UInt64) :
    Progress config q (met ++ [.handlerReturned q.correlation response status now])
      (step config s (.handlerReturned q.correlation response status now)) := by
  have hown : ownInputs q.correlation (met ++ [.handlerReturned q.correlation response status now]) =
      ownInputs q.correlation met := ownInputs_concat_ne (by simp [Input.event?]) met
  by_cases hpending : ∃ work, s.jobs.lookup q.correlation = some work ∧ work.result = none
  · obtain ⟨work, hwork, hnone⟩ := hpending
    have hstep : step config s (.handlerReturned q.correlation response status now) =
        { s with jobs := s.jobs.insert q.correlation { work with result := some (runHandler work response status now) } } := by
      simp [step, hs, hwork, hnone]
    rw [hstep]
    cases h with
    | collecting _ hholds =>
      rw [hholds.job] at hwork
      cases hwork
    | running result hcount hwork' hresult hreplies hinvoked =>
      obtain rfl := Option.some.inj (hwork'.symm.trans hwork)
      obtain rfl : result = none := hnone
      refine .running (some _) (by rwa [hown]) (AList.lookup_insert _) (fun r hr => ?_) hreplies hinvoked
      obtain rfl := Option.some.inj hr
      exact ⟨met, response, status, now, [], rfl, hrun ▸ hwork', rfl⟩
    | answered _ _ _ hjob =>
      rw [hjob] at hwork
      cases hwork
    | refused stageID traceID status r hstatus hr hreplies =>
      exact .refused stageID traceID status r hstatus hr hreplies
    | silenced hstopped hreplies => exact .silenced hstopped hreplies
  · have hstep : step config s (.handlerReturned q.correlation response status now) = s := by
      cases hwork : s.jobs.lookup q.correlation with
      | none => simp [step, hwork]
      | some work =>
        have hresult : work.result ≠ none := fun hnone => hpending ⟨work, hwork, hnone⟩
        simp [step, hwork, hresult]
    rw [hstep]
    exact h.unmoved (.refl _ _) hown id

/-- The loop takes the result of a request. -/
theorem progress_received (h : Progress config q met s) (hs : s.stopped = false) (accepted : Option ℕ) :
    Progress config q (met ++ [.resultReceived q.correlation accepted])
      (step config s (.resultReceived q.correlation accepted)) := by
  have hown : ownInputs q.correlation (met ++ [.resultReceived q.correlation accepted]) = ownInputs q.correlation met :=
    ownInputs_concat_ne (by simp [Input.event?]) met
  by_cases hdone : ∃ work result, s.jobs.lookup q.correlation = some work ∧ work.result = some result
  · obtain ⟨work, ⟨body, status⟩, hwork, hresult⟩ := hdone
    have hstep : step config s (.resultReceived q.correlation accepted) =
        ({ s with jobs := s.jobs.erase q.correlation }.reply config work.eventKind q.correlation work.invocation.stageID
          work.invocation.traceID status body accepted) := by
      simp [step, hs, hwork, hresult]
    cases h with
    | collecting _ hholds =>
      rw [hholds.job] at hwork
      cases hwork
    | running result hcount hwork' hreturned hreplies hinvoked =>
      obtain rfl := Option.some.inj (hwork'.symm.trans hwork)
      rw [hstep]
      refine .answered (body, status) accepted (by rwa [hown]) (AList.lookup_erase _ _)
        ((hreturned _ hresult).concat _) ?_ hinvoked
      rw [repliesTo_reply]
      exact (congrArg (· ++ _) hreplies).trans (List.nil_append _)
    | answered _ _ _ hjob =>
      rw [hjob] at hwork
      cases hwork
    | refused stageID traceID status r hstatus hr hreplies =>
      exact .refused stageID traceID status r hstatus hr (hreplies.trans (repliesTo_step ..))
    | silenced hstopped =>
      rw [hstopped] at hs
      cases hs
  · have hstep : step config s (.resultReceived q.correlation accepted) = s := by
      cases hwork : s.jobs.lookup q.correlation with
      | none => simp [step, hwork]
      | some work =>
        cases hresult : work.result with
        | none => simp [step, hwork, hresult]
        | some result => exact absurd ⟨work, result, hwork, hresult⟩ hdone
    rw [hstep]
    exact h.unmoved (.refl _ _) hown id

/-- An event of a correlation carries the next of its fragments. -/
def Delivers (correlation : UInt64) (fragments : List Fragment) (met : List Input) (i : Input) : Prop :=
  ∀ e ∈ i.event?, e.frame.correlationID = correlation →
    ∃ r ∈ fragments[(ownInputs correlation met).length]?, CarriesRequest e r

/-- There are no events of a request behind its last fragment. -/
theorem Delivers.none_left {fragments : List Fragment} (hi : Delivers q.correlation fragments met i) (hsent : q.SentAs fragments)
    (hcount : (ownInputs q.correlation met).length = q.parts.length) :
    ∀ e, i.event? = some e → e.frame.correlationID ≠ q.correlation := by
  intro e he hcorrelation
  obtain ⟨r, hr, -⟩ := hi e he hcorrelation
  have hlt := (List.getElem?_eq_some_iff.1 hr).1
  rw [hcount, hsent.length_eq] at hlt
  exact absurd hlt (lt_irrefl _)

/-- The next event of a request. -/
theorem progress_polled {fragments : List Fragment} (hlens : ∀ part ∈ q.parts, part.1.length < 4294967296)
    (hsent : q.SentAs fragments) (h : Progress config q met s) (hs : s.stopped = false)
    (hcorrelation : e.frame.correlationID = q.correlation)
    (hi : Delivers q.correlation fragments met (.polled e now accepted)) :
    Progress config q (met ++ [.polled e now accepted]) (step config s (.polled e now accepted)) := by
  cases h with
  | collecting hcount hholds hreplies hinvoked =>
    obtain ⟨r, hr, hcarries⟩ := hi e rfl hcorrelation
    obtain ⟨hlt, hget⟩ := List.getElem?_eq_some_iff.1 hr
    have hpart := hsent.get hcount hlt
    simp only [List.get_eq_getElem, hget] at hpart
    exact progress_fragment hs rfl hholds (List.getElem?_eq_getElem hcount) (hlens _ (List.getElem_mem hcount)) hreplies
      hinvoked hpart hcarries
  | running _ hcount => exact absurd hcorrelation (hi.none_left hsent hcount e rfl)
  | answered _ _ hcount => exact absurd hcorrelation (hi.none_left hsent hcount e rfl)
  | refused stageID traceID status r hstatus hr hreplies =>
    exact .refused stageID traceID status r hstatus hr (hreplies.trans (repliesTo_step ..))
  | silenced hstopped =>
    rw [hstopped] at hs
    cases hs

/-- A loop that has returned does nothing more. -/
theorem progress_stopped {fragments : List Fragment} (hsent : q.SentAs fragments) (h : Progress config q met s)
    (hs : s.stopped = true) (hi : Delivers q.correlation fragments met i) : Progress config q (met ++ [i]) s := by
  cases h with
  | collecting _ _ hreplies => exact .silenced hs hreplies
  | running _ _ _ _ hreplies => exact .silenced hs hreplies
  | answered result accepted hcount hjob hreturned hreplies hinvoked =>
    have hown := ownInputs_concat_ne (hi.none_left hsent hcount) met
    exact .answered result accepted (by rwa [hown]) hjob (hreturned.concat i) hreplies hinvoked
  | refused stageID traceID status r hstatus hr hreplies => exact .refused stageID traceID status r hstatus hr hreplies
  | silenced hstopped hreplies => exact .silenced hstopped hreplies

/-- **What the module has of a request after one of its steps.** -/
theorem progress_step {fragments : List Fragment} (hlens : ∀ part ∈ q.parts, part.1.length < 4294967296)
    (hsent : q.SentAs fragments) (h : Progress config q met s) (hrun : s = run (step config) {} met)
    (hi : Delivers q.correlation fragments met i) : Progress config q (met ++ [i]) (step config s i) := by
  by_cases hs : s.stopped = true
  · have hstep : step config s i = s := by simp [step, hs]
    rw [hstep]
    exact progress_stopped hsent h hs hi
  rw [Bool.not_eq_true] at hs
  by_cases hown : i.correlation? = some q.correlation
  · cases i with
    | polled e now accepted => exact progress_polled hlens hsent h hs (Option.some.inj hown) hi
    | handlerReturned c response status now =>
      obtain rfl := Option.some.inj hown
      exact progress_returned h hrun hs response status now
    | resultReceived c accepted =>
      obtain rfl := Option.some.inj hown
      exact progress_received h hs accepted
    | stop => cases hown
  · refine h.unmoved (unmoved_step config s hown) (ownInputs_concat_ne (fun e he hc => hown ?_) met) fun hstop => ?_
    · cases i <;> simp_all [Input.event?, Input.correlation?]
    · rw [hstop] at hs
      cases hs

/-- Before it has met anything, the module has nothing of a request. -/
theorem progress_init (config : ModuleProcessConfig) (q : ModuleRequest) : Progress config q [] {} := by
  refine .collecting ?_ ⟨rfl, rfl, by simp⟩ rfl rfl
  obtain ⟨init, last, hchunks⟩ := chunks_eq q.capacity q.body.length q.body
  rw [ModuleRequest.parts, hchunks]
  simp [ownInputs]

end AimeeMemory.Bus
