import AimeeMemory.Bus.Client

/-!
# Fragmentation round trips

A message of the bus is sent in fragments and put together by its receiver, between the
events of other correlations. Of an event only the kind, the correlation, the "more" mark and
the payload are taken from the fragment that it carries; the host writes the rest.

## What is proved

* `carries_poll`: what a client emits is polled as an event that carries it.
* `awaitReply_fragments`: the caller puts the body of a result together.
* `invoked_fragments`: the module puts a request together, where its loop admits it.
* **`fragmentation_roundTrip`**: both senders send all of a message, and both receivers read the
  same one.
* **`crowded_refused`**: a request that comes while sixteen others are open is not taken.
-/

namespace AimeeMemory.Bus

open AimeeMemory.Lib

/-- An event that carries a fragment. -/
structure Carries (e : Event) (r : Fragment) : Prop where
  eventKind : e.frame.eventKind = r.eventKind
  correlationID : e.frame.correlationID = r.correlationID
  more : hasFlag e.frame.hdrFlags FMore = r.more
  payload : e.payload = r.payload

/-- An event that carries a fragment of a request. -/
structure CarriesRequest (e : Event) (r : Fragment) : Prop extends Carries e r where
  request : hasFlag e.frame.hdrFlags FRequest = true
  notCancel : hasFlag e.frame.hdrFlags FCancel = false

/-- What `awaitReply` makes of a result. -/
def replied (status : UInt16) (body : List UInt8) : Except CallError (List UInt8) :=
  let sent := sentResult status body
  if sent.1 = ModuleStatusOK then .ok sent.2 else .error (.status sent.1)

variable {call : Call}

/-- The event that is polled. -/
def Polling.event? : Polling call → Option Event
  | .delivered d _ _ =>
    match poll call.slotSize d.slot with
    | .event e => some e
    | _ => none
  | _ => none

/-- Whether the call goes on where it polls no event of its own. -/
def Polling.goesOn : Polling call → Bool
  | .failed => false
  | .empty ctxDone late => !ctxDone && !late
  | .delivered d ctxDone late =>
    match poll call.slotSize d.slot with
    | .skipped => !ctxDone && !late
    | .panicked => false
    | .event _ => true

/-- The events of the call's correlation, in order. -/
def ownEvents (polled : List (Polling call)) : List Event :=
  (polled.filterMap Polling.event?).filter fun e => e.frame.correlationID = call.correlation

/-- A result is sent in fragments, and read as what was sent, whatever else is polled. -/
def ReplyRoundTrip (budget kind stageID : UInt32) (correlation traceID : UInt64) : Prop :=
  ∀ status body, ∃ fragments,
    replyModuleResult budget kind correlation stageID traceID status body none = (fragments, true) ∧
      ∀ call : Call, call.eventKind = kind → call.correlation = correlation →
        call.responseLimit = ModuleMessageMaxBody →
          ∀ polled : List (Polling call), (∀ p ∈ polled, p.goesOn) → List.Forall₂ Carries (ownEvents polled) fragments →
            ∃ left, awaitReply [] polled = some (replied status body, left)

/-- The event that the loop polls. -/
def Input.event? : Input → Option Event
  | .polled e _ _ => some e
  | _ => none

/-- The events of a correlation among the inputs, in order. -/
def ownInputs (correlation : UInt64) (is : List Input) : List Event :=
  (is.filterMap Input.event?).filter fun e => e.frame.correlationID = correlation

/-- Where an event of the correlation arrives, the loop runs, has room for a new assembly where it
needs one, and for a final fragment the deadline lies ahead and a handler is free. -/
def Admits (correlation deadlineNS : UInt64) (s : State) (i : Input) : Prop :=
  ∀ e now accepted, i = .polled e now accepted → e.frame.correlationID = correlation →
    s.stopped = false ∧ (s.assemblies.lookup correlation = none → s.assemblies.keys.length < moduleMaxInFlight) ∧
      (hasFlag e.frame.hdrFlags FMore = false →
        (deadlineNS = 0 ∨ now < deadlineNS) ∧ s.jobs.keys.length < moduleMaxInFlight)

/-- A request is sent in fragments, and handed to the handler as it was sent, whatever else
arrives, where the loop admits it. -/
def RequestRoundTrip (budget kind stageID : UInt32) (correlation traceID : UInt64) : Prop :=
  ∀ deadlineNS request, request.length ≤ ModuleMessageMaxBody.toNat → ∃ fragments,
    send budget kind stageID traceID correlation deadlineNS request none = (fragments, true) ∧
      ∀ config : ModuleProcessConfig, config.stages kind = stageID → config.handler = true →
        ∀ is, Meets (step config) (fun _ => Admits correlation deadlineNS) {} is →
          List.Forall₂ CarriesRequest (ownInputs correlation is) fragments →
            (run (step config) {} is).invoked.filter (·.correlationID = correlation) =
              [⟨correlation, ⟨stageID, deadlineNS, traceID⟩, request⟩]

/-! ### From the sender to an event -/

variable {c : Client} {out : Outbound} {pattern : UInt16} {r : Fragment} {slot : List UInt8} {e : Event}

/-- What a client emits is polled as an event that carries it. -/
theorem carries_poll (hpattern : pattern = FRequest ∨ pattern = FReply) (hpos : r.payload ≠ [])
    (hout : ∀ slot ∈ out.slot, slot.length = c.slotSize.toNat) (h : c.emitFragment out pattern r = .ok slot) :
    ∃ e, poll c.slotSize slot = .event e ∧ Carries e r := by
  obtain ⟨-, -, -, -, -, -, -, -, hmore⟩ := fragmentFlags_wellFormed hpattern r.more
  exact ⟨_, poll_emitFragment hpattern hpos hout h, rfl, rfl, hmore, rfl⟩

theorem carries_requestEvent (r : Fragment) : CarriesRequest (requestEvent r) r := by
  have hflags : ∀ more : Bool, hasFlag (FRequest ||| FInline ||| if more then FMore else 0) FMore = more ∧
      hasFlag (FRequest ||| FInline ||| if more then FMore else 0) FRequest = true ∧
      hasFlag (FRequest ||| FInline ||| if more then FMore else 0) FCancel = false := by decide
  obtain ⟨hmore, hrequest, hcancel⟩ := hflags r.more
  exact ⟨⟨rfl, rfl, hmore, rfl⟩, hrequest, hcancel⟩

/-- The header and the body of an event that carries an encoded message. -/
theorem decode_carried {m : ModuleMessage} {kind : UInt32} {correlation : UInt64} {part : List UInt8 × Bool}
    (hr : m.encode.map (fun header => (⟨kind, correlation, header ++ part.1, part.2⟩ : Fragment)) = some r)
    (hlen : m.bodyLen.toNat = part.1.length) (h : Carries e r) :
    decodeModuleMessage e.payload = some m ∧ m.bodyOf e.payload = part.1 ∧
      e.payload.length = ModuleMessageHeaderLen + part.1.length := by
  obtain ⟨header, hheader, rfl⟩ := Option.map_eq_some_iff.1 hr
  have hpayload : e.payload = header ++ part.1 := h.payload
  have hlength : header.length = ModuleMessageHeaderLen := by
    simp only [ModuleMessage.encode] at hheader
    split_ifs at hheader
    cases hheader
    exact ModuleMessage.length_bytes m
  rw [hpayload, ModuleMessage.decode_encode hheader hlen.le, ModuleMessage.bodyOf_encode hheader, hlen,
    List.take_length, List.length_append, hlength]
  exact ⟨rfl, rfl, rfl⟩

theorem forall₂_comp {α β γ : Type*} {R : α → β → Prop} {S : γ → β → Prop} {as : List α} {bs : List β} {cs : List γ}
    (has : List.Forall₂ R as bs) (hcs : List.Forall₂ S cs bs) :
    List.Forall₂ (fun a c => ∃ b, R a b ∧ S c b) as cs := by
  induction has generalizing cs with
  | nil =>
    cases hcs
    exact .nil
  | cons hab _ ih =>
    cases hcs with
    | cons hcb hrest => exact .cons ⟨_, hab, hcb⟩ (ih hrest)

/-! ### The reply -/

variable {kind stageID : UInt32} {correlation traceID deadlineNS : UInt64} {status : UInt16} {part : List UInt8 × Bool}
  {start : List UInt8} {p : Polling call} {polled : List (Polling call)}

/-- What is no event of the call leaves its body alone. -/
theorem turn_other (hgo : p.goesOn = true) (h : ∀ e, p.event? = some e → e.frame.correlationID ≠ call.correlation) :
    p.turn start = .waiting start := by
  cases p with
  | failed => simp [Polling.goesOn] at hgo
  | empty ctxDone late =>
    simp only [Polling.goesOn, Bool.and_eq_true, Bool.not_eq_true'] at hgo
    simp [Polling.turn, idleTurn, hgo.1, hgo.2]
  | delivered d ctxDone late =>
    rw [Polling.turn]
    cases hp : poll call.slotSize d.slot with
    | skipped =>
      simp only [Polling.goesOn, hp, Bool.and_eq_true, Bool.not_eq_true'] at hgo
      simp [idleTurn, hgo.1, hgo.2]
    | panicked => simp [Polling.goesOn, hp] at hgo
    | event e =>
      have hne := h e (by simp [Polling.event?, hp])
      simp [Call.eventTurn, hne]

theorem turn_event (h : p.event? = some e) : p.turn start = call.eventTurn start e := by
  cases p with
  | failed => simp [Polling.event?] at h
  | empty ctxDone late => simp [Polling.event?] at h
  | delivered d ctxDone late =>
    rw [Polling.turn]
    cases hp : poll call.slotSize d.slot with
    | skipped => simp [Polling.event?, hp] at h
    | panicked => simp [Polling.event?, hp] at h
    | event e' =>
      simp only [Polling.event?, hp, Option.some.injEq] at h
      rw [h]

/-- A fragment of an OK result is appended to the body, which is returned with the last one. -/
theorem eventTurn_ok (start : List UInt8)
    (hr : resultFragment call.eventKind call.correlation stageID traceID ModuleStatusOK part = some r)
    (hcarries : Carries e r) (habsent : call.eventKind ≠ KindCapabilityAbsent) (herror : call.eventKind ≠ KindError)
    (hlimit : call.responseLimit = ModuleMessageMaxBody)
    (hlen : start.length + part.1.length ≤ ModuleMessageMaxBody.toNat) :
    call.eventTurn start e =
      if part.2 then .waiting (start ++ part.1) else .returned (.ok (start ++ part.1)) := by
  have hmax : ModuleMessageMaxBody.toNat = 16777216 := rfl
  have hpart := toNat_ofNat_length (n := part.1.length) (by omega)
  obtain ⟨hdecode, hbody, hlength⟩ := decode_carried hr hpart hcarries
  obtain ⟨hkind, hcorrelation, hmore, -⟩ := fragmentOf_encode hr
  have hsum : ¬UInt32.ofNat start.length + UInt32.ofNat part.1.length > call.responseLimit := by
    have hstart := toNat_ofNat_length (n := start.length) (by omega)
    rw [hlimit, gt_iff_lt, UInt32.lt_iff_toNat_lt, UInt32.toNat_add, hstart, hpart]
    omega
  have hop : ¬ModuleOpResult ≠ ModuleOpResult := by decide
  rw [Call.eventTurn, hcarries.eventKind, hcarries.correlationID, hkind, hcorrelation, hdecode]
  simp only [habsent, herror, and_false, if_false, ne_eq, not_true_eq_false, or_self, hpart, hlength,
    gt_iff_lt, lt_irrefl, hbody, hcarries.more, hmore]
  rw [if_neg hsum]

/-- A result that is not OK ends the call. -/
theorem eventTurn_status (hr : resultFragment call.eventKind call.correlation stageID traceID status part = some r)
    (hcarries : Carries e r) (habsent : call.eventKind ≠ KindCapabilityAbsent) (herror : call.eventKind ≠ KindError)
    (hlen : part.1.length < 4294967296) (hstatus : status ≠ ModuleStatusOK) :
    call.eventTurn start e = .returned (.error (.status status)) := by
  obtain ⟨hdecode, hbody, hlength⟩ := decode_carried hr (toNat_ofNat_length hlen) hcarries
  obtain ⟨hkind, hcorrelation, hmore, -⟩ := fragmentOf_encode hr
  rw [Call.eventTurn, hcarries.eventKind, hcarries.correlationID, hkind, hcorrelation, hdecode]
  simp [habsent, herror, hstatus]

/-- What is polled begins with what is not the call's, or with its next event. -/
theorem ownEvents_cons (p : Polling call) (polled : List (Polling call)) :
    (ownEvents (p :: polled) = ownEvents polled ∧
        ∀ e, p.event? = some e → e.frame.correlationID ≠ call.correlation) ∨
      ∃ e, p.event? = some e ∧ e.frame.correlationID = call.correlation ∧ ownEvents (p :: polled) = e :: ownEvents polled :=
  filterMap_filter_cons Polling.event? (fun e => e.frame.correlationID = call.correlation) p polled

/-- The chunks of a body begin with the last one, or with one that more follow. -/
theorem chunks_cases (capacity n : ℕ) (rest : List UInt8) : chunks capacity n rest = [(rest, false)] ∨
    ∃ m, chunks capacity n rest = (rest.take capacity, true) :: chunks capacity m (rest.drop capacity) := by
  cases n with
  | zero => exact .inl rfl
  | succ n =>
    rw [chunks]
    split_ifs
    · exact .inl rfl
    · exact .inr ⟨n, rfl⟩

/-- There is always a chunk. -/
theorem not_forall₂_chunks_nil {β : Type*} {R : List UInt8 × Bool → β → Prop} (capacity n : ℕ) (rest : List UInt8) :
    ¬List.Forall₂ R (chunks capacity n rest) [] := by
  intro h
  rcases chunks_cases capacity n rest with hlast | ⟨m, hmore⟩
  · rw [hlast] at h
    cases h
  · rw [hmore] at h
    cases h

/-- What fits with the rest of a body fits with its next chunk, and with what follows it. -/
theorem chunk_fits {rest : List UInt8} {limit : ℕ} (capacity : ℕ) (hlen : start.length + rest.length ≤ limit) :
    start.length + (rest.take capacity).length ≤ limit ∧
      (start ++ rest.take capacity).length + (rest.drop capacity).length ≤ limit := by
  refine ⟨?_, ?_⟩
  · rw [List.length_take]
    omega
  · rw [List.length_append, Nat.add_assoc, ← List.length_append, List.take_append_drop]
    exact hlen

/-- **The caller puts the body of an OK result together.** -/
theorem awaitReply_fragments {capacity n : ℕ} {rest : List UInt8} (habsent : call.eventKind ≠ KindCapabilityAbsent)
    (herror : call.eventKind ≠ KindError) (hlimit : call.responseLimit = ModuleMessageMaxBody)
    (hlen : start.length + rest.length ≤ ModuleMessageMaxBody.toNat) (hgo : ∀ p ∈ polled, p.goesOn)
    (hown : List.Forall₂ (fun part e => ∃ r,
      resultFragment call.eventKind call.correlation stageID traceID ModuleStatusOK part = some r ∧ Carries e r)
      (chunks capacity n rest) (ownEvents polled)) :
    ∃ left, awaitReply start polled = some (.ok (start ++ rest), left) := by
  induction polled generalizing start rest n with
  | nil => exact absurd hown (not_forall₂_chunks_nil capacity n rest)
  | cons p polled ih =>
    have hrest : ∀ p ∈ polled, p.goesOn := fun q hq => hgo q (by simp [hq])
    rcases ownEvents_cons p polled with ⟨hother, hne⟩ | ⟨e, hevent, -, hcons⟩
    · rw [awaitReply_waiting start polled (turn_other (hgo p (by simp)) hne)]
      exact ih hlen hrest (hother ▸ hown)
    · rw [hcons] at hown
      rcases chunks_cases capacity n rest with hlast | ⟨m, hmore⟩
      · rw [hlast] at hown
        cases hown with
        | cons hpart _ =>
          obtain ⟨r, hr, hcarries⟩ := hpart
          have hturn := (turn_event hevent).trans (eventTurn_ok start hr hcarries habsent herror hlimit hlen)
          exact ⟨polled, awaitReply_returned _ _ hturn⟩
      · rw [hmore] at hown
        cases hown with
        | cons hpart hrest' =>
          obtain ⟨r, hr, hcarries⟩ := hpart
          obtain ⟨htake, hdrop⟩ := chunk_fits capacity hlen
          have hturn := (turn_event hevent).trans (eventTurn_ok start hr hcarries habsent herror hlimit htake)
          rw [awaitReply_waiting _ _ hturn]
          obtain ⟨left, hleft⟩ := ih hdrop hrest hrest'
          rw [List.append_assoc, List.take_append_drop] at hleft
          exact ⟨left, hleft⟩

theorem sentResult_le (status : UInt16) (body : List UInt8) :
    (sentResult status body).1 ≤ ModuleStatusInternal ∧
      (sentResult status body).2.length ≤ ModuleMessageMaxBody.toNat ∧
      ((sentResult status body).1 ≠ ModuleStatusOK → (sentResult status body).2 = []) := by
  rw [sentResult]
  split_ifs with hbad hstatus
  · exact ⟨by decide, by decide, fun _ => rfl⟩
  · simp only [not_or, not_lt, gt_iff_lt] at hbad
    exact ⟨UInt16.not_lt.1 hbad.1, by simp, fun _ => rfl⟩
  · simp only [not_or, not_lt, gt_iff_lt] at hbad
    exact ⟨UInt16.not_lt.1 hbad.1, hbad.2, fun h => absurd h hstatus⟩

/-- Where the header of every chunk encodes, all of a body is sent. -/
theorem sendFragments_chunks {encode : List UInt8 × Bool → Option Reply} (capacity : ℕ) {body : List UInt8}
    (hbody : body.length ≤ ModuleMessageMaxBody.toNat)
    (hencode : ∀ part : List UInt8 × Bool, part.1.length ≤ ModuleMessageMaxBody.toNat → (encode part).isSome) :
    ∃ fragments, sendFragments encode (chunks capacity body.length body) none = (fragments, true) ∧
      List.Forall₂ (fun part r => encode part = some r) (chunks capacity body.length body) fragments := by
  have hsome : ∀ part ∈ chunks capacity body.length body, (encode part).isSome := by
    intro part hpart
    refine hencode part ((List.Sublist.length_le ?_).trans hbody)
    rw [← chunks_flatMap capacity body.length body]
    exact List.sublist_flatten_of_mem (List.mem_map_of_mem hpart)
  obtain ⟨hall, hparts⟩ := sendFragments_none hsome
  exact ⟨_, by rw [← hall], hparts⟩

/-- An event of the call that ends it, behind what is not the call's. -/
theorem awaitReply_ended {r : Except CallError (List UInt8)} {es : List Event} (hgo : ∀ p ∈ polled, p.goesOn)
    (hown : ownEvents polled = e :: es) (hturn : call.eventTurn start e = .returned r) :
    ∃ left, awaitReply start polled = some (r, left) := by
  induction polled with
  | nil => simp [ownEvents] at hown
  | cons p polled ih =>
    rcases ownEvents_cons p polled with ⟨hother, hne⟩ | ⟨e', hevent, -, hcons⟩
    · rw [awaitReply_waiting start polled (turn_other (hgo p (by simp)) hne)]
      exact ih (fun q hq => hgo q (by simp [hq])) (hother ▸ hown)
    · rw [hcons] at hown
      obtain ⟨rfl, rfl⟩ := List.cons.inj hown
      exact ⟨polled, awaitReply_returned _ _ ((turn_event hevent).trans hturn)⟩

theorem reply_roundTrip {budget : UInt32} (hbudget : ModuleMessageHeaderLen < budget.toNat) (hstage : stageID ≠ 0)
    (habsent : kind ≠ KindCapabilityAbsent) (herror : kind ≠ KindError) :
    ReplyRoundTrip budget kind stageID correlation traceID := by
  intro status body
  obtain ⟨hstatus, hbody, hempty⟩ := sentResult_le status body
  have hencode (part : List UInt8 × Bool) (hpart : part.1.length ≤ ModuleMessageMaxBody.toNat) :
      (resultFragment kind correlation stageID traceID (sentResult status body).1 part).isSome :=
    (resultFragment_isSome hstatus (Nat.lt_of_le_of_lt hpart (by decide))).2 ⟨hstage, hpart⟩
  obtain ⟨fragments, hsent, hparts⟩ :=
    sendFragments_chunks (budget.toNat - ModuleMessageHeaderLen) hbody hencode
  refine ⟨fragments, ?_, ?_⟩
  · simp only [replyModuleResult]
    rw [if_neg (by omega), hsent]
  · rintro call rfl rfl hlimit polled hgo hown
    have hcarried := forall₂_comp hparts hown
    rw [replied]
    by_cases hok : (sentResult status body).1 = ModuleStatusOK
    · rw [if_pos hok]
      rw [hok] at hcarried
      exact awaitReply_fragments habsent herror hlimit (by simpa using hbody) hgo hcarried
    · -- a result that is not OK has no body, and goes out as one fragment
      rw [if_neg hok]
      rw [hempty hok] at hcarried
      cases hevents : ownEvents polled with
      | nil =>
        rw [hevents] at hcarried
        cases hcarried
      | cons e es =>
        rw [hevents] at hcarried
        cases hcarried with
        | cons hpart _ =>
          obtain ⟨r, hr, hcarries⟩ := hpart
          exact awaitReply_ended hgo hevents (eventTurn_status hr hcarries habsent herror (by simp) hok)

/-! ### The request -/

variable {config : ModuleProcessConfig} {s : State} {i : Input} {is : List Input} {acc : List UInt8}

/-- A correlation has the same assembly, no new job and no new invocation. -/
structure Untouched (correlation : UInt64) (s s' : State) : Prop where
  assembly : s'.assemblies.lookup correlation = s.assemblies.lookup correlation
  job : s.jobs.lookup correlation = none → s'.jobs.lookup correlation = none
  invoked : s'.invoked.filter (·.correlationID = correlation) = s.invoked.filter (·.correlationID = correlation)

theorem Untouched.refl (correlation : UInt64) (s : State) : Untouched correlation s s := ⟨rfl, id, rfl⟩

/-- The request of another correlation. -/
theorem untouched_request {now : UInt64} {accepted : Option ℕ} (hne : e.frame.correlationID ≠ correlation) :
    Untouched correlation s (s.request config e now accepted) := by
  have hne' := hne.symm
  unfold State.request
  dsimp only
  split
  · exact ⟨by simp [AList.lookup_erase_ne hne'], id, rfl⟩
  · exact ⟨AList.lookup_insert_ne hne', id, rfl⟩
  · refine ⟨AList.lookup_erase_ne hne', fun h => ?_, ?_⟩
    · exact (AList.lookup_insert_ne hne').trans h
    · simp [List.filter_append, hne]

theorem untouched_cancel {other : UInt64} (hne : other ≠ correlation) : Untouched correlation s (s.cancel other) := by
  refine ⟨AList.lookup_erase_ne hne.symm, fun h => ?_, rfl⟩
  simp only [State.cancel]
  split
  · exact (AList.lookup_insert_ne hne.symm).trans h
  · exact h

/-- An input that is no event of a correlation leaves it alone. -/
theorem untouched_step (config : ModuleProcessConfig) (s : State)
    (h : ∀ e, i.event? = some e → e.frame.correlationID ≠ correlation) : Untouched correlation s (step config s i) := by
  unfold step
  by_cases hs : s.stopped = true
  · rw [if_pos hs]
    exact .refl _ _
  rw [if_neg hs]
  cases i with
  | polled e now accepted =>
    have hne := h e rfl
    dsimp only
    split_ifs
    · exact untouched_cancel hne
    · exact .refl _ _
    · exact untouched_request hne
  | handlerReturned other response status now =>
    dsimp only
    split
    · next work hwork =>
      split_ifs
      · refine ⟨rfl, fun hnone => ?_, rfl⟩
        have hne : correlation ≠ other := by
          rintro rfl
          rw [hnone] at hwork
          cases hwork
        exact (AList.lookup_insert_ne hne).trans hnone
      · exact .refl _ _
    · exact .refl _ _
  | resultReceived other accepted =>
    dsimp only
    split
    · next work hwork =>
      split
      · refine ⟨rfl, fun hnone => ?_, rfl⟩
        have hne : correlation ≠ other := by
          rintro rfl
          rw [hnone] at hwork
          cases hwork
        exact (AList.lookup_erase_ne hne).trans hnone
      · exact .refl _ _
    · exact .refl _ _
  | stop => exact ⟨rfl, id, rfl⟩

/-- What the loop has of a request before its next fragment: no job, and an assembly of the bytes
that have come, with the header of its first fragment. -/
structure Holds (s : State) (kind stageID : UInt32) (correlation traceID deadlineNS : UInt64) (acc : List UInt8) :
    Prop where
  job : s.jobs.lookup correlation = none
  body : s.assembled correlation = acc
  same : ∀ a, s.assemblies.lookup correlation = some a → a.eventKind = kind ∧ a.message.stageID = stageID ∧
    a.message.deadlineNS = deadlineNS ∧ a.message.traceID = traceID

theorem Holds.untouched {s' : State} (h : Holds s kind stageID correlation traceID deadlineNS acc)
    (hs : Untouched correlation s s') : Holds s' kind stageID correlation traceID deadlineNS acc where
  job := hs.job h.job
  body := by
    rw [State.assembled, hs.assembly]
    exact h.body
  same a ha := h.same a (hs.assembly ▸ ha)

/-- The header of a fragment of an invocation. -/
def invokeMessage (stageID : UInt32) (traceID deadlineNS : UInt64) (size : ℕ) : ModuleMessage :=
  { operation := ModuleOpInvoke, stageID, bodyLen := .ofNat size, deadlineNS, traceID }

/-- What the loop makes of the next fragment of a request that it admits. -/
def nextVerdict (s : State) (kind : UInt32) (correlation : UInt64) (m : ModuleMessage) (body : List UInt8)
    (more : Bool) : Verdict :=
  if more then .hold { (s.assemblies.lookup correlation).getD ⟨kind, m, []⟩ with body } else .start m body

/-- The assembly that the loop adds the next fragment to: what has come, or a new one. -/
theorem Holds.opened (h : Holds s kind stageID correlation traceID deadlineNS acc) (size : ℕ) :
    let opened := (s.assemblies.lookup correlation).getD ⟨kind, invokeMessage stageID traceID deadlineNS size, []⟩
    opened.body = acc ∧ opened.eventKind = kind ∧ opened.message.stageID = stageID ∧
      opened.message.deadlineNS = deadlineNS ∧ opened.message.traceID = traceID := by
  have hbody := h.body
  rw [State.assembled] at hbody
  cases hl : s.assemblies.lookup correlation with
  | none =>
    rw [hl] at hbody
    exact ⟨hbody, rfl, rfl, rfl, rfl⟩
  | some a =>
    rw [hl] at hbody
    exact ⟨hbody, h.same a hl⟩

/-- The next fragment continues the assembly that it arrives at. -/
theorem Holds.continues (h : Holds s kind stageID correlation traceID deadlineNS acc) (size : ℕ) :
    (s.assemblies.lookup correlation).any (mismatched · kind (invokeMessage stageID traceID deadlineNS size)) = false := by
  cases hl : s.assemblies.lookup correlation with
  | none => rfl
  | some a =>
    obtain ⟨hkind, hstageID, hdeadline, htrace⟩ := h.same a hl
    simp [mismatched, hkind, hstageID, hdeadline, htrace, invokeMessage]

theorem not_deadlineExpired (stageID : UInt32) (traceID : UInt64) {now : UInt64} (size : ℕ)
    (h : deadlineNS = 0 ∨ now < deadlineNS) :
    (invokeMessage stageID traceID deadlineNS size).deadlineExpired now = false := by
  rw [ModuleMessage.deadlineExpired, invokeMessage]
  rcases h with h0 | hlt
  · simp [h0]
  · simp [UInt64.not_le.2 hlt]

theorem judge_fragment {now : UInt64} {accepted : Option ℕ} (h : Holds s kind stageID correlation traceID deadlineNS acc)
    (hstage : stageID ≠ 0) (hserved : config.stages kind = stageID) (hhandler : config.handler = true)
    (hr : invokeFragment kind correlation stageID traceID deadlineNS part = some r) (hcarries : Carries e r)
    (hlen : acc.length + part.1.length ≤ ModuleMessageMaxBody.toNat)
    (hadmits : Admits correlation deadlineNS s (.polled e now accepted)) :
    judge config s e now =
      nextVerdict s kind correlation (invokeMessage stageID traceID deadlineNS part.1.length) (acc ++ part.1) part.2 := by
  have hmax : ModuleMessageMaxBody.toNat = 16777216 := rfl
  obtain ⟨hdecode, hbody, -⟩ := decode_carried (m := invokeMessage stageID traceID deadlineNS part.1.length) hr
    (toNat_ofNat_length (by omega)) hcarries
  obtain ⟨hkind, hcorrelation, hmore, -⟩ := fragmentOf_encode hr
  have hkind' : e.frame.eventKind = kind := hcarries.eventKind.trans hkind
  have hcorrelation' : e.frame.correlationID = correlation := hcarries.correlationID.trans hcorrelation
  have hmore' : hasFlag e.frame.hdrFlags FMore = part.2 := hcarries.more.trans hmore
  obtain ⟨-, hroom, hfinal⟩ := hadmits e now accepted rfl hcorrelation'
  rw [hmore'] at hfinal
  subst hcorrelation'
  -- the checks of the loop, in its order
  obtain ⟨hopened, -⟩ := h.opened part.1.length
  have hexpired (hlast : part.2 = false) := not_deadlineExpired stageID traceID part.1.length (hfinal hlast).1
  have hinvalid : ¬(stageID = 0 ∨ (invokeMessage stageID traceID deadlineNS part.1.length).operation ≠ ModuleOpInvoke ∨
      (invokeMessage stageID traceID deadlineNS part.1.length).stageID ≠ stageID ∨
        (s.jobs.lookup e.frame.correlationID).isSome ∨ (s.assemblies.lookup e.frame.correlationID).any
          (mismatched · kind (invokeMessage stageID traceID deadlineNS part.1.length))) := by
    rw [h.continues, h.job]
    simp [hstage, invokeMessage]
  have hspace : ¬(s.assemblies.lookup e.frame.correlationID = none ∧ s.assemblies.keys.length ≥ moduleMaxInFlight) := by
    rintro ⟨hl, hfull⟩
    exact absurd (hroom hl) (by omega)
  have hsize : ¬(acc ++ part.1).length > ModuleMessageMaxBody.toNat := by
    rw [List.length_append]
    omega
  generalize invokeMessage stageID traceID deadlineNS part.1.length = m at *
  unfold judge
  simp only [hkind', hserved, hdecode, hbody, hopened, hmore']
  rw [if_neg hinvalid, if_neg hspace, if_neg hsize, nextVerdict]
  cases hp : part.2 with
  | true => simp
  | false =>
    obtain ⟨-, hjobs⟩ := hfinal hp
    rw [if_neg (by simp), hexpired hp, if_neg (by simp), if_neg (by simp [hhandler]), if_neg (by omega)]
    simp

/-- A fragment that more follow is added to what the loop has. -/
theorem step_more {now : UInt64} {accepted : Option ℕ} (h : Holds s kind stageID correlation traceID deadlineNS acc)
    (hstage : stageID ≠ 0) (hserved : config.stages kind = stageID) (hhandler : config.handler = true)
    (hr : invokeFragment kind correlation stageID traceID deadlineNS part = some r) (hcarries : CarriesRequest e r)
    (hlen : acc.length + part.1.length ≤ ModuleMessageMaxBody.toNat) (hmore : part.2 = true)
    (hadmits : Admits correlation deadlineNS s (.polled e now accepted)) :
    Holds (step config s (.polled e now accepted)) kind stageID correlation traceID deadlineNS (acc ++ part.1) ∧
      (step config s (.polled e now accepted)).invoked = s.invoked := by
  have hjudge := judge_fragment h hstage hserved hhandler hr hcarries.toCarries hlen hadmits
  have hcorrelation : e.frame.correlationID = correlation :=
    hcarries.correlationID.trans (fragmentOf_encode hr).correlationID
  obtain ⟨hrun, -, -⟩ := hadmits e now accepted rfl hcorrelation
  subst hcorrelation
  obtain ⟨opened, hopened⟩ : ∃ opened, (s.assemblies.lookup e.frame.correlationID).getD
      ⟨kind, invokeMessage stageID traceID deadlineNS part.1.length, []⟩ = opened := ⟨_, rfl⟩
  obtain ⟨-, hsame⟩ := h.opened part.1.length
  rw [hopened] at hsame
  rw [nextVerdict, if_pos hmore, hopened] at hjudge
  have hstep : step config s (.polled e now accepted) =
      { s with assemblies := s.assemblies.insert e.frame.correlationID { opened with body := acc ++ part.1 } } := by
    simp [step, hrun, hcarries.notCancel, hcarries.request, State.request, hjudge]
  rw [hstep]
  refine ⟨⟨h.job, by simp [State.assembled], fun a ha => ?_⟩, rfl⟩
  simp only [AList.lookup_insert, Option.some.injEq] at ha
  subst ha
  exact hsame

/-- The final fragment starts the handler with all that has come. -/
theorem step_final {now : UInt64} {accepted : Option ℕ} (h : Holds s kind stageID correlation traceID deadlineNS acc)
    (hstage : stageID ≠ 0) (hserved : config.stages kind = stageID) (hhandler : config.handler = true)
    (hr : invokeFragment kind correlation stageID traceID deadlineNS part = some r) (hcarries : CarriesRequest e r)
    (hlen : acc.length + part.1.length ≤ ModuleMessageMaxBody.toNat) (hfinal : part.2 = false)
    (hadmits : Admits correlation deadlineNS s (.polled e now accepted)) :
    (step config s (.polled e now accepted)).invoked =
      s.invoked ++ [⟨correlation, ⟨stageID, deadlineNS, traceID⟩, acc ++ part.1⟩] := by
  have hjudge := judge_fragment h hstage hserved hhandler hr hcarries.toCarries hlen hadmits
  have hfragment := fragmentOf_encode hr
  have hcorrelation : e.frame.correlationID = correlation := hcarries.correlationID.trans hfragment.correlationID
  have hkind : e.frame.eventKind = kind := hcarries.eventKind.trans hfragment.eventKind
  obtain ⟨hrun, -, -⟩ := hadmits e now accepted rfl hcorrelation
  simp [step, hrun, hcarries.notCancel, hcarries.request, State.request, hjudge, nextVerdict, hfinal, hcorrelation, hkind,
    hserved, invokeMessage]

/-- The inputs begin with what is not the correlation's, or with its next event. -/
theorem ownInputs_cons (correlation : UInt64) (i : Input) (is : List Input) :
    (ownInputs correlation (i :: is) = ownInputs correlation is ∧
        ∀ e, i.event? = some e → e.frame.correlationID ≠ correlation) ∨
      ∃ e now accepted, i = .polled e now accepted ∧ ownInputs correlation (i :: is) = e :: ownInputs correlation is := by
  rcases filterMap_filter_cons Input.event? (fun e => e.frame.correlationID = correlation) i is with
    hother | ⟨e, hevent, -, hcons⟩
  · exact .inl hother
  · cases i with
    | polled e' now accepted =>
      cases hevent
      exact .inr ⟨e, now, accepted, rfl, hcons⟩
    | _ => cases hevent

/-- What is no event of a correlation starts no handler for it. -/
theorem invoked_untouched (config : ModuleProcessConfig) (h : ownInputs correlation is = []) :
    (run (step config) s is).invoked.filter (·.correlationID = correlation) =
      s.invoked.filter (·.correlationID = correlation) := by
  induction is generalizing s with
  | nil => rfl
  | cons i is ih =>
    rcases ownInputs_cons correlation i is with ⟨hother, hne⟩ | ⟨e, now, accepted, -, hcons⟩
    · exact (ih (hother ▸ h)).trans (untouched_step config s hne).invoked
    · rw [hcons] at h
      cases h

/-- **The module puts a request together**, and hands it to the handler once. -/
theorem invoked_fragments {capacity n : ℕ} {rest : List UInt8} (hstage : stageID ≠ 0)
    (hserved : config.stages kind = stageID) (hhandler : config.handler = true)
    (h : Holds s kind stageID correlation traceID deadlineNS acc)
    (hlen : acc.length + rest.length ≤ ModuleMessageMaxBody.toNat)
    (hadmits : Meets (step config) (fun _ => Admits correlation deadlineNS) s is)
    (hown : List.Forall₂ (fun part e => ∃ r,
      invokeFragment kind correlation stageID traceID deadlineNS part = some r ∧ CarriesRequest e r)
      (chunks capacity n rest) (ownInputs correlation is)) :
    (run (step config) s is).invoked.filter (·.correlationID = correlation) =
      s.invoked.filter (·.correlationID = correlation) ++ [⟨correlation, ⟨stageID, deadlineNS, traceID⟩, acc ++ rest⟩] := by
  induction is generalizing s acc rest n with
  | nil => exact absurd hown (not_forall₂_chunks_nil capacity n rest)
  | cons i is ih =>
    obtain ⟨hi, his⟩ := meets_cons.1 hadmits
    rcases ownInputs_cons correlation i is with ⟨hother, hne⟩ | ⟨e, now, accepted, rfl, hcons⟩
    · have huntouched := untouched_step config s hne
      rw [← huntouched.invoked]
      exact ih (h.untouched huntouched) hlen his (hother ▸ hown)
    · rw [hcons] at hown
      rcases chunks_cases capacity n rest with hlast | ⟨m, hmore⟩
      · rw [hlast] at hown
        cases hown with
        | cons hpart hnone =>
          obtain ⟨r, hr, hcarries⟩ := hpart
          have hend : ownInputs correlation is = [] := List.forall₂_nil_left_iff.1 hnone
          have hfinal := step_final h hstage hserved hhandler hr hcarries hlen rfl hi
          refine (invoked_untouched config hend).trans ?_
          rw [hfinal, List.filter_append]
          simp
      · rw [hmore] at hown
        cases hown with
        | cons hpart hrest =>
          obtain ⟨r, hr, hcarries⟩ := hpart
          obtain ⟨htake, hdrop⟩ := chunk_fits capacity hlen
          obtain ⟨hholds, hinvoked⟩ := step_more h hstage hserved hhandler hr hcarries htake rfl hi
          have hrun := ih hholds hdrop his hrest
          rw [hinvoked, List.append_assoc, List.take_append_drop] at hrun
          exact hrun

theorem request_roundTrip {budget : UInt32} (hbudget : ModuleMessageHeaderLen < budget.toNat) (hstage : stageID ≠ 0) :
    RequestRoundTrip budget kind stageID correlation traceID := by
  intro deadlineNS request hrequest
  have hencode (part : List UInt8 × Bool) (hpart : part.1.length ≤ ModuleMessageMaxBody.toNat) :
      (invokeFragment kind correlation stageID traceID deadlineNS part).isSome :=
    (invokeFragment_isSome (Nat.lt_of_le_of_lt hpart (by decide))).2 ⟨hstage, hpart⟩
  obtain ⟨fragments, hsent, hparts⟩ := sendFragments_chunks (budget.toNat - ModuleMessageHeaderLen) hrequest hencode
  refine ⟨fragments, ?_, ?_⟩
  · rw [send, if_neg (by omega)]
    exact hsent
  · intro config hserved hhandler is hadmits hown
    have hholds : Holds {} kind stageID correlation traceID deadlineNS [] := ⟨rfl, rfl, by simp⟩
    exact invoked_fragments hstage hserved hhandler hholds (by simpa using hrequest) hadmits (forall₂_comp hparts hown)

/-! ### Both halves -/

/-- **Both round trips**, where the budget has room for a byte after the header. -/
theorem fragmentation_roundTrip {budget kind stageID : UInt32} (hbudget : ModuleMessageHeaderLen < budget.toNat)
    (hstage : stageID ≠ 0) (habsent : kind ≠ KindCapabilityAbsent) (herror : kind ≠ KindError)
    (correlation traceID : UInt64) :
    ReplyRoundTrip budget kind stageID correlation traceID ∧ RequestRoundTrip budget kind stageID correlation traceID :=
  ⟨reply_roundTrip hbudget hstage habsent herror, request_roundTrip hbudget hstage⟩

/-- On a bus whose fragments carry one byte. -/
theorem fragmentation_roundTrip_narrow : (41 : UInt32).toNat = ModuleMessageHeaderLen + 1 ∧
    ReplyRoundTrip 41 256 7 1 0 ∧ RequestRoundTrip 41 256 7 1 0 :=
  ⟨rfl, fragmentation_roundTrip (by decide) (by decide) (by decide) (by decide) 1 0⟩

/-! ### What the loop refuses -/

/-- Sixteen requests of other correlations, of each of which more is to come. -/
def crowd : List Input :=
  (List.range 16).map fun n => .polled (invokeEvent (.ofNat (n + 2)) 7 [1] true) 0 none

/-- A request, polled fragment by fragment at time 2. -/
def requestPolled (fragments : List Fragment) : List Input :=
  fragments.map fun r => .polled (requestEvent r) 2 none

/-- A request goes out whole, and behind the crowd it never reaches the handler; neither does one
whose deadline has passed. A result that is not OK goes out without its body, and a reply of the
kind by which the host refuses a request is read as that. -/
theorem crowded_refused :
    ((send 1024 256 7 0 1 0 [5] none).2 = true ∧
      List.Forall₂ CarriesRequest (ownInputs 1 (crowd ++ requestPolled (send 1024 256 7 0 1 0 [5] none).1))
        (send 1024 256 7 0 1 0 [5] none).1 ∧
      (run (step oneStage) {} (crowd ++ requestPolled (send 1024 256 7 0 1 0 [5] none).1)).invoked = []) ∧
    ((send 1024 256 7 0 1 1 [5] none).2 = true ∧
      (run (step oneStage) {} (requestPolled (send 1024 256 7 0 1 1 [5] none).1)).invoked = []) ∧
    replyModuleResult 1024 256 1 7 0 ModuleStatusInvalidRequest [5] none =
      replyModuleResult 1024 256 1 7 0 ModuleStatusInvalidRequest [] none ∧
    ∀ r ∈ (replyModuleResult 1024 KindCapabilityAbsent 1 7 0 ModuleStatusOK [5] none).1, ∀ e, Carries e r →
      (⟨KindCapabilityAbsent, 1, 1024, ModuleMessageMaxBody⟩ : Call).eventTurn [] e = .returned (.error .capabilityAbsent) := by
  refine ⟨⟨by decide +kernel, ?_, by decide +kernel⟩, ⟨by decide +kernel, by decide +kernel⟩, rfl, ?_⟩
  · -- the events of correlation 1 are those of its fragments
    have hown : ownInputs 1 (crowd ++ requestPolled (send 1024 256 7 0 1 0 [5] none).1) =
        (send 1024 256 7 0 1 0 [5] none).1.map requestEvent := by decide +kernel
    rw [hown, List.forall₂_map_left_iff]
    exact List.forall₂_same.2 fun r _ => carries_requestEvent r
  · intro r hr e hcarries
    have hfragment : ∀ r ∈ (replyModuleResult 1024 KindCapabilityAbsent 1 7 0 ModuleStatusOK [5] none).1,
        r.correlationID = 1 ∧ r.eventKind = KindCapabilityAbsent := by decide +kernel
    obtain ⟨hcorrelation, hkind⟩ := hfragment r hr
    rw [Call.eventTurn, if_pos ⟨hcarries.correlationID.trans hcorrelation, hcarries.eventKind.trans hkind⟩]

end AimeeMemory.Bus
