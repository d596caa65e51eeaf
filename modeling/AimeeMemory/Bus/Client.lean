import AimeeMemory.Bus.ModuleCall

/-!
# Sending through a client

`AttachControl` of `server-go/bus/region.go`, and `emit` and its callers of
`server-go/bus/client.go`, which put one frame into a slot of the outbound ring.

## What is proved

* **`poll_emitFragment`**: a fragment that is emitted is polled out of its slot as it was.
* **`sendable_iff`**: no fragment of a request or of a reply is refused for its size exactly when
  the header and the whole inline budget fit a slot, and the budget is a payload.
* **`fullBudget_refused`**: a budget as large as the slot is attached, and a reply that fills it
  is refused.

## Honest scope

A client has its geometry from the attach reply of the host, which is the one in the control
region, and the slots of its outbound ring are as large as this says.
-/

namespace AimeeMemory.Bus

open AimeeMemory.Lib

/-! ### The control region -/

/-- `"BCTL"`. -/
def ctlMagic : UInt32 := 0x4c544342

def specVersion : UInt32 := 1
def layoutVersion : UInt32 := 1
def ctlBytes : ℕ := 96

/-- The sizes in a control region. -/
structure Geometry where
  slotSize : UInt32
  inlineBudget : UInt32
  arenaSize : UInt64
  deriving DecidableEq, Repr

/-- `AttachControl`: the sizes of a region that is accepted. -/
def attachControl (mem : List UInt8) : Option Geometry :=
  if mem.length < ctlBytes then none
  else if UInt32.ofNat (field mem 0 4) ≠ ctlMagic then none
  else if UInt32.ofNat (field mem 4 4) ≠ specVersion ∨ UInt32.ofNat (field mem 8 4) ≠ layoutVersion then none
  else
    let slot := UInt32.ofNat (field mem 16 4)
    let inl := UInt32.ofNat (field mem 20 4)
    let arena := UInt64.ofNat (field mem 32 8)
    if slot = 0 ∨ inl > slot ∨ arena = 0 then none else some ⟨slot, inl, arena⟩

/-- The region of a host with these sizes and a queue of eight slots. -/
def controlRegion (g : Geometry) : List UInt8 :=
  putLE 4 ctlMagic.toNat ++ putLE 4 specVersion.toNat ++ putLE 4 layoutVersion.toNat ++ putLE 4 0 ++
    putLE 4 g.slotSize.toNat ++ putLE 4 g.inlineBudget.toNat ++ putLE 4 8 ++ putLE 4 0 ++
    putLE 8 g.arenaSize.toNat ++ List.replicate 56 0

/-- The budget that `AttachControl` accepts is bounded by the slot alone. -/
theorem attachControl_some {mem : List UInt8} {g : Geometry} (h : attachControl mem = some g) :
    g.slotSize ≠ 0 ∧ g.inlineBudget ≤ g.slotSize ∧ g.arenaSize ≠ 0 := by
  simp only [attachControl] at h
  split_ifs at h with _ _ _ hsizes
  cases h
  simp only [not_or] at hsizes
  exact ⟨hsizes.1, UInt32.not_lt.1 hsizes.2.1, hsizes.2.2⟩

/-- And each such budget is accepted. -/
theorem attachControl_controlRegion {g : Geometry} (hslot : g.slotSize ≠ 0) (hinl : g.inlineBudget ≤ g.slotSize)
    (harena : g.arenaSize ≠ 0) : attachControl (controlRegion g) = some g := by
  have hlen : ¬(controlRegion g).length < ctlBytes := by simp [controlRegion, ctlBytes]
  have hmagic : UInt32.ofNat (field (controlRegion g) 0 4) = ctlMagic := by
    simp [controlRegion]
  have hspec : UInt32.ofNat (field (controlRegion g) 4 4) = specVersion := by
    simp [controlRegion]
  have hlayout : UInt32.ofNat (field (controlRegion g) 8 4) = layoutVersion := by
    simp [controlRegion]
  have hslot' : UInt32.ofNat (field (controlRegion g) 16 4) = g.slotSize := by
    simp [controlRegion]
  have hinl' : UInt32.ofNat (field (controlRegion g) 20 4) = g.inlineBudget := by
    simp [controlRegion]
  have harena' : UInt64.ofNat (field (controlRegion g) 32 8) = g.arenaSize := by
    simp [controlRegion]
  simp only [attachControl, hlen, hmagic, hspec, hlayout, hslot', hinl', harena']
  rw [if_neg (by simp), if_neg (by simp), if_neg (by simp), if_neg]
  rintro (h | h | h)
  · exact hslot h
  · exact absurd h (UInt32.not_lt.2 hinl)
  · exact harena h

/-! ### Emitting -/

/-- An attached client. -/
structure Client where
  slotSize : UInt32
  inlineBudget : UInt32
  handle : UInt32
  deriving DecidableEq, Repr

/-- A client of a region. -/
def Geometry.client (g : Geometry) (handle : UInt32) : Client := ⟨g.slotSize, g.inlineBudget, handle⟩

inductive EmitError where
  /-- `ErrPayload`. -/
  | payload
  /-- `ErrEpoch`. -/
  | epoch
  /-- `ErrWouldBlock`. -/
  | wouldBlock
  /-- `ErrProtocol`. -/
  | protocol
  deriving DecidableEq, Repr

/-- What a client finds when it emits: whether the epoch has changed, and the slot that
`ProduceBegin` returns, `none` where the ring is full. -/
structure Outbound where
  epochChanged : Bool := false
  slot : Option (List UInt8)

namespace Client

/-- The frame around a payload. -/
def frame (c : Client) (flags : UInt16) (kind : UInt32) (correlation : UInt64) (payload : List UInt8) : Frame :=
  if payload = [] then { hdrFlags := flags, eventKind := kind, correlationID := correlation, srcHandle := c.handle }
  else
    { hdrFlags := flags ||| FInline, eventKind := kind, correlationID := correlation, srcHandle := c.handle,
      payloadLen := .ofNat payload.length, payloadRef := .ofNat HdrLen }

/-- `emit`: the slot that it commits, or its error. -/
def emit (c : Client) (out : Outbound) (flags : UInt16) (kind : UInt32) (correlation : UInt64)
    (payload : List UInt8) : Except EmitError (List UInt8) :=
  if 0 < payload.length ∧
      (UInt32.ofNat payload.length > c.inlineBudget ∨ HdrLen + payload.length > c.slotSize.toNat) then .error .payload
  else if out.epochChanged then .error .epoch
  else
    match out.slot with
    | none => .error .wouldBlock
    | some slot =>
      let encoded := (c.frame flags kind correlation payload).encodeInto slot
      if encoded.1 ≠ HdrLen then .error .protocol
      else
        .ok (encoded.2.take HdrLen ++ payload.take (slot.length - HdrLen) ++ encoded.2.drop (HdrLen + payload.length))

/-- The checks that `RequestFragment` and `ReplyFragment` make before they emit. -/
def emitFragment (c : Client) (out : Outbound) (pattern : UInt16) (r : Fragment) : Except EmitError (List UInt8) :=
  if r.correlationID = 0 then .error .protocol
  else if r.more ∧ r.payload = [] then .error .protocol
  else c.emit out (if r.more then pattern ||| FMore else pattern) r.eventKind r.correlationID r.payload

/-- `RequestFragment`. -/
def requestFragment (c : Client) (out : Outbound) (r : Fragment) : Except EmitError (List UInt8) :=
  c.emitFragment out FRequest r

/-- `ReplyFragment`. -/
def replyFragment (c : Client) (out : Outbound) (r : Fragment) : Except EmitError (List UInt8) :=
  c.emitFragment out FReply r

end Client

/-! ### What is emitted -/

variable {c : Client} {out : Outbound} {pattern : UInt16} {r : Fragment} {slot : List UInt8}

/-- The flags of a fragment. -/
def fragmentFlags (pattern : UInt16) (more : Bool) : UInt16 := (if more then pattern ||| FMore else pattern) ||| FInline

/-- The flags of a fragment are those of an inline request or reply. -/
theorem fragmentFlags_wellFormed (hpattern : pattern = FRequest ∨ pattern = FReply) (more : Bool) :
    fragmentFlags pattern more &&& ~~~fKnownMask = 0 ∧
      exactlyOne (fragmentFlags pattern more &&& fPatternMask) = true ∧
      exactlyOne (fragmentFlags pattern more &&& fPlacementMask) = true ∧
      fragmentFlags pattern more &&& fPlacementMask = FInline ∧
      fragmentFlags pattern more &&& fPatternMask = pattern ∧
      hasFlag (fragmentFlags pattern more) FInline = true ∧
      hasFlag (fragmentFlags pattern more) FNotification = false ∧
      hasFlag (fragmentFlags pattern more) FCancel = false ∧
      hasFlag (fragmentFlags pattern more) FMore = more := by
  rcases hpattern with rfl | rfl <;> cases more <;> decide

/-- The frame around the payload of a fragment. -/
def Client.fragmentFrame (c : Client) (pattern : UInt16) (r : Fragment) : Frame where
  hdrFlags := fragmentFlags pattern r.more
  eventKind := r.eventKind
  correlationID := r.correlationID
  srcHandle := c.handle
  payloadLen := .ofNat r.payload.length
  payloadRef := .ofNat HdrLen

theorem frame_eq (hpos : r.payload ≠ []) :
    c.frame (if r.more then pattern ||| FMore else pattern) r.eventKind r.correlationID r.payload =
      c.fragmentFrame pattern r := by
  rw [Client.frame, if_neg hpos]
  rfl

theorem toNat_ofNat_length {n : ℕ} (h : n < 4294967296) : (UInt32.ofNat n).toNat = n := UInt32.toNat_ofNat_of_lt' h

/-- The frame of a fragment is valid exactly when its payload has a size that the wire allows. -/
theorem validate_fragmentFrame (hpattern : pattern = FRequest ∨ pattern = FReply) (hcorrelation : r.correlationID ≠ 0)
    (hpos : r.payload ≠ []) (hlen : r.payload.length < 4294967296) :
    (c.fragmentFrame pattern r).validate = .ok ↔ r.payload.length ≤ MaxPayload.toNat := by
  obtain ⟨hknown, hone, hplace, hinline, hpat, -, hnote, -, hmore⟩ := fragmentFlags_wellFormed hpattern r.more
  have hsmall := toNat_ofNat_length hlen
  have h0 : UInt32.ofNat r.payload.length > 0 := by
    rw [gt_iff_lt, UInt32.lt_iff_toNat_lt, hsmall]
    exact List.length_pos_iff.2 hpos
  have h0' : UInt32.ofNat r.payload.length ≠ 0 := fun h => absurd h0 (by rw [h]; decide)
  have hmax : UInt32.ofNat r.payload.length > MaxPayload ↔ ¬r.payload.length ≤ MaxPayload.toNat := by
    rw [gt_iff_lt, UInt32.lt_iff_toNat_lt, hsmall, not_le]
  have hpat' : ¬(pattern ≠ FRequest ∧ pattern ≠ FReply) := by
    rintro ⟨h1, h2⟩
    exact hpattern.elim h1 h2
  simp only [Client.fragmentFrame, Frame.validate, hknown, hinline, hpat, hnote, h0, h0', hmax, hcorrelation, hpat',
    ne_eq, not_true_eq_false, not_false_eq_true, Bool.false_eq_true, true_and, false_and, and_false, or_self, if_false]
  split_ifs <;> simp_all

theorem encodeInto_ok {f : Frame} (hv : f.validate = .ok) (hslot : HdrLen ≤ slot.length) :
    f.encodeInto slot = (HdrLen, f.bytes ++ slot.drop HdrLen) := by
  rw [Frame.encodeInto, if_neg (by omega), if_neg (not_not.2 hv)]

/-- The sizes that `emit` lets through. -/
theorem emit_size_iff (hpos : r.payload ≠ []) (hlen : r.payload.length < 4294967296) :
    ¬(0 < r.payload.length ∧
      (UInt32.ofNat r.payload.length > c.inlineBudget ∨ HdrLen + r.payload.length > c.slotSize.toNat)) ↔
      r.payload.length ≤ c.inlineBudget.toNat ∧ HdrLen + r.payload.length ≤ c.slotSize.toNat := by
  have h0 := List.length_pos_iff.2 hpos
  rw [gt_iff_lt, UInt32.lt_iff_toNat_lt, toNat_ofNat_length hlen]
  omega

/-- A fragment that fits is committed to the slot, where there is one. -/
theorem emitFragment_eq (hpattern : pattern = FRequest ∨ pattern = FReply) (hcorrelation : r.correlationID ≠ 0)
    (hpos : r.payload ≠ []) (hbudget : r.payload.length ≤ c.inlineBudget.toNat)
    (hslot : HdrLen + r.payload.length ≤ c.slotSize.toNat) (hwire : r.payload.length ≤ MaxPayload.toNat)
    (hout : ∀ slot ∈ out.slot, slot.length = c.slotSize.toNat) :
    c.emitFragment out pattern r =
      if out.epochChanged then .error .epoch
      else
        match out.slot with
        | none => .error .wouldBlock
        | some slot =>
          .ok ((c.fragmentFrame pattern r).bytes ++ r.payload ++ slot.drop (HdrLen + r.payload.length)) := by
  have hlt : r.payload.length < 4294967296 := Nat.lt_of_le_of_lt hbudget c.inlineBudget.toNat_lt
  have hv := (validate_fragmentFrame (c := c) hpattern hcorrelation hpos hlt).2 hwire
  rw [Client.emitFragment, if_neg hcorrelation, if_neg (by simp [hpos]), Client.emit,
    if_neg ((emit_size_iff hpos hlt).2 ⟨hbudget, hslot⟩), frame_eq hpos]
  by_cases hepoch : out.epochChanged
  · rw [if_pos hepoch, if_pos hepoch]
  · rw [if_neg hepoch, if_neg hepoch]
    cases hs : out.slot with
    | none => rfl
    | some slot =>
      have hlen := hout slot (by simp [hs])
      have hhead : (c.fragmentFrame pattern r).bytes.length = HdrLen := Frame.length_bytes _
      simp only
      rw [encodeInto_ok hv (by omega), if_neg (by simp), List.take_left' hhead,
        List.take_of_length_le (by omega), ← List.drop_drop, List.drop_left' hhead, List.drop_drop]

/-- What a fragment that is emitted fits. -/
theorem emitFragment_fits (hpattern : pattern = FRequest ∨ pattern = FReply) (hpos : r.payload ≠ [])
    (h : c.emitFragment out pattern r = .ok slot) :
    r.correlationID ≠ 0 ∧ r.payload.length ≤ c.inlineBudget.toNat ∧ HdrLen + r.payload.length ≤ c.slotSize.toNat ∧
      r.payload.length ≤ MaxPayload.toNat := by
  have hlt := c.slotSize.toNat_lt
  have h0 := List.length_pos_iff.2 hpos
  simp only [Client.emitFragment, Client.emit, frame_eq hpos] at h
  split_ifs at h with hcorrelation hmore hsize hepoch
  have hlen : r.payload.length < 4294967296 := by
    by_contra hlong
    exact hsize ⟨h0, .inr (by omega)⟩
  obtain ⟨hbudget, hslot⟩ := (emit_size_iff hpos hlen).1 hsize
  refine ⟨hcorrelation, hbudget, hslot, ?_⟩
  rw [← validate_fragmentFrame (c := c) hpattern hcorrelation hpos hlen]
  by_contra hv
  cases hs : out.slot with
  | none => simp [hs] at h
  | some slot' => simp [hs, Frame.encodeInto, hv, HdrLen] at h

/-- **A fragment that is emitted is polled out of its slot as it was.** -/
theorem poll_emitFragment (hpattern : pattern = FRequest ∨ pattern = FReply) (hpos : r.payload ≠ [])
    (hout : ∀ slot ∈ out.slot, slot.length = c.slotSize.toNat) (h : c.emitFragment out pattern r = .ok slot) :
    poll c.slotSize slot = .event ⟨c.fragmentFrame pattern r, r.payload⟩ := by
  obtain ⟨hcorrelation, hbudget, hslot, hwire⟩ := emitFragment_fits hpattern hpos h
  have hlt := c.slotSize.toNat_lt
  have hlen : r.payload.length < 4294967296 := by omega
  have hv := (validate_fragmentFrame (c := c) hpattern hcorrelation hpos hlen).2 hwire
  rw [emitFragment_eq hpattern hcorrelation hpos hbudget hslot hwire hout] at h
  split_ifs at h with hepoch
  cases hs : out.slot with
  | none => simp [hs] at h
  | some slot' =>
    simp only [hs, Except.ok.injEq] at h
    subst h
    have hdecode := Frame.decode_encode (f := c.fragmentFrame pattern r) (if_pos hv)
      (r.payload ++ slot'.drop (HdrLen + r.payload.length))
    have hinline := (fragmentFlags_wellFormed hpattern r.more).2.2.2.2.2.1
    have hlen32 := toNat_ofNat_length hlen
    -- the payload lies right behind the header
    have hstop : (UInt64.ofNat HdrLen + (UInt32.ofNat r.payload.length).toUInt64).toNat = HdrLen + r.payload.length := by
      rw [UInt64.toNat_add, UInt32.toNat_toUInt64, hlen32]
      show (64 + r.payload.length) % 18446744073709551616 = 64 + r.payload.length
      omega
    have hin : UInt64.ofNat HdrLen + (UInt32.ofNat r.payload.length).toUInt64 ≤ c.slotSize.toUInt64 := by
      rw [UInt64.le_iff_toNat_le, hstop, UInt32.toNat_toUInt64]
      exact hslot
    have hbehind : UInt64.ofNat HdrLen ≤ UInt64.ofNat HdrLen + (UInt32.ofNat r.payload.length).toUInt64 := by
      rw [UInt64.le_iff_toNat_le, hstop]
      exact Nat.le_add_right _ _
    have hpos32 : UInt32.ofNat r.payload.length > 0 := by
      rw [gt_iff_lt, UInt32.lt_iff_toNat_lt, hlen32]
      exact List.length_pos_iff.2 hpos
    have href : (UInt64.ofNat HdrLen).toNat = HdrLen := rfl
    have hpayload : (((c.fragmentFrame pattern r).bytes ++
        (r.payload ++ slot'.drop (HdrLen + r.payload.length))).take (HdrLen + r.payload.length)).drop HdrLen = r.payload := by
      have hhead : (c.fragmentFrame pattern r).bytes.length = HdrLen := Frame.length_bytes _
      rw [← hhead, List.take_length_add_append, List.drop_left, List.take_left]
    rw [poll, List.append_assoc, hdecode]
    generalize (c.fragmentFrame pattern r).bytes ++ (r.payload ++ slot'.drop (HdrLen + r.payload.length)) = bs at hpayload ⊢
    simp only [Client.fragmentFrame, hinline, hpos32, hin, hbehind, and_self, if_true, hstop, href, hpayload]

/-! ### Sendable messages -/

/-- A fragment that is not refused for its size. -/
def NotRefused (result : Except EmitError (List UInt8)) : Prop := result ≠ .error .payload ∧ result ≠ .error .protocol

/-- No fragment of a request or of a reply is refused for its size, whatever is sent. -/
structure Sendable (c : Client) : Prop where
  request : ∀ kind stageID traceID correlation deadlineNS request, correlation ≠ 0 →
    ∀ r ∈ (send c.inlineBudget kind stageID traceID correlation deadlineNS request none).1,
      ∀ out : Outbound, (∀ slot ∈ out.slot, slot.length = c.slotSize.toNat) → NotRefused (c.requestFragment out r)
  reply : ∀ kind correlation stageID traceID status body, correlation ≠ 0 →
    ∀ r ∈ (replyModuleResult c.inlineBudget kind correlation stageID traceID status body none).1,
      ∀ out : Outbound, (∀ slot ∈ out.slot, slot.length = c.slotSize.toNat) → NotRefused (c.replyFragment out r)

/-- A fragment within the budget is not refused where the budget fits. -/
theorem notRefused_of_fits (hpattern : pattern = FRequest ∨ pattern = FReply) (hcorrelation : r.correlationID ≠ 0)
    (hpos : r.payload ≠ []) (hbudget : r.payload.length ≤ c.inlineBudget.toNat)
    (hslot : HdrLen + c.inlineBudget.toNat ≤ c.slotSize.toNat) (hwire : c.inlineBudget.toNat ≤ MaxPayload.toNat)
    (hout : ∀ slot ∈ out.slot, slot.length = c.slotSize.toNat) : NotRefused (c.emitFragment out pattern r) := by
  rw [emitFragment_eq hpattern hcorrelation hpos hbudget (by omega) (by omega) hout]
  split_ifs
  · exact ⟨by simp, by simp⟩
  · cases out.slot <;> exact ⟨by simp, by simp⟩

/-- What a header and a chunk make. -/
structure FragmentOf (kind : UInt32) (correlation : UInt64) (part : List UInt8 × Bool) (r : Fragment) : Prop where
  eventKind : r.eventKind = kind
  correlationID : r.correlationID = correlation
  more : r.more = part.2
  length : r.payload.length = ModuleMessageHeaderLen + part.1.length

theorem fragmentOf_encode {m : ModuleMessage} {kind : UInt32} {correlation : UInt64} {part : List UInt8 × Bool}
    (h : m.encode.map (fun header => (⟨kind, correlation, header ++ part.1, part.2⟩ : Fragment)) = some r) :
    FragmentOf kind correlation part r := by
  obtain ⟨header, hheader, rfl⟩ := Option.map_eq_some_iff.1 h
  simp only [ModuleMessage.encode] at hheader
  split_ifs at hheader
  cases hheader
  exact ⟨rfl, rfl, rfl, by simp⟩

/-- A fragment that is sent is a header and a chunk. -/
theorem mem_sendFragments_none {encode : List UInt8 × Bool → Option Reply} {parts : List (List UInt8 × Bool)}
    (h : r ∈ (sendFragments encode parts none).1) : ∃ part ∈ parts, encode part = some r := by
  induction parts with
  | nil => simp [sendFragments] at h
  | cons part parts ih =>
    rw [sendFragments] at h
    cases henc : encode part with
    | none => simp [henc] at h
    | some r' =>
      simp only [henc, Option.map_none, reduceCtorEq, if_false, List.mem_cons] at h
      rcases h with rfl | h
      · exact ⟨part, by simp, henc⟩
      · obtain ⟨p, hp, hr⟩ := ih h
        exact ⟨p, by simp [hp], hr⟩

/-- A fragment of a chunked body is within the budget. -/
theorem chunked_withinBudget {kind : UInt32} {correlation : UInt64} {budget : ℕ} {body : List UInt8}
    {encode : List UInt8 × Bool → Option Reply} (hbudget : ModuleMessageHeaderLen < budget)
    (hencode : ∀ part r, encode part = some r → FragmentOf kind correlation part r)
    (h : r ∈ (sendFragments encode (chunks (budget - ModuleMessageHeaderLen) body.length body) none).1) :
    r.correlationID = correlation ∧ r.payload ≠ [] ∧ r.payload.length ≤ budget := by
  obtain ⟨part, hpart, hr⟩ := mem_sendFragments_none h
  have hle := length_chunks_le (by omega) le_rfl part hpart
  obtain ⟨-, hcorrelation, -, hlength⟩ := hencode part r hr
  refine ⟨hcorrelation, ?_, by omega⟩
  rw [← List.length_pos_iff, hlength]
  exact Nat.add_pos_left (by decide) _

theorem send_withinBudget {budget kind stageID : UInt32} {traceID correlation deadlineNS : UInt64} {request : List UInt8}
    (h : r ∈ (send budget kind stageID traceID correlation deadlineNS request none).1) :
    r.correlationID = correlation ∧ r.payload ≠ [] ∧ r.payload.length ≤ budget.toNat := by
  rw [send] at h
  split_ifs at h with hbudget
  · simp at h
  · exact chunked_withinBudget (by omega) (fun _ _ => fragmentOf_encode) h

theorem replyModuleResult_withinBudget {budget kind stageID : UInt32} {correlation traceID : UInt64} {status : UInt16}
    {body : List UInt8} (h : r ∈ (replyModuleResult budget kind correlation stageID traceID status body none).1) :
    r.correlationID = correlation ∧ r.payload ≠ [] ∧ r.payload.length ≤ budget.toNat := by
  simp only [replyModuleResult] at h
  split_ifs at h with hbudget
  · simp at h
  · exact chunked_withinBudget (by omega) (fun _ _ => fragmentOf_encode) h

/-- An OK reply of zeros that fits one fragment. -/
theorem replyModuleResult_zeros {budget : UInt32} {size : ℕ} (hbudget : ModuleMessageHeaderLen + size ≤ budget.toNat)
    (hmax : size ≤ ModuleMessageMaxBody.toNat) (hpos : 0 < size) :
    ∃ r ∈ (replyModuleResult budget 256 1 1 0 ModuleStatusOK (List.replicate size 0) none).1,
      r.correlationID = 1 ∧ r.more = false ∧ r.payload.length = ModuleMessageHeaderLen + size := by
  have hsent : sentResult ModuleStatusOK (List.replicate size 0) = (ModuleStatusOK, List.replicate size 0) := by
    rw [sentResult, if_neg (by simp only [List.length_replicate, not_or]; exact ⟨by decide, by omega⟩), if_neg (by decide)]
  have hchunks (n : ℕ) : chunks (budget.toNat - ModuleMessageHeaderLen) n (List.replicate size 0) =
      [(List.replicate size 0, false)] := by
    cases n with
    | zero => rfl
    | succ n => rw [chunks, if_pos (by simp; omega)]
  have hfragment : (resultFragment 256 1 1 0 ModuleStatusOK (List.replicate size 0, false)).isSome := by
    have hsize : (List.replicate size (0 : UInt8)).length ≤ ModuleMessageMaxBody.toNat := by simpa using hmax
    exact (resultFragment_isSome (by decide) (Nat.lt_of_le_of_lt hsize (by decide))).2 ⟨by decide, hsize⟩
  obtain ⟨r, hr⟩ := Option.isSome_iff_exists.1 hfragment
  obtain ⟨-, hcorrelation, hmore, hlength⟩ := fragmentOf_encode hr
  refine ⟨r, ?_, hcorrelation, hmore, by simpa using hlength⟩
  simp only [replyModuleResult, hsent, hchunks]
  rw [if_neg (by omega), sendFragments, hr]
  simp

/-- In a ring with room, of the same epoch, a fragment that is not refused is committed. -/
theorem exists_ok_of_notRefused (hepoch : out.epochChanged = false) (hroom : out.slot = some slot)
    (h : NotRefused (c.emitFragment out pattern r)) : ∃ slot', c.emitFragment out pattern r = .ok slot' := by
  obtain ⟨hpayload, hprotocol⟩ := h
  cases hresult : c.emitFragment out pattern r with
  | ok slot' => exact ⟨slot', rfl⟩
  | error e =>
    cases e with
    | payload => exact absurd hresult hpayload
    | protocol => exact absurd hresult hprotocol
    | _ =>
      -- the epoch is the client's, and there is a slot
      simp only [Client.emitFragment, Client.emit, hepoch, hroom, Bool.false_eq_true, if_false] at hresult
      repeat' split at hresult
      all_goals cases hresult

/-- **No message is refused for its size** exactly when the header and the inline budget fit a
slot, and the budget is a payload. -/
theorem sendable_iff (g : Geometry) (hbudget : ModuleMessageHeaderLen < g.inlineBudget.toNat) (handle : UInt32) :
    Sendable (g.client handle) ↔
      HdrLen + g.inlineBudget.toNat ≤ g.slotSize.toNat ∧ g.inlineBudget ≤ MaxPayload := by
  have hmax : MaxPayload.toNat = 1048576 := rfl
  have hbody : ModuleMessageMaxBody.toNat = 16777216 := rfl
  simp only [ModuleMessageHeaderLen] at hbudget
  rw [UInt32.le_iff_toNat_le]
  constructor
  · intro h
    have hfits {size : ℕ} (hsize : 40 + size ≤ g.inlineBudget.toNat) (hle : size ≤ 16777216) (hpos : 0 < size) :
        HdrLen + (40 + size) ≤ g.slotSize.toNat ∧ 40 + size ≤ MaxPayload.toNat := by
      -- a reply with one fragment of this size, and a ring with room
      obtain ⟨r, hr, -, -, hlength⟩ := replyModuleResult_zeros hsize hle hpos
      have hlength' : r.payload.length = 40 + size := hlength
      have hsent := h.reply 256 1 1 0 ModuleStatusOK _ (by decide) r hr
        { slot := some (List.replicate g.slotSize.toNat 0) } (by simp [Geometry.client])
      obtain ⟨slot, hok⟩ := exists_ok_of_notRefused rfl rfl hsent
      have hne : r.payload ≠ [] := by
        rw [← List.length_pos_iff]
        omega
      obtain ⟨-, -, hslot, hwire⟩ := emitFragment_fits (.inr rfl) hne hok
      rw [hlength'] at hslot hwire
      exact ⟨hslot, hwire⟩
    by_cases hlarge : g.inlineBudget.toNat ≤ 40 + 16777216
    · have := @hfits (g.inlineBudget.toNat - 40) (by omega) (by omega) (by omega)
      omega
    · have := @hfits 16777216 (by omega) le_rfl (by omega)
      omega
  · rintro ⟨hslot, hwire⟩
    constructor
    · intro kind stageID traceID correlation deadlineNS request hcorrelation r hr out hout
      obtain ⟨hc, hpos, hle⟩ := send_withinBudget hr
      exact notRefused_of_fits (.inl rfl) (hc ▸ hcorrelation) hpos hle hslot hwire hout
    · intro kind correlation stageID traceID status body hcorrelation r hr out hout
      obtain ⟨hc, hpos, hle⟩ := replyModuleResult_withinBudget hr
      exact notRefused_of_fits (.inr rfl) (hc ▸ hcorrelation) hpos hle hslot hwire hout

/-! ### A budget that fills the slot -/

/-- A slot of 256 bytes takes the header and 192 bytes. -/
theorem sendable_256 : Sendable ((⟨256, 192, 4096⟩ : Geometry).client 1) :=
  (sendable_iff ⟨256, 192, 4096⟩ (by decide) 1).2 (by decide)

/-- A budget of 256 bytes is attached as well, and a reply that fills it is refused. -/
theorem fullBudget_refused : attachControl (controlRegion ⟨256, 256, 4096⟩) = some ⟨256, 256, 4096⟩ ∧
    ∃ r ∈ (replyModuleResult 256 256 1 1 0 ModuleStatusOK (List.replicate 216 0) none).1,
      ((⟨256, 256, 4096⟩ : Geometry).client 1).replyFragment { slot := some (List.replicate 256 0) } r =
        .error .payload := by
  refine ⟨attachControl_controlRegion (by decide) (by decide) (by decide), ?_⟩
  obtain ⟨r, hr, hcorrelation, hmore, hlength⟩ :=
    @replyModuleResult_zeros 256 216 (by decide) (by decide) (by decide)
  have hlength' : r.payload.length = 256 := hlength
  refine ⟨r, hr, ?_⟩
  rw [Client.replyFragment, Client.emitFragment, if_neg (by rw [hcorrelation]; decide), if_neg (by simp [hmore]),
    Client.emit, if_pos (by rw [hlength']; decide)]

end AimeeMemory.Bus
