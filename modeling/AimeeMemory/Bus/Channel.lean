import AimeeMemory.Bus.Ring
import AimeeMemory.Bus.RoundTrip

/-!
# A client's fragments through a ring

`Client.emit` and `Client.Poll` over one ring, in single steps: `ProduceBegin` reads the two
indices, the frame and the payload are stored byte by byte, `ProduceCommit` publishes; the poller
reads the two indices, decodes the slot, and releases it with its next poll. The two threads may
change at any point.

## What is proved

* `emitFragment_ok_iff`: what `emitFragment` commits is the frame and the payload, and what the slot
  held behind them.
* `channelInv_run`: what the sender has stored of a fragment, and what the poller has read.
* **`channel_fifo`**: the two sides are a queue of fragments, in every interleaving: a step puts a
  fragment in at the end, or takes the first one out as an event that carries it, or does neither.

## Honest scope

Both ends know the slot size that the ring is attached with. The ring is new: nothing is unread in it.
-/

namespace AimeeMemory.Bus

open AimeeMemory.Lib

/-! ### What is stored -/

namespace Client

/-- The checks before `ProduceBegin`. -/
def Admitted (c : Client) (r : Fragment) : Prop :=
  r.correlationID ≠ 0 ∧ ¬(r.more = true ∧ r.payload = []) ∧
    ¬(0 < r.payload.length ∧
      (UInt32.ofNat r.payload.length > c.inlineBudget ∨ HdrLen + r.payload.length > c.slotSize.toNat))

instance (c : Client) (r : Fragment) : Decidable (c.Admitted r) := inferInstanceAs (Decidable (_ ∧ _))

/-- The frame of a fragment. -/
def headed (c : Client) (pattern : UInt16) (r : Fragment) : Frame :=
  c.frame (if r.more then pattern ||| FMore else pattern) r.eventKind r.correlationID r.payload

/-- The bytes that are stored for a fragment. -/
def image (c : Client) (pattern : UInt16) (r : Fragment) : List UInt8 := (c.headed pattern r).bytes ++ r.payload

end Client

variable {c : Client} {pattern : UInt16} {r : Fragment} {old new : List UInt8}

theorem length_image (c : Client) (pattern : UInt16) (r : Fragment) :
    (c.image pattern r).length = HdrLen + r.payload.length := by
  simp [Client.image]

/-- A fragment that is admitted fits the slot. -/
theorem length_image_le (pattern : UInt16) (h : c.Admitted r) (hslot : HdrLen ≤ c.slotSize.toNat) :
    (c.image pattern r).length ≤ c.slotSize.toNat := by
  rw [length_image]
  rcases Nat.eq_zero_or_pos r.payload.length with h0 | hpos
  · omega
  · by_contra hlong
    exact h.2.2 ⟨hpos, .inr (by omega)⟩

/-- **What is committed** is the image of the fragment, and what the slot held behind it. -/
theorem emitFragment_ok_iff (hlen : old.length = c.slotSize.toNat) :
    c.emitFragment { slot := some old } pattern r = .ok new ↔
      c.Admitted r ∧ (c.headed pattern r).validate = .ok ∧ HdrLen ≤ old.length ∧
        new = c.image pattern r ++ old.drop (c.image pattern r).length := by
  rw [Client.emitFragment, Client.emit, Client.Admitted]
  by_cases hcorrelation : r.correlationID = 0
  · simp [hcorrelation]
  by_cases hmore : r.more = true ∧ r.payload = []
  · simp [hcorrelation, hmore]
  rw [if_neg hcorrelation, if_neg hmore]
  by_cases hsize : 0 < r.payload.length ∧
      (UInt32.ofNat r.payload.length > c.inlineBudget ∨ HdrLen + r.payload.length > c.slotSize.toNat)
  · rw [if_pos hsize]
    simp [hsize]
  rw [if_neg hsize, if_neg (by simp)]
  change (if ((c.headed pattern r).encodeInto old).1 ≠ HdrLen then .error EmitError.protocol
    else .ok (((c.headed pattern r).encodeInto old).2.take HdrLen ++ r.payload.take (old.length - HdrLen) ++
      ((c.headed pattern r).encodeInto old).2.drop (HdrLen + r.payload.length))) = Except.ok new ↔ _
  by_cases hroom : old.length < HdrLen
  · rw [Frame.encodeInto, if_pos hroom, if_pos (Nat.ne_of_beq_eq_false rfl)]
    simp [hroom.not_ge]
  by_cases hv : (c.headed pattern r).validate = .ok
  · have hhead : (c.headed pattern r).bytes.length = HdrLen := Frame.length_bytes _
    have hfits : r.payload.length ≤ old.length - HdrLen := by
      rcases Nat.eq_zero_or_pos r.payload.length with h0 | hpos
      · omega
      · by_contra hlong
        exact hsize ⟨hpos, .inr (by omega)⟩
    rw [encodeInto_ok hv (by omega), if_neg (by simp), List.take_left' hhead, List.take_of_length_le hfits,
      ← List.drop_drop, List.drop_left' hhead, List.drop_drop, ← length_image c pattern r]
    refine ⟨fun h => ⟨⟨hcorrelation, hmore, by rwa [← length_image c pattern r] at hsize⟩, hv, by omega, ?_⟩,
      fun h => ?_⟩
    · exact (Except.ok.inj h).symm
    · rw [h.2.2.2]
      rfl
  · rw [Frame.encodeInto, if_neg hroom, if_pos hv, if_pos (Nat.ne_of_beq_eq_false rfl)]
    simp [hv]

/-- What is committed is polled as an event that carries the fragment. -/
theorem poll_committed (hpattern : pattern = FRequest ∨ pattern = FReply) (hlen : old.length = c.slotSize.toNat)
    (h : c.emitFragment { slot := some old } pattern r = .ok new) :
    ∃ e, poll c.slotSize new = .event e ∧ Carries e r := by
  have hout : ∀ slot ∈ (some old : Option (List UInt8)), slot.length = c.slotSize.toNat := by
    intro slot hslot
    obtain rfl := Option.some.inj hslot
    exact hlen
  by_cases hpos : r.payload = []
  · -- a frame without a payload
    obtain ⟨⟨-, hmore, -⟩, hv, -, rfl⟩ := (emitFragment_ok_iff hlen).1 h
    have hfinal : r.more = false := by
      cases hm : r.more with
      | false => rfl
      | true => exact absurd ⟨hm, hpos⟩ hmore
    have hframe : c.headed pattern r =
        { hdrFlags := pattern, eventKind := r.eventKind, correlationID := r.correlationID, srcHandle := c.handle } := by
      simp [Client.headed, Client.frame, hpos, hfinal]
    have hflags : hasFlag pattern FInline = false ∧ hasFlag pattern FMore = false := by
      rcases hpattern with rfl | rfl <;> decide
    refine ⟨⟨c.headed pattern r, []⟩, ?_, ?_⟩
    · have hdecode := Frame.decode_encode (f := c.headed pattern r) (if_pos hv)
        (r.payload ++ old.drop (c.image pattern r).length)
      rw [poll, Client.image, List.append_assoc, ← Client.image, hdecode]
      simp [hframe, hflags.1]
    · rw [hframe]
      exact ⟨rfl, rfl, hflags.2.trans hfinal.symm, hpos.symm⟩
  · exact carries_poll hpattern hpos hout h

/-! ### The two threads -/

/-- The ring, the fragment that is being emitted with the number of its bytes that are stored, what
has been sent, and what has been polled. -/
structure Channel where
  ring : RingState
  emitting : Option (Fragment × ℕ) := none
  sent : List Fragment := []
  polled : List Polled := []

/-- One step of the sender or of the poller. -/
inductive ChannelAction where
  /-- A fragment passes the checks, and `ProduceBegin` loads `head`. -/
  | send (r : Fragment)
  /-- `ProduceBegin` loads `tail` and returns a slot, or nil; the frame is checked. -/
  | reserve
  /-- The next byte is stored. -/
  | store
  | publishLoad
  | publishStore
  | pollLoadTail
  /-- `ConsumeBegin` loads `head` and returns a slot, or nil; the slot is decoded. -/
  | pollLoadHead
  | releaseLoad
  | releaseStore

/-- One step of the channel. -/
def Channel.step (ring : Ring) (c : Client) (pattern : UInt16) (w : Channel) : ChannelAction → Channel
  | .send r =>
    if w.emitting = none ∧ c.Admitted r then
      { w with ring := ringStep ring w.ring .produceLoadHead, emitting := some (r, 0) }
    else w
  | .reserve =>
    match w.ring.producer, w.emitting with
    | .begun _, some (r, _) =>
      let s := ringStep ring w.ring .produceLoadTail
      -- `ErrWouldBlock`, or `ErrProtocol` with the slot abandoned
      if s.producer = .idle ∨ (c.headed pattern r).validate ≠ .ok ∨ ring.slotSize.toNat < HdrLen then
        { w with ring := s, emitting := none }
      else { w with ring := s }
    | _, _ => w
  | .store =>
    match w.ring.producer, w.emitting with
    | .holding _, some (r, n) =>
      match (c.image pattern r)[n]? with
      | some b => { w with ring := ringStep ring w.ring (.produceWrite n b), emitting := some (r, n + 1) }
      | none => w
    | _, _ => w
  | .publishLoad =>
    match w.emitting with
    | some (r, n) => if n = (c.image pattern r).length then { w with ring := ringStep ring w.ring .publishLoad } else w
    | none => w
  | .publishStore =>
    match w.ring.producer, w.emitting with
    | .committing _ _, some (r, _) =>
      { w with ring := ringStep ring w.ring .publishStore, emitting := none, sent := w.sent ++ [r] }
    | _, _ => w
  | .pollLoadTail =>
    match w.ring.consumer with
    | .idle => { w with ring := ringStep ring w.ring .consumeLoadTail }
    | _ => w
  | .pollLoadHead =>
    match w.ring.consumer with
    | .begun _ =>
      let s := ringStep ring w.ring .consumeLoadHead
      match s.consumer with
      | .holding slot => { w with ring := s, polled := w.polled ++ [poll c.slotSize (ring.read s.mem slot).bytes] }
      | _ => { w with ring := s }
    | _ => w
  | .releaseLoad => { w with ring := ringStep ring w.ring .releaseLoad }
  | .releaseStore => { w with ring := ringStep ring w.ring .releaseStore }

/-- What is in the channel. -/
def Channel.queue (w : Channel) : List Fragment := w.sent.drop w.polled.length

/-! ### The invariant -/

variable {ring : Ring} {w : Channel} {mem : ℕ → UInt8}

/-- A fragment of which the first bytes are stored in a slot. -/
structure StoredTo (ring : Ring) (c : Client) (pattern : UInt16) (mem : ℕ → UInt8) (slot : ℕ) (r : Fragment) (n : ℕ) :
    Prop where
  admitted : c.Admitted r
  valid : (c.headed pattern r).validate = .ok
  header : HdrLen ≤ ring.slotSize.toNat
  le : n ≤ (c.image pattern r).length
  stored : ∀ i < n, mem (slot + i) = (c.image pattern r).getD i 0

/-- What is stored in the slot that the sender has, if any. -/
def Storing (ring : Ring) (c : Client) (pattern : UInt16) (mem : ℕ → UInt8) (emitting : Option (Fragment × ℕ)) : Phase → Prop
  | .idle => emitting = none
  | .begun _ => ∃ r, emitting = some (r, 0) ∧ c.Admitted r
  | .holding slot => ∀ r n, emitting = some (r, n) → StoredTo ring c pattern mem slot r n
  | .committing slot _ => ∃ r, emitting = some (r, (c.image pattern r).length) ∧
      StoredTo ring c pattern mem slot r (c.image pattern r).length

/-- How many slots a thread has in its hands. -/
def Phase.held (p : Phase) : ℕ := if p.slot?.isSome then 1 else 0

/-- The invariant of the channel: the published slots carry what was sent, and the poller has read
the first of them. -/
structure ChannelInv (ring : Ring) (c : Client) (pattern : UInt16) (w : Channel) : Prop where
  inv : RingInv ring w.ring
  storing : Storing ring c pattern w.ring.mem w.emitting w.ring.producer
  sent : List.Forall₂ (fun slot r => ∃ e, poll c.slotSize slot.bytes = .event e ∧ Carries e r) w.ring.published w.sent
  polled : w.polled =
    (w.ring.published.take (w.ring.taken.length + w.ring.consumer.held)).map fun slot => poll c.slotSize slot.bytes

/-- No more is polled than published. -/
theorem RingInv.count_le {s : RingState} (h : RingInv ring s) : s.taken.length + s.consumer.held ≤ s.published.length := by
  rw [h.queue, List.length_append, Phase.held]
  split_ifs with hheld
  · obtain ⟨off, hoff⟩ := Option.isSome_iff_exists.1 hheld
    rw [Ring.unread_release (h.consuming.slot hoff).2]
    simp
  · omega

/-- A slot in which all of a fragment is stored begins with its image. -/
theorem read_stored {slot : ℕ} (hslot : ring.slotSize = c.slotSize)
    (h : StoredTo ring c pattern mem slot r (c.image pattern r).length) :
    ∃ old : List UInt8, old.length = c.slotSize.toNat ∧
      c.emitFragment { slot := some old } pattern r = .ok (ring.read mem slot).bytes := by
  have hlen : (ring.read mem slot).bytes.length = c.slotSize.toNat := by simp [Ring.read, hslot]
  have hheader : HdrLen ≤ c.slotSize.toNat := hslot ▸ h.header
  have hfits := length_image_le pattern h.admitted hheader
  have htake : (ring.read mem slot).bytes.take (c.image pattern r).length = c.image pattern r := by
    refine List.ext_getElem (by rw [List.length_take]; omega) fun i hi hi' => ?_
    rw [List.getElem_take]
    simp [Ring.read, h.stored i hi', hi']
  refine ⟨(ring.read mem slot).bytes, hlen, (emitFragment_ok_iff hlen).2 ⟨h.admitted, h.valid, by omega, ?_⟩⟩
  conv_lhs => rw [← List.take_append_drop (c.image pattern r).length (ring.read mem slot).bytes, htake]

/-- What an action that neither publishes nor takes keeps. -/
structure SameSlots (s s' : RingState) : Prop where
  published : s'.published = s.published
  taken : s'.taken = s.taken

/-- Where the slots and the poller are as they were, the sender has only to say what it stores. -/
theorem ChannelInv.sender {s' : RingState} (h : ChannelInv ring c pattern w) (emitting : Option (Fragment × ℕ))
    (hinv : RingInv ring s') (hslots : SameSlots w.ring s') (hconsumer : s'.consumer = w.ring.consumer)
    (hstoring : Storing ring c pattern s'.mem emitting s'.producer) :
    ChannelInv ring c pattern { w with ring := s', emitting } where
  inv := hinv
  storing := hstoring
  sent := by
    dsimp only
    rw [hslots.published]
    exact h.sent
  polled := by
    dsimp only
    rw [hslots.published, hslots.taken, hconsumer]
    exact h.polled

/-! ### The steps of the sender -/

theorem channelInv_send (h : ChannelInv ring c pattern w) (r : Fragment) :
    ChannelInv ring c pattern (w.step ring c pattern (.send r)) := by
  rw [Channel.step]
  split_ifs with hsend
  · obtain ⟨hnone, hadmitted⟩ := hsend
    have hinv := h.inv.step .produceLoadHead
    have hstoring := h.storing
    rw [hnone] at hstoring
    -- a sender without a fragment is between two emissions
    have hbegin : ringStep ring w.ring .produceLoadHead = { w.ring with producer := .begun w.ring.head } := by
      cases hp : w.ring.producer with
      | idle => simp [ringStep, hp]
      | holding slot => simp [ringStep, hp]
      | begun own =>
        rw [hp] at hstoring
        obtain ⟨r, hr, -⟩ := hstoring
        cases hr
      | committing slot own =>
        rw [hp] at hstoring
        obtain ⟨r, hr, -⟩ := hstoring
        cases hr
    rw [hbegin] at hinv ⊢
    exact h.sender _ hinv ⟨rfl, rfl⟩ rfl ⟨r, rfl, hadmitted⟩
  · exact h

theorem channelInv_reserve (h : ChannelInv ring c pattern w) :
    ChannelInv ring c pattern (w.step ring c pattern .reserve) := by
  rw [Channel.step]
  split
  · next own r n hproducer hemitting =>
    have hinv := h.inv.step .produceLoadTail
    have hstoring := h.storing
    rw [hproducer, hemitting] at hstoring
    obtain ⟨r', hr', hadmitted⟩ := hstoring
    obtain ⟨rfl, rfl⟩ := Prod.mk.inj (Option.some.inj hr')
    rw [ringStep, hproducer] at hinv ⊢
    dsimp only at hinv ⊢
    by_cases hfull : own - w.ring.tail ≥ ring.capacity.toUInt64
    · rw [if_pos hfull] at hinv ⊢
      rw [if_pos (.inl rfl)]
      exact h.sender _ hinv ⟨rfl, rfl⟩ rfl rfl
    · rw [if_neg hfull] at hinv ⊢
      by_cases hrefused : (c.headed pattern r).validate ≠ .ok ∨ ring.slotSize.toNat < HdrLen
      · rw [if_pos (.inr hrefused)]
        exact h.sender _ hinv ⟨rfl, rfl⟩ rfl fun r n hr => by cases hr
      · rw [if_neg (by simpa only [reduceCtorEq, false_or] using hrefused)]
        rw [not_or, not_not, not_lt] at hrefused
        refine h.sender w.emitting hinv ⟨rfl, rfl⟩ rfl fun r'' n'' hr'' => ?_
        obtain ⟨rfl, rfl⟩ := Prod.mk.inj (Option.some.inj (hemitting.symm.trans hr''))
        exact ⟨hadmitted, hrefused.1, hrefused.2, Nat.zero_le _, fun i hi => absurd hi (Nat.not_lt_zero i)⟩
  · exact h

theorem channelInv_store (hslot : ring.slotSize = c.slotSize) (h : ChannelInv ring c pattern w) :
    ChannelInv ring c pattern (w.step ring c pattern .store) := by
  rw [Channel.step]
  split
  · next slot r n hproducer hemitting =>
    split
    · next b hb =>
      have hinv := h.inv.step (.produceWrite n b)
      have hstoring := h.storing
      rw [hproducer] at hstoring
      have hstored := hstoring r n hemitting
      obtain ⟨hlt, hget⟩ := List.getElem?_eq_some_iff.1 hb
      have hroom : n < ring.slotSize.toNat := by
        have := length_image_le pattern hstored.admitted (hslot ▸ hstored.header)
        rw [hslot]
        omega
      rw [ringStep, hproducer] at hinv ⊢
      dsimp only at hinv ⊢
      rw [if_pos hroom] at hinv ⊢
      refine h.sender _ hinv ⟨rfl, rfl⟩ rfl fun r' n' hr' => ?_
      obtain ⟨rfl, rfl⟩ := Prod.mk.inj (Option.some.inj hr')
      refine ⟨hstored.admitted, hstored.valid, hstored.header, hlt, fun i hi => ?_⟩
      rcases Nat.lt_succ_iff_lt_or_eq.1 hi with hi | rfl
      · exact (Function.update_of_ne (by omega) _ _).trans (hstored.stored i hi)
      · refine (Function.update_self _ _ _).trans ?_
        simp [hlt, ← hget]
    · exact h
  · exact h

theorem channelInv_publishLoad (h : ChannelInv ring c pattern w) :
    ChannelInv ring c pattern (w.step ring c pattern .publishLoad) := by
  rw [Channel.step]
  split
  · next r n hemitting =>
    split_ifs with hall
    · have hinv := h.inv.step .publishLoad
      have hstoring := h.storing
      rw [ringStep] at hinv ⊢
      split at hinv
      · next slot hproducer =>
        rw [hproducer] at hstoring
        refine h.sender w.emitting hinv ⟨rfl, rfl⟩ rfl ⟨r, hall ▸ hemitting, ?_⟩
        exact hall ▸ hstoring r n hemitting
      · next hother =>
        cases hp : w.ring.producer with
        | holding slot => exact absurd hp (hother slot)
        | _ => exact h
    · exact h
  · exact h

theorem channelInv_publishStore (hpattern : pattern = FRequest ∨ pattern = FReply) (hslot : ring.slotSize = c.slotSize)
    (h : ChannelInv ring c pattern w) : ChannelInv ring c pattern (w.step ring c pattern .publishStore) := by
  rw [Channel.step]
  split
  · next slot own r n hproducer hemitting =>
    have hinv := h.inv.step .publishStore
    have hstoring := h.storing
    have hcount := h.inv.count_le
    rw [hproducer, hemitting] at hstoring
    obtain ⟨r', hr', hstored⟩ := hstoring
    obtain ⟨rfl, -⟩ := Prod.mk.inj (Option.some.inj hr')
    obtain ⟨old, hlen, hcommitted⟩ := read_stored hslot hstored
    rw [ringStep, hproducer] at hinv ⊢
    refine ⟨hinv, rfl, List.rel_append h.sent (.cons (poll_committed hpattern hlen hcommitted) .nil), ?_⟩
    dsimp only
    rw [List.take_append_of_le_length hcount]
    exact h.polled
  · exact h

/-! ### The steps of the poller -/

/-- Where the sender is as it was, the poller has only to say what it has read. -/
theorem ChannelInv.poller {s' : RingState} (h : ChannelInv ring c pattern w) (polled : List Polled)
    (hinv : RingInv ring s') (hmem : s'.mem = w.ring.mem) (hproducer : s'.producer = w.ring.producer)
    (hpublished : s'.published = w.ring.published)
    (hpolled : polled = (w.ring.published.take (s'.taken.length + s'.consumer.held)).map
      fun slot => poll c.slotSize slot.bytes) :
    ChannelInv ring c pattern { w with ring := s', polled } where
  inv := hinv
  storing := by
    dsimp only
    rw [hmem, hproducer]
    exact h.storing
  sent := by
    dsimp only
    rw [hpublished]
    exact h.sent
  polled := by
    dsimp only
    rw [hpublished]
    exact hpolled

theorem channelInv_pollLoadTail (h : ChannelInv ring c pattern w) :
    ChannelInv ring c pattern (w.step ring c pattern .pollLoadTail) := by
  rw [Channel.step]
  split
  · next hidle =>
    have hinv := h.inv.step .consumeLoadTail
    have hpolled := h.polled
    rw [hidle] at hpolled
    rw [ringStep, hidle] at hinv ⊢
    exact h.poller w.polled hinv rfl rfl rfl hpolled
  · exact h

/-- The slot in the poller's hands is the next of the published ones. -/
theorem RingInv.next {s : RingState} {slot : ℕ} (h : RingInv ring s) (hslot : s.consumer = .holding slot) :
    s.published[s.taken.length]? = some (ring.read s.mem slot) := by
  obtain ⟨rfl, hne⟩ := h.consuming.slot (congrArg Phase.slot? hslot)
  rw [h.queue, Ring.unread_release hne]
  simp

theorem channelInv_pollLoadHead (h : ChannelInv ring c pattern w) :
    ChannelInv ring c pattern (w.step ring c pattern .pollLoadHead) := by
  rw [Channel.step]
  split
  · next own hbegun =>
    have hinv := h.inv.step .consumeLoadHead
    have hpolled := h.polled
    rw [hbegun] at hpolled
    rw [ringStep, hbegun] at hinv ⊢
    dsimp only at hinv ⊢
    by_cases hempty : w.ring.head = own
    · rw [if_pos hempty] at hinv ⊢
      exact h.poller w.polled hinv rfl rfl rfl hpolled
    · rw [if_neg hempty] at hinv ⊢
      refine h.poller _ hinv rfl rfl rfl ?_
      have hnext := hinv.next rfl
      dsimp only at hnext ⊢
      rw [hpolled, show (Phase.begun own).held = 0 from rfl, show (Phase.holding (ring.slot own)).held = 1 from rfl,
        List.take_add_one, hnext]
      simp
  · exact h

theorem channelInv_releaseLoad (h : ChannelInv ring c pattern w) :
    ChannelInv ring c pattern (w.step ring c pattern .releaseLoad) := by
  have hinv := h.inv.step .releaseLoad
  have hpolled := h.polled
  rw [Channel.step]
  cases hp : w.ring.consumer with
  | holding slot =>
    rw [hp] at hpolled
    rw [ringStep, hp] at hinv ⊢
    exact h.poller w.polled hinv rfl rfl rfl hpolled
  | _ =>
    rw [ringStep, hp]
    exact h

theorem channelInv_releaseStore (h : ChannelInv ring c pattern w) :
    ChannelInv ring c pattern (w.step ring c pattern .releaseStore) := by
  have hinv := h.inv.step .releaseStore
  have hpolled := h.polled
  rw [Channel.step]
  cases hp : w.ring.consumer with
  | committing slot own =>
    rw [hp] at hpolled
    rw [ringStep, hp] at hinv ⊢
    refine h.poller w.polled hinv rfl rfl rfl (hpolled.trans ?_)
    simp [Phase.held, Phase.slot?]
  | _ =>
    rw [ringStep, hp]
    exact h

/-! ### The queue -/

theorem channelInv_step (hpattern : pattern = FRequest ∨ pattern = FReply) (hslot : ring.slotSize = c.slotSize)
    (h : ChannelInv ring c pattern w) (action : ChannelAction) : ChannelInv ring c pattern (w.step ring c pattern action) := by
  cases action with
  | send r => exact channelInv_send h r
  | reserve => exact channelInv_reserve h
  | store => exact channelInv_store hslot h
  | publishLoad => exact channelInv_publishLoad h
  | publishStore => exact channelInv_publishStore hpattern hslot h
  | pollLoadTail => exact channelInv_pollLoadTail h
  | pollLoadHead => exact channelInv_pollLoadHead h
  | releaseLoad => exact channelInv_releaseLoad h
  | releaseStore => exact channelInv_releaseStore h

/-- A channel over a ring that is attached. -/
def Channel.start (a : Attached) (mem : List UInt8) : Channel where
  ring := a.start mem

theorem channelInv_run (hpattern : pattern = FRequest ∨ pattern = FReply) {a : Attached}
    (hslot : a.ring.slotSize = c.slotSize) (hnew : a.head = a.tail) (mem : List UInt8) (actions : List ChannelAction) :
    ChannelInv a.ring c pattern (run (Channel.step a.ring c pattern) (Channel.start a mem) actions) := by
  have hunread : (a.start mem).published = [] := by simp [Attached.start, Ring.unread, hnew]
  have hinit : ChannelInv a.ring c pattern (Channel.start a mem) := by
    refine ⟨.start a mem, rfl, ?_, ?_⟩
    · simp only [Channel.start, hunread]
      exact .nil
    · simp [Channel.start, hunread]
  have hstep (_ : List ChannelAction) (w : Channel) (action : ChannelAction) (h : ChannelInv a.ring c pattern w) :
      ChannelInv a.ring c pattern (w.step a.ring c pattern action) := channelInv_step hpattern hslot h action
  exact run_keeps (I := fun _ w => ChannelInv a.ring c pattern w) hinit hstep actions

/-- A step of a queue of fragments, whose first one leaves it as an event that carries it. -/
inductive QueueStep (w w' : Channel) : Prop
  | quiet (hsent : w'.sent = w.sent) (hpolled : w'.polled = w.polled)
  | put (r : Fragment) (hsent : w'.sent = w.sent ++ [r]) (hpolled : w'.polled = w.polled)
  | get (r : Fragment) (e : Event) (hsent : w'.sent = w.sent) (hpolled : w'.polled = w.polled ++ [.event e])
      (hqueue : w.queue = r :: w'.queue) (hcarries : Carries e r)

theorem exists_events {slots : List Ring.Slot} {fragments : List Fragment} {slotSize : UInt32}
    (h : List.Forall₂ (fun slot r => ∃ e, poll slotSize slot.bytes = .event e ∧ Carries e r) slots fragments) :
    ∃ es : List Event, (slots.map fun slot => poll slotSize slot.bytes) = es.map .event ∧ List.Forall₂ Carries es fragments := by
  induction h with
  | nil => exact ⟨[], rfl, .nil⟩
  | cons hslot _ ih =>
    obtain ⟨e, hpoll, hcarries⟩ := hslot
    obtain ⟨es, hes, hfragments⟩ := ih
    exact ⟨e :: es, by rw [List.map_cons, hpoll, hes, List.map_cons], .cons hcarries hfragments⟩

/-- What has been polled is events that carry the first of what has been sent. -/
theorem ChannelInv.events (h : ChannelInv ring c pattern w) :
    ∃ es : List Event, w.polled = es.map .event ∧ List.Forall₂ Carries es (w.sent.take w.polled.length) := by
  have hlength : w.polled.length = w.ring.taken.length + w.ring.consumer.held := by
    rw [h.polled, List.length_map, List.length_take, Nat.min_eq_left h.inv.count_le]
  obtain ⟨es, hes, hcarried⟩ := exists_events (List.forall₂_take w.polled.length h.sent)
  exact ⟨es, by rw [← hes, hlength]; exact h.polled, hcarried⟩

/-- What is polled next is the first fragment of the queue. -/
theorem ChannelInv.get {w' : Channel} {p : Polled} (h : ChannelInv ring c pattern w') (hsent : w'.sent = w.sent)
    (hpolled : w'.polled = w.polled ++ [p]) : QueueStep w w' := by
  obtain ⟨es, hes, hcarried⟩ := h.events
  have hlength : es.length = w.polled.length + 1 := by
    have := congrArg List.length (hes.symm.trans hpolled)
    simpa using this
  rw [hpolled, List.length_append, List.length_singleton, hsent] at hcarried
  have htaken := hcarried.length_eq
  rw [List.length_take, hlength] at htaken
  have hlt : w.polled.length < w.sent.length := by omega
  have hcarries := hcarried.get (i := w.polled.length) (by omega) (by rw [List.length_take]; omega)
  simp only [List.get_eq_getElem, List.getElem_take] at hcarries
  have hp : p = .event es[w.polled.length] := by
    have hlast := congrArg (·[w.polled.length]?) (hpolled.symm.trans hes)
    simpa [hlength] using hlast
  refine .get w.sent[w.polled.length] es[w.polled.length] hsent (hp ▸ hpolled) ?_ hcarries
  rw [Channel.queue, Channel.queue, hpolled, hsent, List.length_append, List.length_singleton]
  exact List.drop_eq_getElem_cons hlt

theorem queueStep (h : ∀ action, ChannelInv ring c pattern (w.step ring c pattern action)) (action : ChannelAction) :
    QueueStep w (w.step ring c pattern action) := by
  have hnext := h action
  cases action with
  | send r =>
    rw [Channel.step]
    split_ifs <;> exact .quiet rfl rfl
  | reserve =>
    rw [Channel.step]
    split
    · dsimp only
      split_ifs <;> exact .quiet rfl rfl
    · exact .quiet rfl rfl
  | store =>
    rw [Channel.step]
    split
    · split <;> exact .quiet rfl rfl
    · exact .quiet rfl rfl
  | publishLoad =>
    rw [Channel.step]
    split
    · split_ifs <;> exact .quiet rfl rfl
    · exact .quiet rfl rfl
  | publishStore =>
    rw [Channel.step]
    split
    · next r n _ _ => exact .put r rfl rfl
    · exact .quiet rfl rfl
  | pollLoadTail =>
    rw [Channel.step]
    split <;> exact .quiet rfl rfl
  | pollLoadHead =>
    rw [Channel.step] at hnext ⊢
    split at hnext
    · dsimp only at hnext ⊢
      split at hnext
      · exact hnext.get rfl rfl
      · exact .quiet rfl rfl
    · exact .quiet rfl rfl
  | releaseLoad => exact .quiet rfl rfl
  | releaseStore => exact .quiet rfl rfl

/-- **The two sides of a ring are a queue of fragments**: in every interleaving of their steps, what
has been polled is events that carry the first of the fragments that were sent, in order; and a
step puts a fragment in, takes the first one out, or does neither. -/
theorem channel_fifo (hpattern : pattern = FRequest ∨ pattern = FReply) (a : Attached)
    (hslot : a.ring.slotSize = c.slotSize) (hnew : a.head = a.tail) (mem : List UInt8) (actions : List ChannelAction) :
    let w := run (Channel.step a.ring c pattern) (Channel.start a mem) actions
    (∃ es : List Event, w.polled = es.map .event ∧ List.Forall₂ Carries es (w.sent.take w.polled.length)) ∧
      ∀ action, QueueStep w (w.step a.ring c pattern action) := by
  have hinv := channelInv_run hpattern hslot hnew mem actions
  exact ⟨hinv.events, queueStep (channelInv_step hpattern hslot hinv)⟩

/-- A new ring of two slots of 128 bytes, about to wrap. -/
def newRing : Attached := { wrapping with ring := { wrapping.ring with slotSize := 128, slot_ne := by decide } }

/-- A frame without a payload crosses the ring, and the next one is begun. -/
def oneCrosses : List ChannelAction :=
  [.send ⟨256, 1, [], false⟩, .reserve] ++ List.replicate 64 .store ++
    [.publishLoad, .publishStore, .pollLoadTail, .send ⟨256, 2, [7], false⟩, .pollLoadHead, .reserve, .releaseLoad, .store,
      .releaseStore]

theorem channel_fifo_oneCrosses :
    let w := run (Channel.step newRing.ring ⟨128, 64, 1⟩ FRequest) (Channel.start newRing []) oneCrosses
    w.polled.length = 1 ∧
    (∃ es : List Event, w.polled = es.map .event ∧ List.Forall₂ Carries es (w.sent.take w.polled.length)) ∧
      ∀ action, QueueStep w (w.step newRing.ring ⟨128, 64, 1⟩ FRequest action) :=
  ⟨by decide +kernel, channel_fifo (.inl rfl) newRing rfl rfl [] oneCrosses⟩

end AimeeMemory.Bus
