import AimeeMemory.Bus.QueuePair
import AimeeMemory.Bus.Wire

/-!
# What a poll reads

`Client.Poll` with the memory it reads. The client has the slot size of the attach reply, the
inbound ring has the one of its own header, and nothing makes them equal. The end of a payload
is computed in 64 bits and held against the first; the slice is taken of a slot of the ring,
whose capacity runs on to the end of the region. `CheckPlacement`, which bounds a reference
without wrapping, is not called.

## What is proved

* `pollSlot_eq_poll`: with one slot size for both this is the `poll` of a slot by itself.
* `Frame.checkPlacement_iff`: what `CheckPlacement` says of an inline payload.
* **`poll_safe_iff`**: a poll is in bounds exactly where what it would hand out passes
  `CheckPlacement` for the slots of the ring.
-/

namespace AimeeMemory.Bus

open AimeeMemory.Lib

/-- `CheckPlacement`. -/
def Frame.checkPlacement (f : Frame) (slotSize : UInt32) (arenaSize : UInt64) : Result :=
  if f.validate ≠ .ok then f.validate
  else if f.payloadLen = 0 then .ok
  else if hasFlag f.hdrFlags FInline then
    let stop := f.payloadRef + f.payloadLen.toUInt64
    if stop < f.payloadRef then .errPayloadLen
    else if f.payloadRef < UInt64.ofNat HdrLen ∨ stop > slotSize.toUInt64 then .errPayloadLen
    else .ok
  else if f.payloadLen.toUInt64 > arenaSize then .errPayloadLen
  else .ok

/-- An attached ring with the bytes from its base to the end of the region, as they now are. -/
structure Inbound where
  ring : Ring
  mem : List UInt8
  within : ring.bytes ≤ mem.length

/-- The ring that `AttachRing` has accepted, whatever the host has written since. -/
def Inbound.attached {mem : List UInt8} {a : Attached} (h : attachRing mem = some a) (now : List UInt8)
    (hlen : now.length = mem.length) : Inbound where
  ring := a.ring
  mem := now
  within := hlen ▸ attachRing_length h

/-- `Ring.slot`: the bytes of a slot. -/
def Inbound.slotBytes (q : Inbound) (index : UInt64) : List UInt8 :=
  (q.mem.drop (q.ring.slot index)).take q.ring.slotSize.toNat

/-- What `Poll` makes of an occupied slot: the frame with the bounds of its payload in the
slot, where it has one. -/
inductive SlotRead where
  | skipped
  | event (frame : Frame) (payload : Option (ℕ × ℕ))
  | panicked
  deriving DecidableEq

/-- The reading of a slot by `Poll`. A slice may reach up to the capacity of the slot, and that
ends with the region. -/
def pollSlot (slotSize : UInt32) (q : Inbound) (index : UInt64) : SlotRead :=
  match decode (q.slotBytes index) with
  | .error _ => .skipped
  | .ok f =>
    let stop := f.payloadRef + f.payloadLen.toUInt64
    if hasFlag f.hdrFlags FInline ∧ f.payloadLen > 0 ∧ stop ≤ slotSize.toUInt64 then
      if f.payloadRef ≤ stop ∧ q.ring.slot index + stop.toNat ≤ q.mem.length then
        .event f (some (f.payloadRef.toNat, stop.toNat))
      else .panicked
    else .event f none

/-- The bytes of a payload. -/
def Inbound.payload (q : Inbound) (index : UInt64) : Option (ℕ × ℕ) → List UInt8
  | none => []
  | some (lo, hi) => ((q.mem.drop (q.ring.slot index)).take hi).drop lo

/-- With one slot size for the client and the ring, the slot by itself says what is read. -/
theorem pollSlot_eq_poll (q : Inbound) (index : UInt64) :
    poll q.ring.slotSize (q.slotBytes index) = match pollSlot q.ring.slotSize q index with
      | .skipped => .skipped
      | .event f payload => .event ⟨f, q.payload index payload⟩
      | .panicked => .panicked := by
  have hslot := q.ring.slot_within index
  have hwithin := q.within
  rw [poll, pollSlot]
  cases decode (q.slotBytes index) with
  | error e => rfl
  | ok f =>
    simp only
    split
    · rename_i hinline
      have hstop : (f.payloadRef + f.payloadLen.toUInt64).toNat ≤ q.ring.slotSize.toNat := by
        simpa using UInt64.le_iff_toNat_le.1 hinline.2.2
      by_cases hle : f.payloadRef ≤ f.payloadRef + f.payloadLen.toUInt64
      · rw [if_pos hle, if_pos ⟨hle, by omega⟩]
        simp only [Inbound.payload, Inbound.slotBytes, List.take_take, Nat.min_eq_left hstop]
      · rw [if_neg hle, if_neg fun h => hle h.1]
    · rfl

/-! ## The whole of a poll -/

/-- A client as `Poll` finds it. -/
structure Poller where
  /-- The slot size of the attach reply. -/
  slotSize : UInt32
  arenaSize : UInt64
  attachedEpoch : UInt64
  /-- The epoch in the control region, where there is one. -/
  control : Option UInt64
  inbound : Inbound
  head : UInt64
  tail : UInt64
  pendingRead : Bool

/-- What a poll returns: its errors, no event, or an event of the slot of an index. -/
inductive PollResult where
  | protocol
  | epoch
  | nothing
  | event (index : UInt64) (frame : Frame) (payload : Option (ℕ × ℕ))
  | panicked
  deriving DecidableEq

namespace Poller

/-- The slot of the poll before is released. -/
def released (p : Poller) : Poller := if p.pendingRead then { p with tail := p.tail + 1, pendingRead := false } else p

/-- `Client.Poll`. -/
def poll (p : Poller) : PollResult × Poller :=
  match p.control with
  | none => (.protocol, p)
  | some epoch =>
    if epoch ≠ p.attachedEpoch then (.epoch, p)
    else
      let p := p.released
      if p.head = p.tail then (.nothing, p)
      else
        match pollSlot p.slotSize p.inbound p.tail with
        | .skipped => (.nothing, { p with tail := p.tail + 1 })
        | .event f payload => (.event p.tail f payload, { p with pendingRead := true })
        | .panicked => (.panicked, p)

/-- The index of the slot that the next poll reads. -/
def next (p : Poller) : Option UInt64 :=
  if p.control = some p.attachedEpoch ∧ p.released.head ≠ p.released.tail then some p.released.tail else none

/-- **A poll is in bounds**: it does not panic, and a payload lies in its slot behind the header. -/
def PollSafe (p : Poller) : Prop :=
  p.poll.1 ≠ .panicked ∧ ∀ index f lo hi, p.poll.1 = .event index f (some (lo, hi)) →
    HdrLen ≤ lo ∧ lo ≤ hi ∧ hi ≤ p.inbound.ring.slotSize.toNat

@[simp] theorem released_inbound (p : Poller) : p.released.inbound = p.inbound := by
  rw [released]
  split <;> rfl

@[simp] theorem released_slotSize (p : Poller) : p.released.slotSize = p.slotSize := by
  rw [released]
  split <;> rfl

/-- A poll with no slot to read hands nothing out. -/
theorem poll_of_next_none {p : Poller} (h : p.next = none) :
    p.poll.1 = .protocol ∨ p.poll.1 = .epoch ∨ p.poll.1 = .nothing := by
  rw [next] at h
  rw [poll]
  split
  · exact .inl rfl
  · rename_i epoch hcontrol
    split
    · exact .inr (.inl rfl)
    · rename_i hepoch
      split at h
      · cases h
      · rename_i hnext
        have hempty : p.released.head = p.released.tail := by
          by_contra hne
          exact hnext ⟨by rw [hcontrol, not_not.1 hepoch], hne⟩
        simp only
        rw [if_pos hempty]
        exact .inr (.inr rfl)

/-- A poll with a slot to read does what its reading says. -/
theorem poll_of_next_some {p : Poller} {index : UInt64} (h : p.next = some index) :
    p.poll.1 = match pollSlot p.slotSize p.inbound index with
      | .skipped => .nothing
      | .event f payload => .event index f payload
      | .panicked => .panicked := by
  rw [next] at h
  split at h
  · rename_i hnext
    obtain ⟨hcontrol, hne⟩ := hnext
    cases h
    rw [poll, hcontrol]
    simp only
    rw [if_neg (by simp), if_neg hne, released_slotSize, released_inbound]
    cases pollSlot p.slotSize p.inbound p.released.tail <;> rfl
  · cases h

end Poller

/-! ## Bounds -/

/-- The frame has an inline payload whose end, in 64 bits, is no greater than a slot size: one that
`Poll` slices. -/
def Frame.HandsOut (f : Frame) (slotSize : UInt32) : Prop :=
  hasFlag f.hdrFlags FInline ∧ f.payloadLen > 0 ∧ f.payloadRef + f.payloadLen.toUInt64 ≤ slotSize.toUInt64

/-- **`CheckPlacement` does not wrap**: an inline payload passes where it lies in the slot behind
the header. -/
theorem Frame.checkPlacement_iff {f : Frame} (hv : f.validate = .ok) (hinline : hasFlag f.hdrFlags FInline)
    (hpos : f.payloadLen > 0) (slotSize : UInt32) (arenaSize : UInt64) :
    f.checkPlacement slotSize arenaSize = .ok ↔
      HdrLen ≤ f.payloadRef.toNat ∧ f.payloadRef.toNat + f.payloadLen.toNat ≤ slotSize.toNat := by
  have hne : f.payloadLen ≠ 0 := (UInt32.ne_of_lt hpos).symm
  have hsum : (f.payloadRef + f.payloadLen.toUInt64).toNat = (f.payloadRef.toNat + f.payloadLen.toNat) % 2 ^ 64 := by
    rw [UInt64.toNat_add, UInt32.toNat_toUInt64]
  have href := f.payloadRef.toNat_lt
  have hlen := f.payloadLen.toNat_lt
  have hslot := slotSize.toNat_lt
  have hhdr : (UInt64.ofNat HdrLen).toNat = HdrLen := rfl
  rw [checkPlacement, if_neg (not_not.2 hv), if_neg hne, if_pos hinline]
  simp only [UInt64.lt_iff_toNat_lt, gt_iff_lt, hsum, hhdr, UInt32.toNat_toUInt64]
  split
  · -- the end has wrapped
    simp only [reduceCtorEq, false_iff]
    omega
  · split
    · simp only [reduceCtorEq, false_iff]
      omega
    · simp only [true_iff]
      omega

/-- A slot is read in bounds: what is sliced is there, and is behind the header and in the slot. -/
def SlotRead.InBounds (slotSize : UInt32) : SlotRead → Prop
  | .skipped | .event _ none => True
  | .event _ (some (lo, hi)) => HdrLen ≤ lo ∧ lo ≤ hi ∧ hi ≤ slotSize.toNat
  | .panicked => False

/-- The reading of a slot is in bounds exactly where a payload that it slices passes the check. -/
theorem pollSlot_inBounds_iff (slotSize : UInt32) (q : Inbound) (index : UInt64) (arenaSize : UInt64) :
    (pollSlot slotSize q index).InBounds q.ring.slotSize ↔
      ∀ f, decode (q.slotBytes index) = .ok f → f.HandsOut slotSize →
        f.checkPlacement q.ring.slotSize arenaSize = .ok := by
  rw [pollSlot]
  cases hdecode : decode (q.slotBytes index) with
  | error e => simp [SlotRead.InBounds]
  | ok f =>
    have hv := (decode_ok_iff.1 hdecode).2.2.1
    simp only [Except.ok.injEq, forall_eq']
    split
    · rename_i hout
      have hhands : f.HandsOut slotSize := hout
      rw [Frame.checkPlacement_iff hv hout.1 hout.2.1]
      have hsum : (f.payloadRef + f.payloadLen.toUInt64).toNat =
          (f.payloadRef.toNat + f.payloadLen.toNat) % 2 ^ 64 := by
        rw [UInt64.toNat_add, UInt32.toNat_toUInt64]
      have hslot := q.ring.slot_within index
      have hring := q.ring.slotSize.toNat_lt
      have hwithin := q.within
      have href := f.payloadRef.toNat_lt
      have hlen := f.payloadLen.toNat_lt
      split
      · rename_i hslice
        have hle := UInt64.le_iff_toNat_le.1 hslice.1
        simp only [SlotRead.InBounds, hhands, true_implies]
        omega
      · rename_i hslice
        rw [UInt64.le_iff_toNat_le, hsum] at hslice
        simp only [SlotRead.InBounds, hhands, true_implies, false_iff]
        omega
    · rename_i hout
      have hhands : ¬f.HandsOut slotSize := hout
      simp [SlotRead.InBounds, hhands]

/-- A poll is in bounds where its reading of the slot is. -/
theorem Poller.pollSafe_iff (p : Poller) : p.PollSafe ↔
    ∀ index, p.next = some index → (pollSlot p.slotSize p.inbound index).InBounds p.inbound.ring.slotSize := by
  cases hnext : p.next with
  | none =>
    simp only [reduceCtorEq, false_implies, implies_true, iff_true]
    rcases p.poll_of_next_none hnext with h | h | h <;> simp [PollSafe, h]
  | some index =>
    simp only [Option.some.injEq, forall_eq', PollSafe, p.poll_of_next_some hnext]
    cases hread : pollSlot p.slotSize p.inbound index with
    | skipped => simp [SlotRead.InBounds]
    | panicked => simp [SlotRead.InBounds]
    | event f payload =>
      cases payload with
      | none => simp [SlotRead.InBounds]
      | some bounds =>
        obtain ⟨lo, hi⟩ := bounds
        simp only [SlotRead.InBounds]
        constructor
        · exact fun h => h.2 index f lo hi rfl
        · rintro h
          refine ⟨by simp, fun i g l k heq => ?_⟩
          cases heq
          exact h

/-- **A poll is in bounds** exactly where the slot it reads carries no inline payload that it
would slice, or one that passes `CheckPlacement` for the ring's own slots. -/
theorem poll_safe_iff (p : Poller) : p.PollSafe ↔
    ∀ index f, p.next = some index → decode (p.inbound.slotBytes index) = .ok f → f.HandsOut p.slotSize →
      f.checkPlacement p.inbound.ring.slotSize p.arenaSize = .ok := by
  rw [p.pollSafe_iff]
  constructor
  · exact fun h index f hnext => (pollSlot_inBounds_iff _ _ _ _).1 (h index hnext) f
  · exact fun h index hnext => (pollSlot_inBounds_iff _ _ _ p.arenaSize).2 fun f => h index f hnext

/-! ## A reference that wraps -/

/-- A notification whose payload begins so far behind its slot that its end wraps. -/
def wrappingFrame : Frame where
  hdrFlags := FInline ||| FNotification
  eventKind := 256
  correlationID := 0
  payloadRef := 0xfffffffffffffff8
  payloadLen := 16

/-- A ring of four slots with a frame in the first. -/
def inboundWith (f : Frame) : Inbound where
  ring := sampleRing
  mem := sampleRing.header ++ (f.bytes ++ List.replicate 192 0)
  within := by
    simp only [List.length_append, sampleRing.length_header, f.length_bytes, List.length_replicate]
    decide

theorem slotBytes_inboundWith (f : Frame) : (inboundWith f).slotBytes 0 = f.bytes := by
  have hslot : sampleRing.slot 0 = sampleRing.header.length := by
    rw [sampleRing.length_header]
    decide
  have hlen : sampleRing.slotSize.toNat = f.bytes.length := by
    rw [f.length_bytes]
    decide
  simp only [Inbound.slotBytes, inboundWith]
  rw [hslot, List.drop_left, hlen, List.take_left]

/-- A client that has read nothing, with that one event before it. -/
def pollerWith (slotSize : UInt32) (f : Frame) : Poller where
  slotSize
  arenaSize := 4096
  attachedEpoch := 1
  control := some 1
  inbound := inboundWith f
  head := 1
  tail := 0
  pendingRead := false

/-- The end of that payload is 8, no greater than the slot size, and the slice is out of range. -/
theorem poll_panics : ¬∀ p : Poller, p.PollSafe := by
  intro h
  have hbytes : wrappingFrame.encode = some wrappingFrame.bytes := by
    rw [Frame.encode, if_pos (by decide)]
  have hdecode : decode ((inboundWith wrappingFrame).slotBytes 0) = .ok wrappingFrame := by
    rw [slotBytes_inboundWith]
    simpa using Frame.decode_encode hbytes []
  have hread : pollSlot 64 (inboundWith wrappingFrame) 0 = .panicked := by
    rw [pollSlot, hdecode]
    simp only
    rw [if_pos (by decide), if_neg fun h => absurd h.1 (by decide)]
  have hsafe := (pollerWith 64 wrappingFrame).pollSafe_iff.1 (h _) 0 (by decide)
  rw [show pollSlot (pollerWith 64 wrappingFrame).slotSize (pollerWith 64 wrappingFrame).inbound 0 = .panicked from hread]
    at hsafe
  exact hsafe

end AimeeMemory.Bus
