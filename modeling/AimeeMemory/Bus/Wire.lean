import AimeeMemory.Lib.LittleEndian

/-!
# The frame of the event bus

`server-go/bus/wire.go`: the 64-byte frame header, its validation and its codec,
and `Client.Poll` of `server-go/bus/client.go`, which takes the next frame and the
inline payload behind it out of an inbound slot.

## What is proved

* `Frame.validate_correlation`: a frame that validates and is not a notification
  has a correlation.
* `decode_ok`: what decodes validates.
* **`Frame.decode_encode`**: an encoded frame, with anything behind it, decodes to
  itself.
* **`Frame.bytes_of_decode`**: a header that decodes is encoded as it was.
* `decodeInto_eq`: a rejected header leaves the output frame alone.
-/

namespace AimeeMemory.Bus

open AimeeMemory.Lib

/-- `"BUS0"`, little-endian. -/
def WireMagic : UInt32 := 0x30535542

/-- The encoding version this build speaks. -/
def WireVersion : UInt16 := 3

/-- The fixed frame header size. -/
def HdrLen : ℕ := 64

/-- Bounds a single event's payload. -/
def MaxPayload : UInt32 := 1048576

def FInline : UInt16 := 0x0001
def FArena : UInt16 := 0x0002
def FNotification : UInt16 := 0x0004
def FRequest : UInt16 := 0x0008
def FReply : UInt16 := 0x0010
def FCancel : UInt16 := 0x0020
def FControl : UInt16 := 0x0040
def FMore : UInt16 := 0x0080

def fPlacementMask : UInt16 := FInline ||| FArena
def fPatternMask : UInt16 := FNotification ||| FRequest ||| FReply ||| FCancel
def fKnownMask : UInt16 := fPlacementMask ||| fPatternMask ||| FControl ||| FMore

def KindError : UInt32 := 3
def KindCapabilityAbsent : UInt32 := 4

/-- A decoded event header. -/
structure Frame where
  hdrFlags : UInt16
  wireVersion : UInt16 := WireVersion
  eventKind : UInt32
  principalRef : UInt32 := 0
  correlationID : UInt64
  seq : UInt64 := 0
  logicalTS : UInt64 := 0
  payloadRef : UInt64 := 0
  payloadLen : UInt32 := 0
  srcHandle : UInt32 := 0
  dstHandle : UInt32 := 0
  /-- The lease generation of an arena payload, `0` otherwise. -/
  generation : UInt32 := 0
  deriving DecidableEq, Repr

/-- The outcome of validating or decoding a frame. -/
inductive Result where
  | ok
  | errShort
  | errMagic
  | errVersion
  | errFlags
  | errPayloadLen
  | errCorrelation
  deriving DecidableEq, Repr

/-- Whether a flag word has a flag set. -/
def hasFlag (flags f : UInt16) : Bool := flags &&& f != 0

/-- `exactlyOne`: the word has one bit set. -/
def exactlyOne (v : UInt16) : Bool := v != 0 && v &&& (v - 1) == 0

/-- `Frame.Validate`. -/
def Frame.validate (f : Frame) : Result :=
  if f.wireVersion ≠ WireVersion then .errVersion
  else if f.hdrFlags &&& ~~~fKnownMask ≠ 0 then .errFlags
  else if !exactlyOne (f.hdrFlags &&& fPatternMask) then .errFlags
  else
    let placement := f.hdrFlags &&& fPlacementMask
    if f.payloadLen > 0 ∧ !exactlyOne placement then .errFlags
    else if f.payloadLen > 0 ∧ f.payloadLen > MaxPayload then .errPayloadLen
    else if f.payloadLen = 0 ∧ placement ≠ 0 then .errFlags
    else if f.payloadLen = 0 ∧ f.payloadRef ≠ 0 then .errPayloadLen
    else
      let pattern := f.hdrFlags &&& fPatternMask
      if hasFlag f.hdrFlags FMore ∧
          ((pattern ≠ FRequest ∧ pattern ≠ FReply) ∨ placement ≠ FInline ∨ f.payloadLen = 0) then .errFlags
      else if !hasFlag f.hdrFlags FArena ∧ f.generation ≠ 0 then .errFlags
      else if hasFlag f.hdrFlags FNotification then
        if f.correlationID ≠ 0 then .errCorrelation else .ok
      else if f.correlationID = 0 then .errCorrelation
      else .ok

/-- The bytes `Frame.Encode` writes: the fields at the offsets of the header. -/
def Frame.bytes (f : Frame) : List UInt8 :=
  putLE 4 WireMagic.toNat ++ putLE 2 f.hdrFlags.toNat ++ putLE 2 f.wireVersion.toNat ++
    putLE 4 f.eventKind.toNat ++ putLE 4 f.principalRef.toNat ++ putLE 8 f.correlationID.toNat ++
    putLE 8 f.seq.toNat ++ putLE 8 f.logicalTS.toNat ++ putLE 8 f.payloadRef.toNat ++
    putLE 4 f.payloadLen.toNat ++ putLE 4 f.srcHandle.toNat ++ putLE 4 f.dstHandle.toNat ++
    putLE 4 f.generation.toNat

/-- `Frame.Encode`: nothing is written of a frame that would not survive a decode. -/
def Frame.encode (f : Frame) : Option (List UInt8) :=
  if f.validate = .ok then some f.bytes else none

/-- The fields of a header, read at their offsets. -/
def Frame.ofBytes (bs : List UInt8) : Frame where
  hdrFlags := .ofNat (field bs 4 2)
  wireVersion := .ofNat (field bs 6 2)
  eventKind := .ofNat (field bs 8 4)
  principalRef := .ofNat (field bs 12 4)
  correlationID := .ofNat (field bs 16 8)
  seq := .ofNat (field bs 24 8)
  logicalTS := .ofNat (field bs 32 8)
  payloadRef := .ofNat (field bs 40 8)
  payloadLen := .ofNat (field bs 48 4)
  srcHandle := .ofNat (field bs 52 4)
  dstHandle := .ofNat (field bs 56 4)
  generation := .ofNat (field bs 60 4)

/-- `Decode`: the frame, or why there is none. -/
def decode (bs : List UInt8) : Except Result Frame :=
  if bs.length < HdrLen then .error .errShort
  else if UInt32.ofNat (field bs 0 4) ≠ WireMagic then .error .errMagic
  else
    let f := Frame.ofBytes bs
    if f.validate = .ok then .ok f else .error f.validate

/-- A received event: its frame and its inline payload. -/
structure Event where
  frame : Frame
  payload : List UInt8
  deriving DecidableEq, Repr

/-- What `Client.Poll` makes of an occupied slot. -/
inductive Polled where
  /-- No event: the frame does not decode, and its slot is released. -/
  | skipped
  /-- An event. -/
  | event (e : Event)
  /-- The slice expression is out of range: a run-time panic. -/
  | panicked
  deriving DecidableEq, Repr

/-- `Client.Poll` on an occupied slot of `slotSize` bytes. The end of the payload is
computed in 64 bits and may wrap. -/
def poll (slotSize : UInt32) (slot : List UInt8) : Polled :=
  match decode slot with
  | .error _ => .skipped
  | .ok f =>
    let stop := f.payloadRef + f.payloadLen.toUInt64
    if hasFlag f.hdrFlags FInline ∧ f.payloadLen > 0 ∧ stop ≤ slotSize.toUInt64 then
      if f.payloadRef ≤ stop then
        .event ⟨f, (slot.take stop.toNat).drop f.payloadRef.toNat⟩
      else .panicked
    else .event ⟨f, []⟩

theorem Frame.validate_correlation {f : Frame} (h : f.validate = .ok)
    (hn : hasFlag f.hdrFlags FNotification = false) : f.correlationID ≠ 0 := by
  intro hc
  simp [Frame.validate, hn, hc] at h
  grind

theorem decode_ok {bs : List UInt8} {f : Frame} (h : decode bs = .ok f) :
    f = Frame.ofBytes bs ∧ f.validate = .ok := by
  simp only [decode] at h
  split_ifs at h with _ _ hv
  cases h
  exact ⟨rfl, hv⟩

@[simp] theorem Frame.length_bytes (f : Frame) : f.bytes.length = HdrLen := by
  simp [Frame.bytes, HdrLen]

theorem Frame.ofBytes_bytes (f : Frame) (rest : List UInt8) : Frame.ofBytes (f.bytes ++ rest) = f := by
  simp [Frame.ofBytes, Frame.bytes, field, List.drop_append, List.drop_eq_nil_of_le, getLE_putLE]

theorem Frame.magic_bytes (f : Frame) (rest : List UInt8) :
    UInt32.ofNat (field (f.bytes ++ rest) 0 4) = WireMagic := by
  simp [Frame.bytes, field, getLE_putLE]

/-- **The frame round trip**: an encoded frame, with anything behind it, decodes to itself. -/
theorem Frame.decode_encode {f : Frame} {bs : List UInt8} (h : f.encode = some bs) (rest : List UInt8) :
    decode (bs ++ rest) = .ok f := by
  simp only [Frame.encode] at h
  split_ifs at h with hv
  cases h
  have hlen : ¬ (f.bytes ++ rest).length < HdrLen := by simp
  rw [decode, if_neg hlen, if_neg (not_not.mpr (f.magic_bytes rest))]
  simp [f.ofBytes_bytes, hv]

/-! ## The other way round -/

/-- `Frame.Encode` into a buffer: how many bytes were written, and the buffer. -/
def Frame.encodeInto (f : Frame) (out : List UInt8) : ℕ × List UInt8 :=
  if out.length < HdrLen then (0, out)
  else if f.validate ≠ .ok then (0, out)
  else (HdrLen, f.bytes ++ out.drop HdrLen)

/-- `Decode` into a frame: the result, and the frame. -/
def decodeInto (bs : List UInt8) (out : Frame) : Result × Frame :=
  if bs.length < HdrLen then (.errShort, out)
  else if UInt32.ofNat (field bs 0 4) ≠ WireMagic then (.errMagic, out)
  else
    let f := Frame.ofBytes bs
    if f.validate ≠ .ok then (f.validate, out) else (.ok, f)

theorem decodeInto_eq (bs : List UInt8) (out : Frame) :
    decodeInto bs out =
      match decode bs with
      | .ok f => (.ok, f)
      | .error e => (e, out) := by
  simp only [decodeInto, decode]
  split_ifs <;> simp_all

/-- What the length, the magic and the validation let through. -/
theorem decode_ok_iff {bs : List UInt8} {f : Frame} :
    decode bs = .ok f ↔
      HdrLen ≤ bs.length ∧ UInt32.ofNat (field bs 0 4) = WireMagic ∧ f.validate = .ok ∧ f = Frame.ofBytes bs := by
  constructor
  · intro h
    simp only [decode] at h
    split_ifs at h with hlen hmagic hv
    cases h
    exact ⟨by omega, not_not.1 hmagic, hv, rfl⟩
  · rintro ⟨hlen, hmagic, hv, rfl⟩
    rw [decode, if_neg (by omega), if_neg (not_not.2 hmagic)]
    simp [hv]

/-- **The header round trip**: a header that decodes is written back as it was. -/
theorem Frame.bytes_of_decode {bs : List UInt8} {f : Frame} (h : decode bs = .ok f) :
    f.bytes = bs.take HdrLen := by
  obtain ⟨hlen, hmagic, -, rfl⟩ := decode_ok_iff.1 h
  calc (Frame.ofBytes bs).bytes = putFields bs 0 [4, 2, 2, 4, 4, 8, 8, 8, 8, 4, 4, 4, 4] := by
        rw [Frame.bytes, ← hmagic]
        simp only [Frame.ofBytes, putLE_toNat_ofNat16, putLE_toNat_ofNat32, putLE_toNat_ofNat64, putFields,
          List.append_assoc, List.append_nil]
    _ = bs.take HdrLen := putFields_eq_take hlen

/-- A frame that `Encode` refuses is one that nothing decodes to. -/
theorem Frame.decode_ne_of_encode {f : Frame} (h : f.encode = none) (bs : List UInt8) : decode bs ≠ .ok f := by
  intro hd
  simp [Frame.encode, (decode_ok_iff.1 hd).2.2.1] at h

end AimeeMemory.Bus
