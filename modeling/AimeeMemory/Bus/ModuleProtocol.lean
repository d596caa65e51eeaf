import AimeeMemory.Bus.Wire

/-!
# The module message

`server-go/bus/module_protocol.go`: the 40-byte header of an invocation or a result,
which the bytes of its body follow in the payload of an event.

## What is proved

* `decodeModuleMessage_valid`: what decodes is valid and its body lies in the payload.
* **`ModuleMessage.decode_encode`**: an encoded header followed by a body at least as
  long as it says decodes to itself.
* `ModuleMessage.bodyOf_encode`: and its body is read back.
* **`ModuleMessage.bytes_of_decode`**: a header that decodes is encoded as it was.
-/

namespace AimeeMemory.Bus

open AimeeMemory.Lib

def ModuleMessageMagic : UInt32 := 0x444f4d41
def ModuleMessageVersion : UInt16 := 1
def ModuleMessageHeaderLen : ℕ := 40
def ModuleMessageMaxBody : UInt32 := 16777216

def ModuleOpInvoke : UInt16 := 1
def ModuleOpResult : UInt16 := 2

def ModuleStatusOK : UInt16 := 0
def ModuleStatusCapabilityAbsent : UInt16 := 1
def ModuleStatusCancelled : UInt16 := 2
def ModuleStatusDeadlineExceeded : UInt16 := 3
def ModuleStatusInvalidRequest : UInt16 := 4
def ModuleStatusInternal : UInt16 := 5

/-- The payload header of a module stage. -/
structure ModuleMessage where
  operation : UInt16
  status : UInt16 := ModuleStatusOK
  stageID : UInt32
  flags : UInt32 := 0
  bodyLen : UInt32
  deadlineNS : UInt64 := 0
  traceID : UInt64 := 0
  deriving DecidableEq, Repr

namespace ModuleMessage

def valid (m : ModuleMessage) : Bool :=
  if m.operation ≠ ModuleOpInvoke ∧ m.operation ≠ ModuleOpResult then false
  else if m.status > ModuleStatusInternal ∨ (m.operation = ModuleOpInvoke ∧ m.status ≠ ModuleStatusOK) then
    false
  else m.stageID ≠ 0 ∧ m.flags = 0 ∧ m.bodyLen ≤ ModuleMessageMaxBody

/-- The header bytes `Encode` writes. -/
def bytes (m : ModuleMessage) : List UInt8 :=
  putLE 4 ModuleMessageMagic.toNat ++ putLE 2 ModuleMessageVersion.toNat ++
    putLE 2 ModuleMessageHeaderLen ++ putLE 2 m.operation.toNat ++ putLE 2 m.status.toNat ++
    putLE 4 m.stageID.toNat ++ putLE 4 m.flags.toNat ++ putLE 4 m.bodyLen.toNat ++
    putLE 8 m.deadlineNS.toNat ++ putLE 8 m.traceID.toNat

/-- `Encode`, into a buffer that has room for the header. -/
def encode (m : ModuleMessage) : Option (List UInt8) := if m.valid then some m.bytes else none

/-- The fields of a header, read at their offsets. -/
def ofBytes (bs : List UInt8) : ModuleMessage where
  operation := .ofNat (field bs 8 2)
  status := .ofNat (field bs 10 2)
  stageID := .ofNat (field bs 12 4)
  flags := .ofNat (field bs 16 4)
  bodyLen := .ofNat (field bs 20 4)
  deadlineNS := .ofNat (field bs 24 8)
  traceID := .ofNat (field bs 32 8)

def deadlineExpired (m : ModuleMessage) (nowNS : UInt64) : Bool := m.deadlineNS ≠ 0 ∧ nowNS ≥ m.deadlineNS

/-- The body bytes that follow a decoded header. -/
def bodyOf (m : ModuleMessage) (payload : List UInt8) : List UInt8 :=
  (payload.drop ModuleMessageHeaderLen).take m.bodyLen.toNat

end ModuleMessage

/-- `DecodeModuleMessage`. -/
def decodeModuleMessage (bs : List UInt8) : Option ModuleMessage :=
  if bs.length < ModuleMessageHeaderLen ∨ UInt32.ofNat (field bs 0 4) ≠ ModuleMessageMagic ∨
      UInt16.ofNat (field bs 4 2) ≠ ModuleMessageVersion ∨ field bs 6 2 ≠ ModuleMessageHeaderLen then
    none
  else
    let m := ModuleMessage.ofBytes bs
    if !m.valid ∨ m.bodyLen.toNat > bs.length - ModuleMessageHeaderLen then none else some m

theorem decodeModuleMessage_valid {bs : List UInt8} {m : ModuleMessage} (h : decodeModuleMessage bs = some m) :
    m.valid ∧ ModuleMessageHeaderLen + m.bodyLen.toNat ≤ bs.length := by
  simp only [decodeModuleMessage] at h
  split_ifs at h with hhead hbody
  cases h
  simp only [not_or, Bool.not_eq_true', Bool.not_eq_false, not_lt, gt_iff_lt] at hhead hbody
  exact ⟨hbody.1, by omega⟩

namespace ModuleMessage

@[simp] theorem length_bytes (m : ModuleMessage) : m.bytes.length = ModuleMessageHeaderLen := by
  simp [bytes, ModuleMessageHeaderLen]

theorem ofBytes_bytes (m : ModuleMessage) (rest : List UInt8) : ofBytes (m.bytes ++ rest) = m := by
  simp [ofBytes, bytes, field, List.drop_append, List.drop_eq_nil_of_le, getLE_putLE]

/-- **The module message round trip**: an encoded header, followed by a body at least as
long as it says, decodes to itself. -/
theorem decode_encode {m : ModuleMessage} {bs body : List UInt8} (h : m.encode = some bs)
    (hlen : m.bodyLen.toNat ≤ body.length) : decodeModuleMessage (bs ++ body) = some m := by
  simp only [encode] at h
  split_ifs at h with hv
  cases h
  have hmagic : UInt32.ofNat (field (m.bytes ++ body) 0 4) = ModuleMessageMagic := by
    simp [bytes, field, getLE_putLE]
  have hversion : UInt16.ofNat (field (m.bytes ++ body) 4 2) = ModuleMessageVersion := by
    simp [bytes, field, getLE_putLE]
  have hheader : field (m.bytes ++ body) 6 2 = ModuleMessageHeaderLen := by
    simp [bytes, field, List.drop_append, List.drop_eq_nil_of_le, getLE_putLE, ModuleMessageHeaderLen]
  simp [decodeModuleMessage, hmagic, hversion, hheader, ofBytes_bytes, hv]
  omega

/-- The body behind an encoded header is read back. -/
theorem bodyOf_encode {m : ModuleMessage} {bs : List UInt8} (h : m.encode = some bs) (body : List UInt8) :
    m.bodyOf (bs ++ body) = body.take m.bodyLen.toNat := by
  simp only [encode] at h
  split_ifs at h with hv
  cases h
  simp [bodyOf]

/-! ## The other way round -/

/-- `ModuleMessage.Encode` into a buffer: how many bytes were written, or `ErrModuleMessage`,
and the buffer. -/
def encodeInto (m : ModuleMessage) (out : List UInt8) : Option ℕ × List UInt8 :=
  if out.length < ModuleMessageHeaderLen ∨ !m.valid then (none, out)
  else (some ModuleMessageHeaderLen, m.bytes ++ out.drop ModuleMessageHeaderLen)

end ModuleMessage

/-- What the header, the validation and the length of the body let through. -/
theorem decodeModuleMessage_eq_some {bs : List UInt8} {m : ModuleMessage} :
    decodeModuleMessage bs = some m ↔
      ModuleMessageHeaderLen + m.bodyLen.toNat ≤ bs.length ∧ UInt32.ofNat (field bs 0 4) = ModuleMessageMagic ∧
        UInt16.ofNat (field bs 4 2) = ModuleMessageVersion ∧ field bs 6 2 = ModuleMessageHeaderLen ∧
        m.valid ∧ m = ModuleMessage.ofBytes bs := by
  constructor
  · intro h
    have hlen := (decodeModuleMessage_valid h).2
    simp only [decodeModuleMessage] at h
    split_ifs at h with hhead hbody
    cases h
    grind
  · rintro ⟨hlen, hmagic, hversion, hheader, hv, rfl⟩
    simp only [decodeModuleMessage]
    rw [if_neg (by simp [hmagic, hversion, hheader]; omega), if_neg (by simp [hv]; omega)]

namespace ModuleMessage

/-- **The module header round trip**: a header that decodes is written back as it was. -/
theorem bytes_of_decode {bs : List UInt8} {m : ModuleMessage} (h : decodeModuleMessage bs = some m) :
    m.bytes = bs.take ModuleMessageHeaderLen := by
  obtain ⟨hlen, hmagic, hversion, hheader, -, rfl⟩ := decodeModuleMessage_eq_some.1 h
  calc (ofBytes bs).bytes = putFields bs 0 [4, 2, 2, 2, 2, 4, 4, 4, 8, 8] := by
        rw [bytes, ← hmagic, ← hversion, ← hheader]
        simp only [ofBytes, putLE_toNat_ofNat16, putLE_toNat_ofNat32, putLE_toNat_ofNat64, putFields, List.append_assoc,
          List.append_nil]
    _ = bs.take ModuleMessageHeaderLen := putFields_eq_take (Nat.le_of_add_right_le hlen)

/-- A message that `Encode` refuses is one that nothing decodes to. -/
theorem decode_ne_of_encode {m : ModuleMessage} (h : m.encode = none) (bs : List UInt8) :
    decodeModuleMessage bs ≠ some m := by
  intro hd
  simp [encode, (decodeModuleMessage_valid hd).1] at h

end ModuleMessage

/-! ## Both codecs -/

/-- A codec of a header of `size` bytes that a rest of at least `need` bytes has to follow:
decoding undoes encoding, encoding undoes decoding, and nothing decodes to what is refused. -/
structure ExactInverse {α : Type} (encode : α → List UInt8 → Option (List UInt8))
    (decode : List UInt8 → Option α) (valid : α → Prop) (need : α → ℕ) (size : ℕ) : Prop where
  /-- What is valid is encoded into a large enough buffer, which decodes to it. -/
  decode_encode : ∀ x out, valid x → size + need x ≤ out.length →
    ∃ bs, encode x out = some bs ∧ decode bs = some x
  /-- What decodes is encoded to the same header; the rest of the buffer is left alone. -/
  encode_decode : ∀ bs x, decode bs = some x → ∀ out, size ≤ out.length →
    encode x out = some (bs.take size ++ out.drop size)
  /-- What is refused by a large enough buffer is what nothing decodes to. -/
  refused : ∀ x out, size ≤ out.length → encode x out = none → ∀ bs, decode bs ≠ some x

/-- The buffer after a successful `Frame.Encode`. -/
def Frame.encoded (f : Frame) (out : List UInt8) : Option (List UInt8) :=
  if (f.encodeInto out).1 = HdrLen then some (f.encodeInto out).2 else none

/-- The buffer after a successful `ModuleMessage.Encode`. -/
def ModuleMessage.encoded (m : ModuleMessage) (out : List UInt8) : Option (List UInt8) :=
  if (m.encodeInto out).1 = some ModuleMessageHeaderLen then some (m.encodeInto out).2 else none

/-- The frame after a successful `Decode`. -/
def decoded (bs : List UInt8) : Option Frame := (decode bs).toOption

theorem decoded_eq_some {bs : List UInt8} {f : Frame} : decoded bs = some f ↔ decode bs = .ok f := by
  cases h : decode bs <;> simp [decoded, h, Except.toOption]

theorem Frame.encoded_eq {f : Frame} {out : List UInt8} (h : HdrLen ≤ out.length) :
    f.encoded out = f.encode.map (· ++ out.drop HdrLen) := by
  by_cases hv : f.validate = .ok
  · simp [Frame.encoded, Frame.encodeInto, Frame.encode, hv, Nat.not_lt.2 h]
  · simp [Frame.encoded, Frame.encodeInto, Frame.encode, hv, HdrLen]

theorem ModuleMessage.encoded_eq {m : ModuleMessage} {out : List UInt8} (h : ModuleMessageHeaderLen ≤ out.length) :
    m.encoded out = m.encode.map (· ++ out.drop ModuleMessageHeaderLen) := by
  by_cases hv : m.valid
  · simp [ModuleMessage.encoded, ModuleMessage.encodeInto, ModuleMessage.encode, hv, Nat.not_lt.2 h]
  · simp [ModuleMessage.encoded, ModuleMessage.encodeInto, ModuleMessage.encode, hv]

theorem frame_exactInverse : ExactInverse Frame.encoded decoded (·.validate = .ok) (fun _ => 0) HdrLen where
  decode_encode f out hv hlen := by
    have henc : f.encode = some f.bytes := if_pos hv
    refine ⟨f.bytes ++ out.drop HdrLen, by rw [Frame.encoded_eq hlen, henc]; rfl, ?_⟩
    exact decoded_eq_some.2 (Frame.decode_encode henc _)
  encode_decode bs f hd out hlen := by
    have hd := decoded_eq_some.1 hd
    have henc : f.encode = some f.bytes := if_pos (decode_ok hd).2
    rw [Frame.encoded_eq hlen, henc, Frame.bytes_of_decode hd]
    rfl
  refused f out hlen henc bs hd := by
    rw [Frame.encoded_eq hlen, Option.map_eq_none_iff] at henc
    exact Frame.decode_ne_of_encode henc bs (decoded_eq_some.1 hd)

theorem moduleMessage_exactInverse :
    ExactInverse ModuleMessage.encoded decodeModuleMessage (·.valid) (·.bodyLen.toNat) ModuleMessageHeaderLen where
  decode_encode m out hv hlen := by
    have henc : m.encode = some m.bytes := if_pos hv
    refine ⟨m.bytes ++ out.drop ModuleMessageHeaderLen,
      by rw [ModuleMessage.encoded_eq (by omega), henc]; rfl, ?_⟩
    exact ModuleMessage.decode_encode henc (by simp; omega)
  encode_decode bs m hd out hlen := by
    have henc : m.encode = some m.bytes := if_pos (decodeModuleMessage_valid hd).1
    rw [ModuleMessage.encoded_eq hlen, henc, ModuleMessage.bytes_of_decode hd]
    rfl
  refused m out hlen henc bs hd := by
    rw [ModuleMessage.encoded_eq hlen, Option.map_eq_none_iff] at henc
    exact ModuleMessage.decode_ne_of_encode henc bs hd

/-- **The codecs are exact inverses**: the frame header and the module header are each read
back as they were written and written as they were read; what is refused is what nothing
decodes to; and a rejected frame leaves the output as it was. -/
theorem codecs_exactInverse :
    ExactInverse Frame.encoded decoded (·.validate = .ok) (fun _ => 0) HdrLen ∧
      ExactInverse ModuleMessage.encoded decodeModuleMessage (·.valid) (·.bodyLen.toNat) ModuleMessageHeaderLen ∧
      ∀ bs out, decodeInto bs out =
        match decode bs with
        | .ok f => (.ok, f)
        | .error e => (e, out) :=
  ⟨frame_exactInverse, moduleMessage_exactInverse, decodeInto_eq⟩

end AimeeMemory.Bus
