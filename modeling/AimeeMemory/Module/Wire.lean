import AimeeMemory.Module.Extract
import AimeeMemory.Bus.ModuleProtocol
import Mathlib.Data.List.TakeWhile

/-!
# The wire of the memory module

`memory.go` answers the requests that the encoders of `module_api.h` write, and the decoders
of `module_api.h` read the answers. The two are written in two languages, each with its own
constants, limits and refusals; here each is modelled from its own source.

## What is proved

* **`moduleWire_agrees`**: for every stage, each request an encoder writes is answered, the
  answer decodes to what the handler computed, and on both ways a message that is cut or
  lengthened is refused.
-/

namespace AimeeMemory.Module

open AimeeMemory.Lib AimeeMemory.Bus
open AimeeMemory.Core (Text text)

/-! ## The handlers -/

def StageExtractIndex : UInt32 := 1
def StageWrite : UInt32 := 2
def StageEmbed : UInt32 := 3
def StageRetrieve : UInt32 := 4
def StageRerank : UInt32 := 5
def StageDeclareCommands : UInt32 := 6

def wireVersion : ℕ := 1

def requestMagic : ℕ := 0x4b4e524d
def responseMagic : ℕ := 0x464e434d
def requestLen : ℕ := 16

def gateRequestMagic : ℕ := 0x54524757
def gateResponseMagic : ℕ := 0x56524757
def relTypeMax : ℕ := 256
def gateRequestLen : ℕ := 20 + relTypeMax

def extractRequestMagic : ℕ := 0x51525458
def extractResponseMagic : ℕ := 0x53525458
def extractRequestHeaderLen : ℕ := 16
def tripleSubjectMax : ℕ := 128
def tripleRelTypeMax : ℕ := 64
def tripleObjectMax : ℕ := 128

def piiRequestMagic : ℕ := 0x51524950
def piiResponseMagic : ℕ := 0x53524950
def piiRequestHeaderLen : ℕ := 12

def scanRequestMagic : ℕ := 0x51525452
def scanResponseMagic : ℕ := 0x53525452
def scanRequestHeaderLen : ℕ := 12

def sensRequestMagic : ℕ := 0x51525350
def sensResponseMagic : ℕ := 0x53525350
def sensRequestHeaderLen : ℕ := 12

/-- A handler's answer: the response that comes with an OK, or another status. -/
abbrev Answer := Except UInt16 (List UInt8)

/-- A flag as it is written. -/
def flag (b : Bool) : ℕ := if b then 1 else 0

/-- `handleScanTurn`. -/
def handleScanTurn (cancelled : Bool) (request : List UInt8) : Answer :=
  if request.length < scanRequestHeaderLen ∨ field request 0 4 ≠ scanRequestMagic ∨
      field request 4 4 ≠ wireVersion ∨ field request 8 4 ≠ request.length - scanRequestHeaderLen then
    .error ModuleStatusInvalidRequest
  else if cancelled then .error ModuleStatusCancelled
  else
    let turn := request.drop scanRequestHeaderLen
    let attr := possessiveAttr turn
    if attr.1.length ≥ attrMax then .error ModuleStatusInvalidRequest
    else
      .ok (putLE 4 scanResponseMagic ++ putLE 4 (flag (isRetraction turn)) ++ putLE 4 (flag attr.2) ++
        putLE 4 attr.1.length ++ attr.1)

/-- A field behind its length. -/
def prefixed (s : Text) : List UInt8 := putLE 4 s.length ++ s

/-- A triple as `handleExtract` appends it, refused where a field is too long. -/
def tripleBytes (x : Triple) : Option (List UInt8) :=
  if x.subject.length ≥ tripleSubjectMax ∨ x.relType.length ≥ tripleRelTypeMax ∨
      x.object.length ≥ tripleObjectMax then none
  else
    some (putLE 4 x.subjectKind.toNat ++ putLE 4 x.objectKind.toNat ++ prefixed x.subject ++
      prefixed x.relType ++ prefixed x.object)

/-- `handleExtract`. -/
def handleExtract (cancelled : Bool) (request : List UInt8) : Answer :=
  if request.length < extractRequestHeaderLen ∨ field request 0 4 ≠ extractRequestMagic ∨
      field request 4 4 ≠ wireVersion then .error ModuleStatusInvalidRequest
  else
    let max := field request 8 4
    if max = 0 ∨ field request 12 4 ≠ request.length - extractRequestHeaderLen then
      .error ModuleStatusInvalidRequest
    else if cancelled then .error ModuleStatusCancelled
    else
      let triples := extractPatterns (request.drop extractRequestHeaderLen) max
      match triples.mapM tripleBytes with
      | none => .error ModuleStatusInvalidRequest
      | some parts => .ok (putLE 4 extractResponseMagic ++ putLE 4 triples.length ++ parts.flatten)

/-- `handleWrite`. -/
def handleWrite (cancelled : Bool) (request : List UInt8) : Answer :=
  if request.length ≠ gateRequestLen ∨ field request 0 4 ≠ gateRequestMagic ∨
      field request 4 4 ≠ wireVersion ∨ field request 18 2 ≠ 0 then .error ModuleStatusInvalidRequest
  else
    let length := field request 16 2
    if length > relTypeMax then .error ModuleStatusInvalidRequest
    else if cancelled then .error ModuleStatusCancelled
    else
      let verdict := gateCheck (.ofNat (field request 8 4)) (slice request 20 (20 + length))
        (.ofNat (field request 12 4))
      .ok (putLE 4 gateResponseMagic ++ putLE 4 verdict.code)

/-- The loop of `handleSensitivity`: the tiers of `n` labels from an offset on, and where the
last of them ends. -/
def sensLoop (request : List UInt8) : ℕ → ℕ → Option (List UInt8 × ℕ)
  | 0, offset => some ([], offset)
  | n + 1, offset =>
    if offset + 2 > request.length then none
    else
      let length := field request offset 2
      if length > relTypeMax ∨ offset + 2 + length > request.length then none
      else
        let tier := (relSensitivityOf (slice request (offset + 2) (offset + 2 + length))).tier
        (sensLoop request n (offset + 2 + length)).map fun rest => (.ofNat tier :: rest.1, rest.2)

/-- `handleSensitivity`. -/
def handleSensitivity (cancelled : Bool) (request : List UInt8) : Answer :=
  if request.length < sensRequestHeaderLen ∨ field request 0 4 ≠ sensRequestMagic ∨
      field request 4 4 ≠ wireVersion then .error ModuleStatusInvalidRequest
  else
    let count := field request 8 4
    if count = 0 then .error ModuleStatusInvalidRequest
    else if cancelled then .error ModuleStatusCancelled
    else
      match sensLoop request count sensRequestHeaderLen with
      | none => .error ModuleStatusInvalidRequest
      | some (tiers, offset) =>
        if offset ≠ request.length then .error ModuleStatusInvalidRequest
        else .ok (putLE 4 sensResponseMagic ++ putLE 4 count ++ tiers)

/-- `handlePIITurn`. -/
def handlePIITurn (cancelled : Bool) (request : List UInt8) : Answer :=
  if request.length < piiRequestHeaderLen ∨ field request 0 4 ≠ piiRequestMagic ∨
      field request 4 4 ≠ wireVersion ∨ field request 8 4 ≠ request.length - piiRequestHeaderLen then
    .error ModuleStatusInvalidRequest
  else if cancelled then .error ModuleStatusCancelled
  else
    .ok (putLE 4 piiResponseMagic ++
      putLE 4 (flag (turnRequestsSensitive (request.drop piiRequestHeaderLen))))

def ConfidenceLow : ℕ := 1
def ConfidenceMedium : ℕ := 2
def ConfidenceHigh : ℕ := 3

/-- The band of a score. -/
def confidenceOf (score : Int64) : ℕ :=
  if score ≥ 660000 then ConfidenceHigh
  else if score ≥ 330000 then ConfidenceMedium
  else ConfidenceLow

/-- `handleRerank`, which also gets what no other stage takes. -/
def handleRerank (stageID : UInt32) (cancelled : Bool) (request : List UInt8) : Answer :=
  if stageID ≠ StageRerank ∨ request.length ≠ requestLen ∨ field request 0 4 ≠ requestMagic ∨
      field request 4 4 ≠ wireVersion then .error ModuleStatusInvalidRequest
  else if cancelled then .error ModuleStatusCancelled
  else .ok (putLE 4 responseMagic ++ putLE 4 (confidenceOf (UInt64.ofNat (field request 8 8)).toInt64))

/-- `Handle`. Two stages carry no messages of `module_api.h` and are parameters. -/
def handle (handleEmbed handleDeclareCommands : Bool → List UInt8 → Answer) (stageID : UInt32)
    (cancelled : Bool) (request : List UInt8) : Answer :=
  if stageID = StageWrite then handleWrite cancelled request
  else if stageID = StageExtractIndex then
    if request.length ≥ 4 ∧ field request 0 4 = scanRequestMagic then handleScanTurn cancelled request
    else handleExtract cancelled request
  else if stageID = StageRetrieve then
    if request.length ≥ 4 ∧ field request 0 4 = sensRequestMagic then handleSensitivity cancelled request
    else handlePIITurn cancelled request
  else if stageID = StageEmbed then handleEmbed cancelled request
  else if stageID = StageDeclareCommands then handleDeclareCommands cancelled request
  else handleRerank stageID cancelled request

/-! ## The encoders and decoders of `module_api.h` -/

/-- What a reader of a C buffer sees. -/
def cstring (bytes : List UInt8) : Text := bytes.takeWhile (· ≠ 0)

namespace ModuleApi

def UINT32_MAX : ℕ := 0xffffffff
def WIRE_VERSION : ℕ := 1
def REQUEST_MAGIC : ℕ := 0x4b4e524d
def RESPONSE_MAGIC : ℕ := 0x464e434d
def REQUEST_LEN : ℕ := 16
def RESPONSE_LEN : ℕ := 8
def GATE_REQUEST_MAGIC : ℕ := 0x54524757
def GATE_RESPONSE_MAGIC : ℕ := 0x56524757
def REL_TYPE_MAX : ℕ := 256
def GATE_REQUEST_LEN : ℕ := 20 + REL_TYPE_MAX
def GATE_RESPONSE_LEN : ℕ := 8
def EXTRACT_REQUEST_MAGIC : ℕ := 0x51525458
def EXTRACT_RESPONSE_MAGIC : ℕ := 0x53525458
def EXTRACT_REQUEST_HEADER_LEN : ℕ := 16
def EXTRACT_RESPONSE_HEADER_LEN : ℕ := 8
def TRIPLE_SUBJECT_MAX : ℕ := 128
def TRIPLE_REL_TYPE_MAX : ℕ := 64
def TRIPLE_OBJECT_MAX : ℕ := 128
def SCAN_REQUEST_MAGIC : ℕ := 0x51525452
def SCAN_RESPONSE_MAGIC : ℕ := 0x53525452
def SCAN_REQUEST_HEADER_LEN : ℕ := 12
def SCAN_RESPONSE_HEADER_LEN : ℕ := 16
def SCAN_ATTR_MAX : ℕ := 128
def PII_REQUEST_MAGIC : ℕ := 0x51524950
def PII_RESPONSE_MAGIC : ℕ := 0x53524950
def PII_REQUEST_HEADER_LEN : ℕ := 12
def PII_RESPONSE_LEN : ℕ := 8
def SENS_REQUEST_MAGIC : ℕ := 0x51525350
def SENS_RESPONSE_MAGIC : ℕ := 0x53525350
def SENS_REQUEST_HEADER_LEN : ℕ := 12
def SENS_RESPONSE_HEADER_LEN : ℕ := 8

/-- `aimee_memory_request_encode`, into a buffer of `cap` bytes. -/
def requestEncode (scoreMicros : Int64) (cap : ℕ) : Option (List UInt8) :=
  if cap < REQUEST_LEN then none
  else some (putLE 4 REQUEST_MAGIC ++ putLE 4 WIRE_VERSION ++ putLE 8 scoreMicros.toUInt64.toNat)

/-- `aimee_memory_response_decode`. -/
def responseDecode (bs : List UInt8) : Option ℕ :=
  if bs.length ≠ RESPONSE_LEN ∨ field bs 0 4 ≠ RESPONSE_MAGIC then none
  else
    let value := field bs 4 4
    if value < 1 ∨ value > 3 then none else some value

/-- `aimee_memory_gate_request_encode`. -/
def gateRequestEncode (headKind : UInt32) (relType : CString) (tailKind : UInt32) (cap : ℕ) :
    Option (List UInt8) :=
  if cap < GATE_REQUEST_LEN ∨ relType.1.length > REL_TYPE_MAX then none
  else
    some (putLE 4 GATE_REQUEST_MAGIC ++ putLE 4 WIRE_VERSION ++ putLE 4 headKind.toNat ++
      putLE 4 tailKind.toNat ++ putLE 2 relType.1.length ++ putLE 2 0 ++ relType.1 ++
      List.replicate (REL_TYPE_MAX - relType.1.length) 0)

/-- `aimee_memory_gate_response_decode`. -/
def gateResponseDecode (bs : List UInt8) : Option ℕ :=
  if bs.length ≠ GATE_RESPONSE_LEN ∨ field bs 0 4 ≠ GATE_RESPONSE_MAGIC then none
  else
    let value := field bs 4 4
    if value > 3 then none else some value

/-- The size of a request that carries a text behind a header, `0` for none:
`aimee_memory_extract_request_size` and its two siblings. -/
def textRequestSize (headerLen : ℕ) (s : CString) : ℕ :=
  if s.1.length > UINT32_MAX - headerLen then 0 else headerLen + s.1.length

/-- `aimee_memory_extract_request_encode`. -/
def extractRequestEncode (s : CString) (maxTriples : UInt32) (cap : ℕ) : Option (List UInt8) :=
  let needed := textRequestSize EXTRACT_REQUEST_HEADER_LEN s
  if needed = 0 ∨ cap < needed ∨ maxTriples = 0 then none
  else
    some (putLE 4 EXTRACT_REQUEST_MAGIC ++ putLE 4 WIRE_VERSION ++ putLE 4 maxTriples.toNat ++
      putLE 4 s.1.length ++ s.1)

/-- `aimee_memory_extract_field`: the field, and the bytes it took. -/
def extractField (bs : List UInt8) (offset outCap : ℕ) : Option (Text × ℕ) :=
  if bs.length < offset + 4 then none
  else
    let fieldLen := field bs offset 4
    if fieldLen ≥ outCap ∨ bs.length - offset - 4 < fieldLen then none
    else some (cstring (slice bs (offset + 4) (offset + 4 + fieldLen)), 4 + fieldLen)

/-- One turn of the loop of `aimee_memory_extract_response_decode`: a triple, and where it
ends. -/
def tripleDecode (bs : List UInt8) (offset : ℕ) : Option (Triple × ℕ) :=
  if bs.length < offset + 8 then none
  else do
    let offset' := offset + 8
    let (subject, used₁) ← extractField bs offset' TRIPLE_SUBJECT_MAX
    let (relType, used₂) ← extractField bs (offset' + used₁) TRIPLE_REL_TYPE_MAX
    let (object, used₃) ← extractField bs (offset' + used₁ + used₂) TRIPLE_OBJECT_MAX
    return ({ subject, relType, object, subjectKind := .ofNat (field bs offset 4),
              objectKind := .ofNat (field bs (offset + 4) 4) }, offset' + used₁ + used₂ + used₃)

/-- The loop of `aimee_memory_extract_response_decode`. -/
def triplesDecode (bs : List UInt8) : ℕ → ℕ → Option (List Triple × ℕ)
  | 0, offset => some ([], offset)
  | n + 1, offset => do
    let (x, offset) ← tripleDecode bs offset
    let (xs, offset) ← triplesDecode bs n offset
    return (x :: xs, offset)

/-- `aimee_memory_extract_response_decode`. -/
def extractResponseDecode (max : UInt32) (bs : List UInt8) : Option (List Triple) :=
  if bs.length < EXTRACT_RESPONSE_HEADER_LEN ∨ field bs 0 4 ≠ EXTRACT_RESPONSE_MAGIC then none
  else
    let found := field bs 4 4
    if found > max.toNat then none
    else
      match triplesDecode bs found EXTRACT_RESPONSE_HEADER_LEN with
      | none => none
      | some (triples, offset) => if offset ≠ bs.length then none else some triples

/-- `aimee_memory_scan_request_encode`. -/
def scanRequestEncode (s : CString) (cap : ℕ) : Option (List UInt8) :=
  let needed := textRequestSize SCAN_REQUEST_HEADER_LEN s
  if needed = 0 ∨ cap < needed then none
  else some (putLE 4 SCAN_REQUEST_MAGIC ++ putLE 4 WIRE_VERSION ++ putLE 4 s.1.length ++ s.1)

/-- `aimee_memory_scan_response_decode`, into an attribute buffer of `attrCap` bytes: whether
the turn retracts, whether it names an attribute, and the attribute. -/
def scanResponseDecode (attrCap : ℕ) (bs : List UInt8) : Option (Bool × Bool × Text) :=
  if attrCap = 0 ∨ bs.length < SCAN_RESPONSE_HEADER_LEN ∨ field bs 0 4 ≠ SCAN_RESPONSE_MAGIC then none
  else
    let retraction := field bs 4 4
    let possessive := field bs 8 4
    let attrLen := field bs 12 4
    if retraction > 1 ∨ possessive > 1 ∨ attrLen ≥ attrCap ∨
        bs.length ≠ SCAN_RESPONSE_HEADER_LEN + attrLen then none
    else if (possessive = 0) ≠ (attrLen = 0) then none
    else
      some (retraction = 1, possessive = 1,
        cstring (slice bs SCAN_RESPONSE_HEADER_LEN (SCAN_RESPONSE_HEADER_LEN + attrLen)))

/-- `aimee_memory_pii_request_encode`. -/
def piiRequestEncode (s : CString) (cap : ℕ) : Option (List UInt8) :=
  let needed := textRequestSize PII_REQUEST_HEADER_LEN s
  if needed = 0 ∨ cap < needed then none
  else some (putLE 4 PII_REQUEST_MAGIC ++ putLE 4 WIRE_VERSION ++ putLE 4 s.1.length ++ s.1)

/-- `aimee_memory_pii_response_decode`. -/
def piiResponseDecode (bs : List UInt8) : Option Bool :=
  if bs.length ≠ PII_RESPONSE_LEN ∨ field bs 0 4 ≠ PII_RESPONSE_MAGIC then none
  else
    let value := field bs 4 4
    if value > 1 then none else some (value = 1)

/-- `aimee_memory_sens_request_size`, `0` for what cannot be carried. The number of labels is
an `int`. -/
def sensRequestSize (labels : List CString) : ℕ :=
  if labels.length = 0 ∨ labels.length ≥ 2 ^ 31 then 0
  else if labels.any (·.1.length > REL_TYPE_MAX) then 0
  else SENS_REQUEST_HEADER_LEN + (labels.map fun s => 2 + s.1.length).sum

/-- `aimee_memory_sens_request_encode`. -/
def sensRequestEncode (labels : List CString) (cap : ℕ) : Option (List UInt8) :=
  let needed := sensRequestSize labels
  if needed = 0 ∨ cap < needed then none
  else
    some (putLE 4 SENS_REQUEST_MAGIC ++ putLE 4 WIRE_VERSION ++ putLE 4 labels.length ++
      (labels.map fun s => putLE 2 s.1.length ++ s.1).flatten)

/-- `aimee_memory_sens_response_decode`, for `count` labels: the tiers by number. -/
def sensResponseDecode (count : ℕ) (bs : List UInt8) : Option (List ℕ) :=
  if count = 0 ∨ bs.length ≠ SENS_RESPONSE_HEADER_LEN + count ∨ field bs 0 4 ≠ SENS_RESPONSE_MAGIC ∨
      field bs 4 4 ≠ count then none
  else
    let tiers := (bs.drop SENS_RESPONSE_HEADER_LEN).map (·.toNat)
    if tiers.any (· > 2) then none else some tiers

end ModuleApi

/-! ## Agreement -/

/-- What it is for a stage to agree with an encoder and a decoder: what is encoded is
answered, the answer decodes to what was computed, and neither way is a message accepted
that is cut or lengthened. -/
structure StageAgrees {α β : Type} (encode : α → ℕ → Option (List UInt8)) (stage : Bool → List UInt8 → Answer)
    (decode : α → List UInt8 → Option β) (computed : α → β) : Prop where
  answers : ∀ a cap request, encode a cap = some request → ∃ response, stage false request = .ok response
  decodes : ∀ a cap request cancelled response, encode a cap = some request →
    stage cancelled request = .ok response → decode a response = some (computed a)
  requests : PrefixFree fun request => ∃ response, stage false request = .ok response
  responses : ∀ a, PrefixFree fun response => ∃ b, decode a response = some b

theorem flag_le (b : Bool) : flag b ≤ 1 := by
  cases b <;> decide

theorem flag_eq_one (b : Bool) : flag b = 1 ↔ b = true := by
  cases b <;> simp [flag]

theorem cstring_eq_self {s : Text} (h : 0 ∉ s) : cstring s = s :=
  List.takeWhile_eq_self_iff.2 fun c hc => by simpa using fun h0 : c = 0 => h (h0 ▸ hc)

theorem length_prefixed (s : Text) : (prefixed s).length = 4 + s.length := by
  simp [prefixed]

/-! ### The bands of a score, and the gate -/

theorem confidenceOf_le (score : Int64) : 1 ≤ confidenceOf score ∧ confidenceOf score ≤ 3 := by
  rw [confidenceOf]
  split
  · decide
  · split <;> decide

theorem rerank_agrees :
    StageAgrees ModuleApi.requestEncode (handleRerank StageRerank) (fun _ => ModuleApi.responseDecode)
      confidenceOf := by
  have hrequest {score : Int64} {cap : ℕ} {request : List UInt8} (h : ModuleApi.requestEncode score cap = some request)
      (cancelled : Bool) : handleRerank StageRerank cancelled request =
        if cancelled then .error ModuleStatusCancelled
        else .ok (putLE 4 responseMagic ++ putLE 4 (confidenceOf score)) := by
    rw [ModuleApi.requestEncode] at h
    split at h
    · cases h
    · cases h
      rw [handleRerank, if_neg (by simp [ModuleApi.REQUEST_MAGIC, ModuleApi.WIRE_VERSION, requestMagic, requestLen,
        wireVersion])]
      simp
  constructor
  · intro score cap request h
    exact ⟨_, by rw [hrequest h, if_neg (by simp)]⟩
  · intro score cap request cancelled response h hresponse
    rw [hrequest h] at hresponse
    split at hresponse
    · cases hresponse
    · cases hresponse
      have hle := confidenceOf_le score
      have hvalue : confidenceOf score % 256 ^ 4 = confidenceOf score := Nat.mod_eq_of_lt (by omega)
      rw [ModuleApi.responseDecode, if_neg (by simp [ModuleApi.RESPONSE_LEN, ModuleApi.RESPONSE_MAGIC, responseMagic])]
      simp only [field_putLE_of_le _ _ _ (Nat.le_refl 4), Nat.sub_self, field_putLE_self, hvalue]
      rw [if_neg (by omega)]
  · refine .of_length 0 (fun _ => requestLen) fun request ⟨response, h⟩ => ⟨by omega, ?_⟩
    rw [handleRerank] at h
    split at h
    · cases h
    · grind
  · refine fun _ => .of_length 0 (fun _ => ModuleApi.RESPONSE_LEN) fun response ⟨b, h⟩ => ⟨by omega, ?_⟩
    rw [ModuleApi.responseDecode] at h
    split at h
    · cases h
    · grind

theorem FactVerdict.code_le (v : FactVerdict) : v.code ≤ 3 := by
  cases v <;> decide

theorem handleWrite_request {headKind tailKind : UInt32} {relType : CString} {cap : ℕ} {request : List UInt8}
    (h : ModuleApi.gateRequestEncode headKind relType tailKind cap = some request) (cancelled : Bool) :
    handleWrite cancelled request =
      if cancelled then .error ModuleStatusCancelled
      else .ok (putLE 4 gateResponseMagic ++ putLE 4 (gateCheck headKind relType.1 tailKind).code) := by
  rw [ModuleApi.gateRequestEncode] at h
  split at h
  · cases h
  · rename_i hlen
    simp only [ModuleApi.REL_TYPE_MAX, not_or, not_lt, gt_iff_lt] at hlen
    generalize hbs : putLE 4 ModuleApi.GATE_REQUEST_MAGIC ++ putLE 4 ModuleApi.WIRE_VERSION ++
      putLE 4 headKind.toNat ++ putLE 4 tailKind.toNat ++ putLE 2 relType.1.length ++ putLE 2 0 = header at h
    have hheader : header.length = 20 := by simp [← hbs]
    generalize hzeros : List.replicate (ModuleApi.REL_TYPE_MAX - relType.1.length) (0 : UInt8) = zeros at h
    have hzero : zeros.length = 256 - relType.1.length := by simp [← hzeros, ModuleApi.REL_TYPE_MAX]
    cases h
    have hslice : slice (header ++ relType.1 ++ zeros) 20 (20 + relType.1.length) = relType.1 := by
      have := slice_append_right header (relType.1 ++ zeros) 0 relType.1.length
      rwa [hheader, slice_prefix, ← List.append_assoc] at this
    have hcount : field (header ++ relType.1 ++ zeros) 16 2 = relType.1.length := by
      rw [← hbs]
      simp
      omega
    have hhead : ¬ ((header ++ relType.1 ++ zeros).length ≠ gateRequestLen ∨
        field (header ++ relType.1 ++ zeros) 0 4 ≠ gateRequestMagic ∨
        field (header ++ relType.1 ++ zeros) 4 4 ≠ wireVersion ∨ field (header ++ relType.1 ++ zeros) 18 2 ≠ 0) := by
      refine not_or.2 ⟨?_, ?_⟩
      · simp [hheader, hzero, gateRequestLen, relTypeMax]
        omega
      · simp [← hbs, gateRequestMagic, wireVersion, ModuleApi.GATE_REQUEST_MAGIC, ModuleApi.WIRE_VERSION]
    simp only [handleWrite, if_neg hhead, hcount, hslice]
    rw [if_neg (by simp [relTypeMax]; omega), ← hbs]
    simp

theorem gate_agrees :
    StageAgrees (fun (x : UInt32 × CString × UInt32) => ModuleApi.gateRequestEncode x.1 x.2.1 x.2.2) handleWrite
      (fun _ => ModuleApi.gateResponseDecode) (fun x => (gateCheck x.1 x.2.1.1 x.2.2).code) := by
  constructor
  · intro x cap request h
    exact ⟨_, by rw [handleWrite_request h, if_neg (by simp)]⟩
  · intro x cap request cancelled response h hresponse
    rw [handleWrite_request h] at hresponse
    split at hresponse
    · cases hresponse
    · cases hresponse
      have hle := (gateCheck x.1 x.2.1.1 x.2.2).code_le
      have hvalue : (gateCheck x.1 x.2.1.1 x.2.2).code % 256 ^ 4 = (gateCheck x.1 x.2.1.1 x.2.2).code :=
        Nat.mod_eq_of_lt (by omega)
      rw [ModuleApi.gateResponseDecode,
        if_neg (by simp [ModuleApi.GATE_RESPONSE_LEN, ModuleApi.GATE_RESPONSE_MAGIC, gateResponseMagic])]
      simp only [field_putLE_of_le _ _ _ (Nat.le_refl 4), Nat.sub_self, field_putLE_self, hvalue]
      rw [if_neg (by omega)]
  · refine .of_length 0 (fun _ => gateRequestLen) fun request ⟨response, h⟩ => ⟨by omega, ?_⟩
    rw [handleWrite] at h
    split at h
    · cases h
    · grind
  · refine fun _ => .of_length 0 (fun _ => ModuleApi.GATE_RESPONSE_LEN) fun response ⟨b, h⟩ => ⟨by omega, ?_⟩
    rw [ModuleApi.gateResponseDecode] at h
    split at h
    · cases h
    · grind

/-! ### The turn classifier and the scan -/

/-- The length of a text that a request carries fits its field. -/
theorem length_of_textRequestSize {headerLen : ℕ} {s : CString} (h : ModuleApi.textRequestSize headerLen s ≠ 0) :
    s.1.length % 4294967296 = s.1.length := by
  rw [ModuleApi.textRequestSize] at h
  split at h
  · exact absurd rfl h
  · rename_i hlen
    simp only [ModuleApi.UINT32_MAX] at hlen
    exact Nat.mod_eq_of_lt (by omega)

theorem handlePIITurn_request {s : CString} {cap : ℕ} {request : List UInt8}
    (h : ModuleApi.piiRequestEncode s cap = some request) (cancelled : Bool) :
    handlePIITurn cancelled request =
      if cancelled then .error ModuleStatusCancelled
      else .ok (putLE 4 piiResponseMagic ++ putLE 4 (flag (turnRequestsSensitive s.1))) := by
  rw [ModuleApi.piiRequestEncode] at h
  split at h
  · cases h
  · rename_i hsize
    cases h
    have hlen := length_of_textRequestSize (not_or.1 hsize).1
    rw [handlePIITurn, if_neg (by simp [hlen, piiRequestMagic, piiRequestHeaderLen, wireVersion,
      ModuleApi.PII_REQUEST_MAGIC, ModuleApi.WIRE_VERSION]; omega)]
    simp [piiRequestHeaderLen, List.drop_append, List.drop_eq_nil_of_le]

theorem pii_agrees :
    StageAgrees ModuleApi.piiRequestEncode handlePIITurn (fun _ => ModuleApi.piiResponseDecode)
      (fun s => turnRequestsSensitive s.1) := by
  constructor
  · intro s cap request h
    exact ⟨_, by rw [handlePIITurn_request h, if_neg (by simp)]⟩
  · intro s cap request cancelled response h hresponse
    rw [handlePIITurn_request h] at hresponse
    split at hresponse
    · cases hresponse
    · cases hresponse
      rw [ModuleApi.piiResponseDecode,
        if_neg (by simp [ModuleApi.PII_RESPONSE_LEN, ModuleApi.PII_RESPONSE_MAGIC, piiResponseMagic])]
      cases turnRequestsSensitive s.1 <;> simp [flag]
  · refine .of_length piiRequestHeaderLen (fun header => piiRequestHeaderLen + field header 8 4)
      fun request ⟨response, h⟩ => ?_
    rw [handlePIITurn] at h
    split at h
    · cases h
    · rw [field_take (by decide)]
      grind
  · refine fun _ => .of_length 0 (fun _ => ModuleApi.PII_RESPONSE_LEN) fun response ⟨b, h⟩ => ⟨by omega, ?_⟩
    rw [ModuleApi.piiResponseDecode] at h
    split at h
    · cases h
    · grind

theorem handleScanTurn_request {s : CString} {cap : ℕ} {request : List UInt8}
    (h : ModuleApi.scanRequestEncode s cap = some request) (cancelled : Bool) :
    handleScanTurn cancelled request =
      if cancelled then .error ModuleStatusCancelled
      else
        .ok (putLE 4 scanResponseMagic ++ putLE 4 (flag (isRetraction s.1)) ++
          putLE 4 (flag (possessiveAttr s.1).2) ++ putLE 4 (possessiveAttr s.1).1.length ++
          (possessiveAttr s.1).1) := by
  rw [ModuleApi.scanRequestEncode] at h
  split at h
  · cases h
  · rename_i hsize
    cases h
    have hlen := length_of_textRequestSize (not_or.1 hsize).1
    have hfits := (possessiveAttr_fits s.1).1
    rw [handleScanTurn, if_neg (by simp [hlen, scanRequestMagic, scanRequestHeaderLen, wireVersion,
      ModuleApi.SCAN_REQUEST_MAGIC, ModuleApi.WIRE_VERSION]; omega)]
    have hdrop : (putLE 4 ModuleApi.SCAN_REQUEST_MAGIC ++ putLE 4 ModuleApi.WIRE_VERSION ++
        putLE 4 s.1.length ++ s.1).drop scanRequestHeaderLen = s.1 := by
      simp [scanRequestHeaderLen, List.drop_append, List.drop_eq_nil_of_le]
    simp only [hdrop]
    rw [if_neg (not_le.2 hfits)]

/-- What the handler answers is read as what it computed. -/
theorem scanResponseDecode_answer {retraction : Bool} {attr : Text × Bool} (hlen : attr.1.length < attrMax)
    (hflag : attr.2 = true ↔ attr.1 ≠ []) (hzero : 0 ∉ attr.1) :
    ModuleApi.scanResponseDecode ModuleApi.SCAN_ATTR_MAX (putLE 4 scanResponseMagic ++ putLE 4 (flag retraction) ++
      putLE 4 (flag attr.2) ++ putLE 4 attr.1.length ++ attr.1) = some (retraction, attr.2, attr.1) := by
  simp only [attrMax] at hlen
  have hmod : attr.1.length % 4294967296 = attr.1.length := Nat.mod_eq_of_lt (by omega)
  generalize hbs : putLE 4 scanResponseMagic ++ putLE 4 (flag retraction) ++ putLE 4 (flag attr.2) ++
    putLE 4 attr.1.length = header
  have hheader : header.length = 16 := by simp [← hbs]
  have hslice : slice (header ++ attr.1) 16 (16 + attr.1.length) = attr.1 := by
    have := slice_append_right header attr.1 0 attr.1.length
    rwa [hheader, slice_self] at this
  rw [ModuleApi.scanResponseDecode, if_neg (by simp [← hbs, ModuleApi.SCAN_ATTR_MAX,
    ModuleApi.SCAN_RESPONSE_HEADER_LEN, ModuleApi.SCAN_RESPONSE_MAGIC, scanResponseMagic]; omega)]
  have hretraction : field (header ++ attr.1) 4 4 = flag retraction := by
    rw [← hbs]
    cases retraction <;> simp [flag]
  have hpossessive : field (header ++ attr.1) 8 4 = flag attr.2 := by
    rw [← hbs]
    cases attr.2 <;> simp [flag]
  have hattr : field (header ++ attr.1) 12 4 = attr.1.length := by
    rw [← hbs]
    simp [hmod]
  -- the flag and the attribute come together
  have hboth : (flag attr.2 = 0) = (attr.1.length = 0) := by
    rw [List.length_eq_zero_iff]
    cases h2 : attr.2 <;> simp_all [flag]
  simp only [hretraction, hpossessive, hattr, hboth]
  rw [if_neg, if_neg (by simp)]
  · simp only [ModuleApi.SCAN_RESPONSE_HEADER_LEN, hslice, cstring_eq_self hzero, flag_eq_one, Bool.decide_eq_true]
  · have h1 := flag_le retraction
    have h2 := flag_le attr.2
    simp [hheader, ModuleApi.SCAN_RESPONSE_HEADER_LEN, ModuleApi.SCAN_ATTR_MAX]
    omega

theorem scan_agrees :
    StageAgrees ModuleApi.scanRequestEncode handleScanTurn
      (fun _ => ModuleApi.scanResponseDecode ModuleApi.SCAN_ATTR_MAX)
      (fun s => (isRetraction s.1, (possessiveAttr s.1).2, (possessiveAttr s.1).1)) := by
  constructor
  · intro s cap request h
    exact ⟨_, by rw [handleScanTurn_request h, if_neg (by simp)]⟩
  · intro s cap request cancelled response h hresponse
    rw [handleScanTurn_request h] at hresponse
    split at hresponse
    · cases hresponse
    · cases hresponse
      obtain ⟨hlen, hflag, hnul⟩ := possessiveAttr_fits s.1
      exact scanResponseDecode_answer hlen hflag (hnul s.2)
  · refine .of_length scanRequestHeaderLen (fun header => scanRequestHeaderLen + field header 8 4)
      fun request ⟨response, h⟩ => ?_
    rw [handleScanTurn] at h
    split at h
    · cases h
    · rw [field_take (by decide)]
      grind
  · refine fun _ => .of_length ModuleApi.SCAN_RESPONSE_HEADER_LEN
      (fun header => ModuleApi.SCAN_RESPONSE_HEADER_LEN + field header 12 4) fun response ⟨b, h⟩ => ?_
    rw [ModuleApi.scanResponseDecode] at h
    split at h
    · cases h
    · simp only at h
      split at h
      · cases h
      · rw [field_take (by decide)]
        grind

/-! ### The triples -/

/-- The bytes of a triple, whatever the length of its fields. -/
def tripleWire (x : Triple) : List UInt8 :=
  putLE 4 x.subjectKind.toNat ++ putLE 4 x.objectKind.toNat ++ prefixed x.subject ++ prefixed x.relType ++
    prefixed x.object

/-- A triple that fits the buffers of the decoder, and ends where its strings do. -/
structure Triple.Fits (x : Triple) : Prop where
  subject : x.subject.length < 128 ∧ 0 ∉ x.subject
  relType : x.relType.length < 64 ∧ 0 ∉ x.relType
  object : x.object.length < 128 ∧ 0 ∉ x.object

theorem mapM_tripleBytes {xs : List Triple} (h : ∀ x ∈ xs, x.Fits) :
    xs.mapM tripleBytes = some (xs.map tripleWire) := by
  induction xs with
  | nil => rfl
  | cons x xs ih =>
    have hx := h x List.mem_cons_self
    have hsome : tripleBytes x = some (tripleWire x) := by
      refine if_neg ?_
      have := hx.subject.1
      have := hx.relType.1
      have := hx.object.1
      simp only [tripleSubjectMax, tripleRelTypeMax, tripleObjectMax]
      omega
    rw [List.mapM_cons, hsome, ih fun y hy => h y (List.mem_cons_of_mem _ hy)]
    rfl

/-- A field is read back, and the bytes it took are counted. -/
theorem extractField_prefixed (before rest : List UInt8) {s : Text} {cap : ℕ} (hlen : s.length < cap)
    (hcap : cap ≤ 128) (hnul : 0 ∉ s) :
    ModuleApi.extractField (before ++ (prefixed s ++ rest)) before.length cap = some (s, (prefixed s).length) := by
  have hfield : field (before ++ (prefixed s ++ rest)) before.length 4 = s.length := by
    have := field_append_right before (prefixed s ++ rest) 0 4
    rw [Nat.add_zero] at this
    rw [this, prefixed, List.append_assoc, field_putLE]
    exact Nat.mod_eq_of_lt (by omega)
  have hslice : slice (before ++ (prefixed s ++ rest)) (before.length + 4) (before.length + 4 + s.length) = s := by
    rw [Nat.add_assoc, slice_append_right, prefixed, List.append_assoc]
    have := slice_append_right (putLE 4 s.length) (s ++ rest) 0 s.length
    rwa [length_putLE, slice_prefix] at this
  rw [ModuleApi.extractField, if_neg (by simp [length_prefixed]; omega)]
  simp only [hfield, hslice]
  rw [if_neg (by simp [length_prefixed]; omega), cstring_eq_self hnul, length_prefixed]

/-- A triple is read back. -/
theorem tripleDecode_wire (before rest : List UInt8) {x : Triple} (hx : x.Fits) :
    ModuleApi.tripleDecode (before ++ (tripleWire x ++ rest)) before.length =
      some (x, before.length + (tripleWire x).length) := by
  obtain ⟨⟨hs, hs0⟩, ⟨hr, hr0⟩, ⟨ho, ho0⟩⟩ := hx
  generalize hkinds : putLE 4 x.subjectKind.toNat ++ putLE 4 x.objectKind.toNat = kinds
  have hlen : kinds.length = 8 := by simp [← hkinds]
  have hwire : tripleWire x = kinds ++ prefixed x.subject ++ prefixed x.relType ++ prefixed x.object := by
    rw [tripleWire, ← hkinds]
  have hsubject := extractField_prefixed (before ++ kinds)
    (prefixed x.relType ++ (prefixed x.object ++ rest)) hs (Nat.le_refl 128) hs0
  have hrel := extractField_prefixed (before ++ kinds ++ prefixed x.subject)
    (prefixed x.object ++ rest) hr (by omega) hr0
  have hobject := extractField_prefixed (before ++ kinds ++ prefixed x.subject ++ prefixed x.relType)
    rest ho (Nat.le_refl 128) ho0
  have hsk : field (before ++ (tripleWire x ++ rest)) before.length 4 = x.subjectKind.toNat := by
    have := field_append_right before (tripleWire x ++ rest) 0 4
    rw [Nat.add_zero] at this
    rw [this, tripleWire]
    simp
  have hok : field (before ++ (tripleWire x ++ rest)) (before.length + 4) 4 = x.objectKind.toNat := by
    rw [field_append_right, tripleWire]
    simp
  simp only [List.length_append, hlen, List.append_assoc] at hsubject hrel hobject
  rw [ModuleApi.tripleDecode, if_neg (by simp [hwire, hlen]), hsk, hok]
  simp only [hwire, List.append_assoc, ModuleApi.TRIPLE_SUBJECT_MAX, ModuleApi.TRIPLE_REL_TYPE_MAX,
    ModuleApi.TRIPLE_OBJECT_MAX, hsubject, hrel, hobject, Option.bind_eq_bind, Option.bind_some, Option.pure_def,
    UInt32.ofNat_toNat, List.length_append, hlen, Nat.add_assoc]

/-- All triples are read back. -/
theorem triplesDecode_wire (before rest : List UInt8) {xs : List Triple} (h : ∀ x ∈ xs, x.Fits) :
    ModuleApi.triplesDecode (before ++ ((xs.map tripleWire).flatten ++ rest)) xs.length before.length =
      some (xs, before.length + (xs.map tripleWire).flatten.length) := by
  induction xs generalizing before with
  | nil => rfl
  | cons x xs ih =>
    have hx := tripleDecode_wire before ((xs.map tripleWire).flatten ++ rest) (h x List.mem_cons_self)
    have hxs := ih (before ++ tripleWire x) fun y hy => h y (List.mem_cons_of_mem _ hy)
    simp only [List.append_assoc, List.length_append] at hxs
    simp only [List.map_cons, List.flatten_cons, List.append_assoc, List.length_cons, ModuleApi.triplesDecode, hx,
      hxs, Option.bind_eq_bind, Option.bind_some, Option.pure_def, List.length_append, Nat.add_assoc]

theorem extracted_fits (s : CString) (max : ℕ) : ∀ x ∈ extractPatterns s.1 max, x.Fits := by
  intro x hx
  obtain ⟨hs, hr, ho, hnul⟩ := (extractPatterns_fits s.1 max).2 x hx
  obtain ⟨hs0, hr0, ho0⟩ := hnul s.2
  exact ⟨⟨hs, hs0⟩, ⟨hr, hr0⟩, ⟨ho, ho0⟩⟩

theorem handleExtract_request {s : CString} {max : UInt32} {cap : ℕ} {request : List UInt8}
    (h : ModuleApi.extractRequestEncode s max cap = some request) (cancelled : Bool) :
    handleExtract cancelled request =
      if cancelled then .error ModuleStatusCancelled
      else
        .ok (putLE 4 extractResponseMagic ++ putLE 4 (extractPatterns s.1 max.toNat).length ++
          ((extractPatterns s.1 max.toNat).map tripleWire).flatten) := by
  rw [ModuleApi.extractRequestEncode] at h
  split at h
  · cases h
  · rename_i hsize
    cases h
    have hlen := length_of_textRequestSize (not_or.1 hsize).1
    have hmax : max.toNat ≠ 0 := fun h0 => (not_or.1 (not_or.1 hsize).2).2 (UInt32.toNat_inj.1 h0)
    generalize hbs : putLE 4 ModuleApi.EXTRACT_REQUEST_MAGIC ++ putLE 4 ModuleApi.WIRE_VERSION ++
      putLE 4 max.toNat ++ putLE 4 s.1.length = header
    have hheader : header.length = 16 := by simp [← hbs]
    have hdrop : (header ++ s.1).drop extractRequestHeaderLen = s.1 := by
      rw [extractRequestHeaderLen, ← hheader, List.drop_left]
    have hfield : field (header ++ s.1) 8 4 = max.toNat := by simp [← hbs]
    have hcount : field (header ++ s.1) 12 4 = s.1.length := by simp [← hbs, hlen]
    rw [handleExtract, if_neg (by simp [← hbs, extractRequestMagic, extractRequestHeaderLen, wireVersion,
      ModuleApi.EXTRACT_REQUEST_MAGIC, ModuleApi.WIRE_VERSION]; omega)]
    simp only [hdrop, hfield, hcount, mapM_tripleBytes (extracted_fits s max.toNat)]
    rw [if_neg (by simp [hheader, extractRequestHeaderLen, hmax])]

theorem extractField_append {bs : List UInt8} {offset cap : ℕ} {r : Text × ℕ}
    (h : ModuleApi.extractField bs offset cap = some r) (rest : List UInt8) :
    ModuleApi.extractField (bs ++ rest) offset cap = some r ∧ offset + r.2 ≤ bs.length := by
  rw [ModuleApi.extractField] at h
  split at h
  · cases h
  · rename_i hlen
    simp only at h
    split at h
    · cases h
    · rename_i hfit
      cases h
      have hfield : field (bs ++ rest) offset 4 = field bs offset 4 := field_append_left _ (by omega)
      refine ⟨?_, by simp only; omega⟩
      rw [ModuleApi.extractField, if_neg (by simp; omega)]
      simp only [hfield]
      rw [if_neg (by simp; omega), slice_append_left _ (by omega)]

theorem tripleDecode_append {bs : List UInt8} {offset : ℕ} {r : Triple × ℕ}
    (h : ModuleApi.tripleDecode bs offset = some r) (rest : List UInt8) :
    ModuleApi.tripleDecode (bs ++ rest) offset = some r ∧ r.2 ≤ bs.length := by
  rw [ModuleApi.tripleDecode] at h
  split at h
  · cases h
  · rename_i hlen
    simp only [Option.bind_eq_bind, Option.bind_eq_some_iff, Option.pure_def, Option.some.injEq] at h
    obtain ⟨⟨subject, used₁⟩, h₁, ⟨relType, used₂⟩, h₂, ⟨object, used₃⟩, h₃, rfl⟩ := h
    obtain ⟨h₁, -⟩ := extractField_append h₁ rest
    obtain ⟨h₂, -⟩ := extractField_append h₂ rest
    obtain ⟨h₃, hle⟩ := extractField_append h₃ rest
    refine ⟨?_, hle⟩
    rw [ModuleApi.tripleDecode, if_neg (by simp; omega), field_append_left _ (by omega),
      field_append_left _ (by omega)]
    simp [h₁, h₂, h₃]

/-- What is behind the triples is not read. -/
theorem triplesDecode_append {bs : List UInt8} {n offset : ℕ} {r : List Triple × ℕ}
    (h : ModuleApi.triplesDecode bs n offset = some r) (rest : List UInt8) :
    ModuleApi.triplesDecode (bs ++ rest) n offset = some r := by
  induction n generalizing offset r with
  | zero => exact h
  | succ n ih =>
    simp only [ModuleApi.triplesDecode, Option.bind_eq_bind, Option.bind_eq_some_iff, Option.pure_def,
      Option.some.injEq] at h ⊢
    obtain ⟨⟨x, offset'⟩, hx, ⟨xs, stop⟩, hxs, rfl⟩ := h
    exact ⟨(x, offset'), (tripleDecode_append hx rest).1, (xs, stop), ih hxs, rfl⟩

/-- A response that is accepted ends with its last triple. -/
theorem extractResponseDecode_some {max : UInt32} {bs : List UInt8} {xs : List Triple}
    (h : ModuleApi.extractResponseDecode max bs = some xs) :
    8 ≤ bs.length ∧
      ModuleApi.triplesDecode bs (field bs 4 4) ModuleApi.EXTRACT_RESPONSE_HEADER_LEN = some (xs, bs.length) := by
  rw [ModuleApi.extractResponseDecode] at h
  split at h
  · cases h
  · rename_i hhead
    simp only [not_or, not_lt, ModuleApi.EXTRACT_RESPONSE_HEADER_LEN] at hhead
    simp only at h
    split at h
    · cases h
    · split at h
      · cases h
      · rename_i triples offset hdecode
        split at h
        · cases h
        · rename_i hstop
          cases h
          exact ⟨hhead.1, by rw [hdecode, not_not.1 hstop]⟩

/-- The triples that are answered are read as they were extracted. -/
theorem extractResponseDecode_answer {max : UInt32} {xs : List Triple} (hcount : xs.length ≤ max.toNat)
    (hfits : ∀ x ∈ xs, x.Fits) :
    ModuleApi.extractResponseDecode max (putLE 4 extractResponseMagic ++ putLE 4 xs.length ++
      (xs.map tripleWire).flatten) = some xs := by
  have hmod : xs.length % 4294967296 = xs.length := Nat.mod_eq_of_lt (hcount.trans_lt max.toNat_lt)
  generalize hbs : putLE 4 extractResponseMagic ++ putLE 4 xs.length = header
  have hheader : header.length = 8 := by simp [← hbs]
  have hfound : field (header ++ (xs.map tripleWire).flatten) 4 4 = xs.length := by simp [← hbs, hmod]
  have hdecode := triplesDecode_wire header [] hfits
  rw [List.append_nil, hheader] at hdecode
  rw [ModuleApi.extractResponseDecode, if_neg (by simp [← hbs, ModuleApi.EXTRACT_RESPONSE_HEADER_LEN,
    ModuleApi.EXTRACT_RESPONSE_MAGIC, extractResponseMagic]; omega)]
  simp only [hfound, ModuleApi.EXTRACT_RESPONSE_HEADER_LEN, hdecode]
  rw [if_neg (by omega), if_neg (by simp [hheader])]

theorem extract_agrees :
    StageAgrees (fun (x : CString × UInt32) => ModuleApi.extractRequestEncode x.1 x.2) handleExtract
      (fun x => ModuleApi.extractResponseDecode x.2) (fun x => extractPatterns x.1.1 x.2.toNat) := by
  constructor
  · intro x cap request h
    exact ⟨_, by rw [handleExtract_request h, if_neg (by simp)]⟩
  · intro x cap request cancelled response h hresponse
    rw [handleExtract_request h] at hresponse
    split at hresponse
    · cases hresponse
    · cases hresponse
      exact extractResponseDecode_answer (extractPatterns_fits x.1.1 x.2.toNat).1 (extracted_fits x.1 x.2.toNat)
  · refine .of_length extractRequestHeaderLen
      (fun header => extractRequestHeaderLen + field header 12 4) fun request ⟨response, h⟩ => ?_
    rw [handleExtract] at h
    split at h
    · cases h
    · simp only at h
      split at h
      · cases h
      · rw [field_take (by decide)]
        grind
  · rintro x bs rest ⟨b, h⟩ ⟨b', h'⟩
    obtain ⟨hlen, hdecode⟩ := extractResponseDecode_some h
    obtain ⟨-, hdecode'⟩ := extractResponseDecode_some h'
    have hsame := triplesDecode_append hdecode rest
    rw [field_append_left rest (by omega), hsame] at hdecode'
    simp only [Option.some.injEq, Prod.mk.injEq, List.length_append] at hdecode'
    exact List.eq_nil_of_length_eq_zero (by omega)

/-! ### The batch of labels -/

/-- The bytes of a label. -/
def labelWire (s : CString) : List UInt8 := putLE 2 s.1.length ++ s.1

/-- The tier of a label, by number. -/
def tierOf (s : CString) : ℕ := (relSensitivityOf s.1).tier

theorem tierOf_le (s : CString) : tierOf s ≤ 2 := by
  rw [tierOf]
  cases relSensitivityOf s.1 <;> decide

/-- The loop answers for each label in its place. -/
theorem sensLoop_wire (before : List UInt8) {labels : List CString} (h : ∀ s ∈ labels, s.1.length ≤ 256) :
    sensLoop (before ++ (labels.map labelWire).flatten) labels.length before.length =
      some (labels.map fun s => .ofNat (tierOf s), before.length + (labels.map labelWire).flatten.length) := by
  induction labels generalizing before with
  | nil => rfl
  | cons s labels ih =>
    have hs := h s List.mem_cons_self
    have hrest := ih (before ++ labelWire s) fun y hy => h y (List.mem_cons_of_mem _ hy)
    rw [List.map_cons, List.flatten_cons]
    generalize (labels.map labelWire).flatten = wires at *
    have hfield : field (before ++ (labelWire s ++ wires)) before.length 2 = s.1.length := by
      have := field_append_right before (labelWire s ++ wires) 0 2
      rw [Nat.add_zero] at this
      rw [this, labelWire, List.append_assoc, field_putLE]
      exact Nat.mod_eq_of_lt (by omega)
    have hslice : slice (before ++ (labelWire s ++ wires)) (before.length + 2) (before.length + 2 + s.1.length) = s.1 := by
      rw [Nat.add_assoc, slice_append_right, labelWire, List.append_assoc]
      have := slice_append_right (putLE 2 s.1.length) (s.1 ++ wires) 0 s.1.length
      rwa [length_putLE, slice_prefix] at this
    have hlen : (labelWire s).length = 2 + s.1.length := by simp [labelWire]
    rw [List.append_assoc, List.length_append, hlen, ← Nat.add_assoc] at hrest
    rw [List.length_cons, sensLoop, if_neg (by simp [hlen]; omega)]
    simp only [hfield, hslice]
    rw [if_neg (by simp [hlen, relTypeMax]; omega), hrest]
    simp [hlen, tierOf]
    omega

theorem handleSensitivity_request {labels : List CString} {cap : ℕ} {request : List UInt8}
    (h : ModuleApi.sensRequestEncode labels cap = some request) (cancelled : Bool) :
    (0 < labels.length ∧ labels.length < 2 ^ 31) ∧
      handleSensitivity cancelled request =
        if cancelled then .error ModuleStatusCancelled
        else
          .ok (putLE 4 sensResponseMagic ++ putLE 4 labels.length ++ labels.map fun s => .ofNat (tierOf s)) := by
  rw [ModuleApi.sensRequestEncode] at h
  split at h
  · cases h
  · rename_i hsize
    cases h
    have hneeded := (not_or.1 hsize).1
    rw [ModuleApi.sensRequestSize] at hneeded
    split at hneeded
    · exact absurd rfl hneeded
    · rename_i hcount
      split at hneeded
      · exact absurd rfl hneeded
      · rename_i hlong
        have hlabels : ∀ s ∈ labels, s.1.length ≤ 256 := by
          intro s hs
          by_contra hlt
          exact hlong (List.any_eq_true.2 ⟨s, hs, by simpa [ModuleApi.REL_TYPE_MAX] using hlt⟩)
        refine ⟨by omega, ?_⟩
        generalize hbs : putLE 4 ModuleApi.SENS_REQUEST_MAGIC ++ putLE 4 ModuleApi.WIRE_VERSION ++
          putLE 4 labels.length = header
        have hheader : header.length = 12 := by simp [← hbs]
        have hloop := sensLoop_wire header hlabels
        have hwires : (labels.map fun s => putLE 2 s.1.length ++ s.1) = labels.map labelWire := rfl
        have hfield : field (header ++ (labels.map labelWire).flatten) 8 4 = labels.length := by
          simp [← hbs]
          omega
        rw [hheader] at hloop
        rw [hwires, handleSensitivity, if_neg (by simp [← hbs, sensRequestMagic, sensRequestHeaderLen, wireVersion,
          ModuleApi.SENS_REQUEST_MAGIC, ModuleApi.WIRE_VERSION]; omega)]
        have hstop : ¬ 12 + (labels.map labelWire).flatten.length ≠ (header ++ (labels.map labelWire).flatten).length := by
          simp [hheader]
        simp only [hfield, sensRequestHeaderLen, hloop]
        rw [if_neg (by omega), if_neg hstop]

/-- What is behind the labels is not read. -/
theorem sensLoop_append {request : List UInt8} {n offset : ℕ} {r : List UInt8 × ℕ}
    (h : sensLoop request n offset = some r) (rest : List UInt8) :
    sensLoop (request ++ rest) n offset = some r ∧ r.1.length = n := by
  induction n generalizing offset r with
  | zero =>
    rw [sensLoop, Option.some.injEq] at h
    exact ⟨by rw [sensLoop, h], by rw [← h]; rfl⟩
  | succ n ih =>
    rw [sensLoop] at h
    split at h
    · cases h
    · rename_i hlen
      simp only at h
      split at h
      · cases h
      · rename_i hfit
        simp only [Option.map_eq_some_iff] at h
        obtain ⟨r', hr', rfl⟩ := h
        obtain ⟨hloop, htiers⟩ := ih hr'
        have hfield : field (request ++ rest) offset 2 = field request offset 2 := field_append_left _ (by omega)
        refine ⟨?_, by simp [htiers]⟩
        rw [sensLoop, if_neg (by simp; omega)]
        simp only [hfield]
        rw [if_neg (by simp; omega), slice_append_left _ (by omega), hloop]
        rfl

/-- A batch that is answered is answered whole, and ends with its last label. -/
theorem handleSensitivity_ok {request response : List UInt8} (h : handleSensitivity false request = .ok response) :
    12 ≤ request.length ∧ response.length = 8 + field request 8 4 ∧
      ∃ tiers, sensLoop request (field request 8 4) sensRequestHeaderLen = some (tiers, request.length) := by
  rw [handleSensitivity] at h
  split at h
  · cases h
  · rename_i hhead
    simp only [not_or, not_lt, sensRequestHeaderLen] at hhead
    simp only [Bool.false_eq_true, if_false] at h
    split at h
    · cases h
    · split at h
      · cases h
      · rename_i tiers offset hloop
        split at h
        · cases h
        · rename_i hstop
          cases h
          have htiers := (sensLoop_append hloop []).2
          refine ⟨hhead.1, ?_, tiers, by rw [hloop, not_not.1 hstop]⟩
          simp only at htiers
          simp only [List.length_append, length_putLE, htiers]

/-- The tiers of a batch are read as they were computed. -/
theorem sensResponseDecode_answer {labels : List CString} (hpos : 0 < labels.length) (hlt : labels.length < 2 ^ 31) :
    ModuleApi.sensResponseDecode labels.length (putLE 4 sensResponseMagic ++ putLE 4 labels.length ++
      labels.map fun s => UInt8.ofNat (tierOf s)) = some (labels.map tierOf) := by
  generalize hbs : putLE 4 sensResponseMagic ++ putLE 4 labels.length = header
  have hheader : header.length = 8 := by simp [← hbs]
  have htiers : ((labels.map fun s => UInt8.ofNat (tierOf s)).map (·.toNat)) = labels.map tierOf := by
    rw [List.map_map]
    refine List.map_congr_left fun s _ => ?_
    have := tierOf_le s
    simp
    omega
  have hdrop : ((header ++ labels.map fun s => UInt8.ofNat (tierOf s)).drop
      ModuleApi.SENS_RESPONSE_HEADER_LEN).map (·.toNat) = labels.map tierOf := by
    rw [ModuleApi.SENS_RESPONSE_HEADER_LEN, ← hheader, List.drop_left, htiers]
  have hne : labels ≠ [] := fun h0 => by simp [h0] at hpos
  rw [ModuleApi.sensResponseDecode, if_neg (by simp [← hbs, hne, ModuleApi.SENS_RESPONSE_HEADER_LEN,
    ModuleApi.SENS_RESPONSE_MAGIC, sensResponseMagic]; omega)]
  simp only [hdrop]
  rw [if_neg]
  rw [List.any_eq_true]
  rintro ⟨tier, htier, h2⟩
  obtain ⟨s, -, rfl⟩ := List.mem_map.1 htier
  have := tierOf_le s
  simp at h2
  omega

theorem sens_agrees :
    StageAgrees ModuleApi.sensRequestEncode handleSensitivity (fun labels => ModuleApi.sensResponseDecode labels.length)
      (fun labels => labels.map tierOf) := by
  constructor
  · intro labels cap request h
    exact ⟨_, by rw [(handleSensitivity_request h _).2, if_neg (by simp)]⟩
  · intro labels cap request cancelled response h hresponse
    obtain ⟨⟨hpos, hlt⟩, hhandle⟩ := handleSensitivity_request h cancelled
    rw [hhandle] at hresponse
    split at hresponse
    · cases hresponse
    · cases hresponse
      exact sensResponseDecode_answer hpos hlt
  · rintro bs rest ⟨b, h⟩ ⟨b', h'⟩
    obtain ⟨hlen, -, tiers, hloop⟩ := handleSensitivity_ok h
    obtain ⟨-, -, tiers', hloop'⟩ := handleSensitivity_ok h'
    rw [field_append_left rest (by omega), (sensLoop_append hloop rest).1] at hloop'
    simp only [Option.some.injEq, Prod.mk.injEq, List.length_append] at hloop'
    exact List.eq_nil_of_length_eq_zero (by omega)
  · refine fun labels => .of_length 0 (fun _ => ModuleApi.SENS_RESPONSE_HEADER_LEN + labels.length)
      fun response ⟨b, h⟩ => ⟨by omega, ?_⟩
    rw [ModuleApi.sensResponseDecode] at h
    split at h
    · cases h
    · grind

/-! ### The stages -/

section Stages

variable {α β : Type} {encode : α → ℕ → Option (List UInt8)} {stage stage' : Bool → List UInt8 → Answer}
  {decode : α → List UInt8 → Option β} {computed : α → β}

/-- A stage that passes the requests of an encoder on to a handler that agrees with it. -/
theorem StageAgrees.of_handler (h : StageAgrees encode stage decode computed)
    (hsame : ∀ a cap request cancelled, encode a cap = some request → stage' cancelled request = stage cancelled request)
    (hfree : PrefixFree fun request => ∃ response, stage' false request = .ok response) :
    StageAgrees encode stage' decode computed where
  answers a cap request hencode := by
    rw [hsame a cap request false hencode]
    exact h.answers a cap request hencode
  decodes a cap request cancelled response hencode hresponse := by
    rw [hsame a cap request cancelled hencode] at hresponse
    exact h.decodes a cap request cancelled response hencode hresponse
  requests := hfree
  responses := h.responses

/-- Two shapes in one stage, told apart by their first four bytes. -/
theorem prefixFree_of_magic (magic : ℕ) {first second : List UInt8 → Answer}
    (h₁ : PrefixFree fun request => ∃ response, first request = .ok response)
    (h₂ : PrefixFree fun request => ∃ response, second request = .ok response)
    (hlen : ∀ request response, second request = .ok response → 4 ≤ request.length) :
    PrefixFree fun request => ∃ response,
      (if request.length ≥ 4 ∧ field request 0 4 = magic then first request else second request) = .ok response := by
  rintro bs rest ⟨response, h⟩ ⟨response', h'⟩
  split at h
  · rename_i hmagic
    rw [if_pos ⟨by simp; omega, by rw [field_append_left _ (by omega)]; exact hmagic.2⟩] at h'
    exact h₁ bs rest ⟨response, h⟩ ⟨response', h'⟩
  · rename_i hmagic
    have h4 := hlen bs response h
    rw [if_neg fun hm => hmagic ⟨h4, by rw [← field_append_left rest (by omega)]; exact hm.2⟩] at h'
    exact h₂ bs rest ⟨response, h⟩ ⟨response', h'⟩

end Stages

theorem handleExtract_length {request response : List UInt8} (h : handleExtract false request = .ok response) :
    4 ≤ request.length := by
  rw [handleExtract] at h
  split at h
  · cases h
  · rename_i hhead
    simp only [extractRequestHeaderLen] at hhead
    omega

theorem handlePIITurn_length {request response : List UInt8} (h : handlePIITurn false request = .ok response) :
    4 ≤ request.length := by
  rw [handlePIITurn] at h
  split at h
  · cases h
  · rename_i hhead
    simp only [piiRequestHeaderLen] at hhead
    omega

/-- The magic of what the encoders write. -/
theorem magic_of_encode {request : List UInt8} :
    (∀ s cap, ModuleApi.scanRequestEncode s cap = some request →
      request.length ≥ 4 ∧ field request 0 4 = scanRequestMagic) ∧
    (∀ s max cap, ModuleApi.extractRequestEncode s max cap = some request → field request 0 4 ≠ scanRequestMagic) ∧
    (∀ labels cap, ModuleApi.sensRequestEncode labels cap = some request →
      request.length ≥ 4 ∧ field request 0 4 = sensRequestMagic) ∧
    (∀ s cap, ModuleApi.piiRequestEncode s cap = some request → field request 0 4 ≠ sensRequestMagic) := by
  refine ⟨fun s cap h => ?_, fun s max cap h => ?_, fun labels cap h => ?_, fun s cap h => ?_⟩
  · rw [ModuleApi.scanRequestEncode] at h
    split at h
    · cases h
    · cases h
      simp [ModuleApi.SCAN_REQUEST_MAGIC, scanRequestMagic]
  · rw [ModuleApi.extractRequestEncode] at h
    split at h
    · cases h
    · cases h
      simp [ModuleApi.EXTRACT_REQUEST_MAGIC, scanRequestMagic]
  · rw [ModuleApi.sensRequestEncode] at h
    split at h
    · cases h
    · cases h
      simp [ModuleApi.SENS_REQUEST_MAGIC, sensRequestMagic]
  · rw [ModuleApi.piiRequestEncode] at h
    split at h
    · cases h
    · cases h
      simp [ModuleApi.PII_REQUEST_MAGIC, sensRequestMagic]

/-- **The wire agrees**: on each stage of the module, whatever the two other stages do, every
request that an encoder writes is answered, an OK decodes to what was computed, and neither
way is a message accepted that is cut or lengthened. A batch of labels is answered whole. -/
theorem moduleWire_agrees (handleEmbed handleDeclareCommands : Bool → List UInt8 → Answer) :
    let stage := handle handleEmbed handleDeclareCommands
    StageAgrees (fun (x : CString × UInt32) => ModuleApi.extractRequestEncode x.1 x.2) (stage StageExtractIndex)
        (fun x => ModuleApi.extractResponseDecode x.2) (fun x => extractPatterns x.1.1 x.2.toNat) ∧
      StageAgrees ModuleApi.scanRequestEncode (stage StageExtractIndex)
        (fun _ => ModuleApi.scanResponseDecode ModuleApi.SCAN_ATTR_MAX)
        (fun s => (isRetraction s.1, (possessiveAttr s.1).2, (possessiveAttr s.1).1)) ∧
      StageAgrees (fun (x : UInt32 × CString × UInt32) => ModuleApi.gateRequestEncode x.1 x.2.1 x.2.2)
        (stage StageWrite) (fun _ => ModuleApi.gateResponseDecode) (fun x => (gateCheck x.1 x.2.1.1 x.2.2).code) ∧
      StageAgrees ModuleApi.sensRequestEncode (stage StageRetrieve)
        (fun labels => ModuleApi.sensResponseDecode labels.length) (fun labels => labels.map tierOf) ∧
      StageAgrees ModuleApi.piiRequestEncode (stage StageRetrieve) (fun _ => ModuleApi.piiResponseDecode)
        (fun s => turnRequestsSensitive s.1) ∧
      StageAgrees ModuleApi.requestEncode (stage StageRerank) (fun _ => ModuleApi.responseDecode) confidenceOf ∧
      ∀ request response, stage StageRetrieve false request = .ok response →
        field request 0 4 = sensRequestMagic → response.length = 8 + field request 8 4 := by
  intro stage
  have hindex (cancelled : Bool) (request : List UInt8) : stage StageExtractIndex cancelled request =
      if request.length ≥ 4 ∧ field request 0 4 = scanRequestMagic then handleScanTurn cancelled request
      else handleExtract cancelled request := rfl
  have hretrieve (cancelled : Bool) (request : List UInt8) : stage StageRetrieve cancelled request =
      if request.length ≥ 4 ∧ field request 0 4 = sensRequestMagic then handleSensitivity cancelled request
      else handlePIITurn cancelled request := rfl
  have hindexFree := prefixFree_of_magic scanRequestMagic scan_agrees.requests extract_agrees.requests
    fun _ _ => handleExtract_length
  have hretrieveFree := prefixFree_of_magic sensRequestMagic sens_agrees.requests pii_agrees.requests
    fun _ _ => handlePIITurn_length
  refine ⟨extract_agrees.of_handler ?_ hindexFree, scan_agrees.of_handler ?_ hindexFree, gate_agrees,
    sens_agrees.of_handler ?_ hretrieveFree, pii_agrees.of_handler ?_ hretrieveFree, rerank_agrees, ?_⟩
  · intro x cap request cancelled h
    rw [hindex, if_neg fun hm => magic_of_encode.2.1 _ _ _ h hm.2]
  · intro s cap request cancelled h
    rw [hindex, if_pos (magic_of_encode.1 _ _ h)]
  · intro labels cap request cancelled h
    rw [hretrieve, if_pos (magic_of_encode.2.2.1 _ _ h)]
  · intro s cap request cancelled h
    rw [hretrieve, if_neg fun hm => magic_of_encode.2.2.2 _ _ h hm.2]
  · intro request response h hmagic
    rw [hretrieve] at h
    split at h
    · exact (handleSensitivity_ok h).2.1
    · rename_i hno
      have := handlePIITurn_length h
      exact absurd ⟨this, hmagic⟩ hno

end AimeeMemory.Module
