import AimeeMemory.Core.Store
import Mathlib.Algebra.Order.Field.Rat
import Mathlib.Data.List.DropRight
import Mathlib.Data.List.Infix

/-!
# The write gate and the text tests of an insert

`memory_core_crud.c`: `memory_gate_check`, the semantic-value and numeric-key tests, and
from `memory_core_helpers.c` the evidence and salience a row starts with. What the
platform decides about a text (secrets, ephemeral content, the content scan) and the
similarity measures are the fields of `Platform`; nothing is assumed of them.
-/

namespace AimeeMemory.Core

/-- What the sensitivity gate finds in a content. -/
inductive SensitiveCheck where
  | clean
  | redacted (content : Text)
  | sensitive
  deriving DecidableEq, Repr

/-- The text predicates and settings that the module gets from its platform. -/
structure Platform where
  gateCheckSensitive : Text → SensitiveCheck
  gateCheckEphemeral : Text → Bool
  gateHasEvidenceMarkers : Text → Bool
  /-- The label of a content, or `none` for one that is blocked. -/
  memoryScanContent : Text → Option Label
  isNoiseUtterance : Text → Bool
  normalizeKey : Text → Text
  trigramSimilarity : Text → Text → ℚ
  isContradiction : Text → Text → Bool
  memoryTemporalValueConflict : Text → Text → Bool
  /-- `memory_content_surprise`, from the earlier rows of the session. -/
  memoryContentSurprise : Store → Text → Text → ℚ
  dedupThreshold : ℚ
  memorySkipPersistentSideEffects : Bool
  nowUtc : Text

/-- Why the gate decided as it did. -/
inductive GateReason where
  | emptyContent (tier : Tier)
  | secretOrPii
  | redacted
  | ephemeral
  | contradictsL2 (confidence : ℚ)
  | confidenceCapped
  deriving DecidableEq, Repr

inductive GateResult where
  | accept
  | reject
  | downgrade
  | redact (content : Text)
  deriving DecidableEq, Repr

structure GateVerdict where
  result : GateResult
  reason : Option GateReason := none
  deriving DecidableEq, Repr

/-- `memory_gate_check`. -/
def memoryGateCheck (pf : Platform) (db : Db2) (s : Store) (tier : Tier) (key content : Text)
    (confidence : ℚ) : GateVerdict :=
  if content = [] ∧ tier ≠ .L0 then ⟨.reject, some (.emptyContent tier)⟩
  else if content = [] then ⟨.accept, none⟩
  else
    match pf.gateCheckSensitive content with
    | .sensitive => ⟨.reject, some .secretOrPii⟩
    | .redacted redactedContent => ⟨.redact redactedContent, some .redacted⟩
    | .clean =>
      if tier ≠ .L0 ∧ pf.gateCheckEphemeral content then ⟨.downgrade, some .ephemeral⟩
      else
        let existing := db.memoryFindConflictingL2 s key content
        if existing.any (confidence ≤ ·) ∧ tier = .L2 then
          ⟨.downgrade, existing.map .contradictsL2⟩
        else if tier ≠ .L0 ∧ confidence > 9 / 10 ∧ !pf.gateHasEvidenceMarkers content then
          ⟨.accept, some .confidenceCapped⟩
        else ⟨.accept, none⟩

/-! ### Text tests -/

def isdigit (c : UInt8) : Bool := 48 ≤ c ∧ c ≤ 57
def isupper (c : UInt8) : Bool := 65 ≤ c ∧ c ≤ 90
def islower (c : UInt8) : Bool := 97 ≤ c ∧ c ≤ 122
def isalnum (c : UInt8) : Bool := isdigit c || isupper c || islower c
def isspace (c : UInt8) : Bool := c = 32 || (9 ≤ c && c ≤ 13)
def tolower (c : UInt8) : UInt8 := if isupper c then c + 32 else c

theorem tolower_tolower (c : UInt8) : tolower (tolower c) = tolower c := by
  simp only [tolower, isupper]
  grind

/-- `memory_is_semantic_profile_key`: the raw key has a colon. -/
def memoryIsSemanticProfileKey (key : Text) : Bool := key.contains 58

/-- The loop of `memory_normalize_semantic_value`, over a buffer of 1024 bytes. -/
def normalizeSemanticLoop : Text → Text → Bool → Text
  | [], out, _ => out
  | c :: cs, out, lastSpace =>
    if out.length + 1 ≥ 1024 then out
    else if isalnum c then normalizeSemanticLoop cs (out ++ [tolower c]) false
    else if !lastSpace then normalizeSemanticLoop cs (out ++ [32]) true
    else normalizeSemanticLoop cs out true

/-- `memory_normalize_semantic_value`. -/
def memoryNormalizeSemanticValue (raw : Text) : Text :=
  (normalizeSemanticLoop raw [] true).rdropWhile (· == 32)

/-- `memory_semantic_value_equivalent`. -/
def memorySemanticValueEquivalent (pf : Platform) (a b : Text) : Bool :=
  let normA := memoryNormalizeSemanticValue a
  let normB := memoryNormalizeSemanticValue b
  if normA = [] ∨ normB = [] then false
  else normA = normB ∨ pf.trigramSimilarity normA normB ≥ 92 / 100

/-- Room for one more byte in the signature buffer of 128 bytes. -/
def signaturePush (out : Text) (c : UInt8) : Text := if out.length + 1 < 128 then out ++ [c] else out

/-- The loop of `memory_numeric_key_signature`: the runs of digits and their number. -/
def numericSignatureLoop : Text → Text → ℕ → Bool → Text × ℕ
  | [], out, tokens, _ => (out, tokens)
  | c :: cs, out, tokens, inToken =>
    if isdigit c then
      let start := if !inToken ∧ tokens > 0 then signaturePush out 44 else out
      numericSignatureLoop cs (signaturePush start c) (if inToken then tokens else tokens + 1) true
    else numericSignatureLoop cs out tokens false

/-- `memory_numeric_key_signature`. -/
def memoryNumericKeySignature (key : Text) : Text × ℕ := numericSignatureLoop key [] 0 false

/-- `memory_keys_have_different_numeric_tokens`. -/
def memoryKeysHaveDifferentNumericTokens (a b : Text) : Bool :=
  let sigA := memoryNumericKeySignature a
  let sigB := memoryNumericKeySignature b
  sigA.2 ≠ sigB.2 ∨ (sigA.2 > 0 ∧ sigA.1 ≠ sigB.1)

/-- The substrings that `memory_base_evidence_strength` takes for a date. -/
def dateMarkers : List String :=
  ["202", "201", "Jan", "Feb", "Mar", "Apr", "May", "Jun", "Jul", "Aug", "Sep", "Oct", "Nov", "Dec"]

/-- `memory_base_evidence_strength`. -/
def memoryBaseEvidenceStrength (pf : Platform) (key content : Text) (confidence : ℚ) : ℚ :=
  let score := 35 / 100 + confidence * (45 / 100)
  let score := if key ≠ [] then score + 5 / 100 else score
  let score := if content ≠ [] ∧ pf.gateHasEvidenceMarkers content then score + 15 / 100 else score
  let score := if dateMarkers.any fun m => text m <:+: content then score + 5 / 100 else score
  max (1 / 10) (min 1 score)

/-- `memory_content_salience`. -/
def memoryContentSalience (pf : Platform) (content : Text) : ℚ :=
  if content = [] then 1 / 2 else if pf.isNoiseUtterance content then 5 / 100 else 1 / 2

end AimeeMemory.Core
