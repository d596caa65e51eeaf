import AimeeMemory.Module.MemoryPattern

/-!
# The PII gate in two languages

`memory_pii_gate.c`, whose classification `pii.go` is a port of. Both decide for a relation
label how private it is, and for a turn whether it asks for what is private. The C side gets
the normal form of a label and the row of the ontology from functions that are not part of
the repository; they are parameters here.

## What is proved

* `ciContains_eq`: the two substring searches agree.
* `turnRequestsSensitive_eq`, `unknownRelSensitivity_eq`: so do the two scans for tokens.
* **`piiGate_agrees`**: with the normal form and the seed table of the Go side, both sides decide
  alike about every label and every turn.
-/

namespace AimeeMemory.Module

open AimeeMemory.Lib
open AimeeMemory.Core (Text text tolower)

namespace PiiGate

/-- The inner loop of `ci_contains`: how many bytes of the needle are found from `i` on. -/
def matched (hay needle : Text) (i : ℕ) : ℕ :=
  advance (fun k => tolower (byteAt hay (i + k)) = tolower (byteAt needle k)) needle.length 0

/-- `ci_contains`. -/
def ciContains (hay needle : Text) : Bool :=
  let hn := hay.length
  let nn := needle.length
  if nn = 0 then true
  else if nn > hn then false
  else (firstIndex (fun i => matched hay needle i = nn) (hn + 1 - nn) 0).isSome

/-- `memory_pii_turn_classifier_fn`: `none` where it fails to answer. -/
abbrev TurnClassifier := CString → Option Bool

def cues : List Text :=
  [text "address", text "phone", text "email", text "birthday", text "birth date", text "date of birth", text "born on",
   text "password", text "passphrase", text "credential", text "secret", text "api key", text "ssn",
   text "social security", text "where do i live", text "where i live", text "my number", text "home ip",
   text "ip address"]

/-- `memory_pii_turn_requests_sensitive`, with what is registered. No text is `NULL`. -/
def turnRequestsSensitive (classifier : Option TurnClassifier) (turnText : Option CString) : Bool :=
  match turnText with
  | none => false
  | some turnText =>
    if byteAt turnText.1 0 = 0 then false
    else
      match classifier with
      -- no answer: fail closed, withhold rather than leak
      | some classifier => (classifier turnText).getD false
      | none => cues.any (ciContains turnText.1 ·)

def secretTokens : List Text :=
  [text "password", text "passwd", text "passphrase", text "secret", text "api_key", text "apikey", text "access_key",
   text "private_key", text "privkey", text "ssh_key", text "token", text "credential"]

def piiTokens : List Text :=
  [text "ssn", text "social_security", text "passport", text "credit_card", text "creditcard", text "card_number",
   text "cvv", text "bank_account", text "account_number", text "routing_number", text "tax_id", text "national_id",
   text "drivers_license", text "license_number", text "phone", text "email", text "date_of_birth", text "birthdate",
   text "dob", text "home_address", text "street_address"]

/-- `pii_unknown_rel_sensitivity`. -/
def unknownRelSensitivity (norm : Text) : RelSensitivity :=
  if secretTokens.any (ciContains norm ·) then .secret
  else if piiTokens.any (ciContains norm ·) then .pii
  else .normal

/-- What the C side takes from `rel_types.h`. -/
structure RelTypes where
  /-- `rel_type_normalize`: what it writes. -/
  normalize : Text → Text
  /-- `rel_types_seed_lookup`. -/
  seedLookup : Text → Option RelTypeDef

/-- `memory_pii_rel_sensitivity`. No label is `NULL`. -/
def relSensitivity (types : RelTypes) (relType : Option CString) : RelSensitivity :=
  match relType with
  | none => .normal
  | some relType =>
    if byteAt relType.1 0 = 0 then .normal
    else
      let norm := types.normalize relType.1
      match if byteAt norm 0 ≠ 0 then types.seedLookup norm else none with
      | some row => row.sensitivity
      | none => unknownRelSensitivity (if byteAt norm 0 ≠ 0 then norm else relType.1)

end PiiGate

/-- The C functions outside the repository do what their Go counterparts do. -/
structure PiiGate.RelTypes.AgreesWithGo (types : PiiGate.RelTypes) : Prop where
  normalize : ∀ label, types.normalize label = normalizeRelType label
  seedLookup : ∀ norm, types.seedLookup norm = Module.seedLookup norm

/-! ## The searches -/

/-- The needle stands at an index exactly where each of its bytes does. -/
theorem ciStartsAt_iff_bytes {hay needle : Text} {i : ℕ} (h : i + needle.length ≤ hay.length) :
    ciStartsAt hay i needle = true ↔ ∀ k < needle.length, toLower (byteAt hay (i + k)) = toLower (byteAt needle k) := by
  induction needle generalizing i with
  | nil => simp [ciStartsAt]
  | cons c needle ih =>
    rw [List.length_cons] at h
    have hhead : byteAt (c :: needle) 0 = c := rfl
    have htail : ∀ k, byteAt (c :: needle) (k + 1) = byteAt needle k := fun _ => rfl
    rw [ciStartsAt]
    split_ifs with hmiss
    · simp only [false_iff, not_forall]
      refine ⟨0, by simp, ?_⟩
      rw [Nat.add_zero, hhead]
      exact hmiss.resolve_left (by omega)
    · simp only [ge_iff_le, ne_eq, not_or, not_not] at hmiss
      rw [ih (by omega), List.length_cons]
      constructor
      · intro hrest k hk
        cases k with
        | zero => exact hmiss.2
        | succ k =>
          rw [htail, show i + (k + 1) = i + 1 + k by omega]
          exact hrest k (by omega)
      · intro hall k hk
        have hnext := hall (k + 1) (by omega)
        rwa [htail, show i + (k + 1) = i + 1 + k by omega] at hnext

/-- The inner loop runs to the end of the needle exactly where the needle stands. -/
theorem matched_eq_length {hay needle : Text} {i : ℕ} (h : i + needle.length ≤ hay.length) :
    decide (PiiGate.matched hay needle i = needle.length) = ciStartsAt hay i needle := by
  rw [Bool.eq_iff_iff, decide_eq_true_iff, ciStartsAt_iff_bytes h, PiiGate.matched, tolower_eq]
  constructor
  · intro hend k hk
    have hpassed := advance_passed (Nat.zero_le k) (hend ▸ hk)
    simpa using hpassed
  · intro hall
    have hend := advance_of_forall (n := needle.length) (i := 0)
      (p := fun k => decide (toLower (byteAt hay (i + k)) = toLower (byteAt needle k)))
      fun k _ hk => by simpa using hall k (by omega)
    rwa [Nat.zero_add] at hend

/-- **The two searches agree.** -/
theorem ciContains_eq (hay needle : Text) : PiiGate.ciContains hay needle = ciContains hay needle := by
  simp only [PiiGate.ciContains, ciContains]
  split_ifs with _ hlong
  · rfl
  · rfl
  · rw [firstIndex_congr]
    intro i _ hi
    exact matched_eq_length (by omega)

/-! ## The tokens -/

theorem unknownRelSensitivity_eq (norm : Text) : PiiGate.unknownRelSensitivity norm = unknownRelSensitivity norm := by
  have hsecret : PiiGate.secretTokens = secretTokens := rfl
  have hpii : PiiGate.piiTokens = piiTokens := rfl
  simp only [PiiGate.unknownRelSensitivity, unknownRelSensitivity, hsecret, hpii, ciContains_eq]

theorem byteAt_zero_eq_zero {s : Text} (hnul : 0 ∉ s) : byteAt s 0 = 0 ↔ s = [] := by
  rw [byteAt_eq_zero hnul, Nat.le_zero, List.length_eq_zero_iff]

theorem turnRequestsSensitive_eq (turnText : CString) :
    PiiGate.turnRequestsSensitive none (some turnText) = turnRequestsSensitive turnText.1 := by
  have hcues : PiiGate.cues = sensitiveTurnCues := rfl
  simp only [PiiGate.turnRequestsSensitive, turnRequestsSensitive, hcues, ciContains_eq, byteAt_zero_eq_zero turnText.2]
  split_ifs with hempty
  · simp [hempty]
  · rw [Bool.eq_iff_iff]
    simp [hempty]

theorem zero_notMem_normalizeRelType (label : Text) : 0 ∉ normalizeRelType label :=
  zero_notMem_of_joined (normalizeRelType_joined label)

theorem relSensitivity_eq {types : PiiGate.RelTypes} (h : types.AgreesWithGo) (relType : CString) :
    PiiGate.relSensitivity types (some relType) = relSensitivityOf relType.1 := by
  simp only [PiiGate.relSensitivity, relSensitivityOf, h.normalize, h.seedLookup, unknownRelSensitivity_eq,
    byteAt_zero_eq_zero relType.2, byteAt_zero_eq_zero (zero_notMem_normalizeRelType relType.1), ne_eq, ite_not]
  split_ifs with hempty hnorm
  · rfl
  · rfl
  · rfl

/-- **The two languages agree** about every label and every turn, where no classifier is registered. -/
theorem piiGate_agrees (types : PiiGate.RelTypes) (h : types.AgreesWithGo) (label turnText : CString) :
    PiiGate.relSensitivity types (some label) = relSensitivityOf label.1 ∧
      PiiGate.turnRequestsSensitive none (some turnText) = turnRequestsSensitive turnText.1 :=
  ⟨relSensitivity_eq h label, turnRequestsSensitive_eq turnText⟩

/-- A label that the ontology does not know, and a turn that asks in capitals. -/
theorem routerPassword_agrees :
    PiiGate.relSensitivity ⟨normalizeRelType, seedLookup⟩ (some ⟨text "My RouterPassword", by decide⟩) =
        relSensitivityOf (text "My RouterPassword") ∧
      PiiGate.turnRequestsSensitive none (some ⟨text "WHERE I LIVE", by decide⟩) =
        turnRequestsSensitive (text "WHERE I LIVE") :=
  piiGate_agrees _ ⟨fun _ => rfl, fun _ => rfl⟩ _ _

end AimeeMemory.Module
