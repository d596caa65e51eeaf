import AimeeMemory.Core.Store
import AimeeMemory.Lib.Scan
import Mathlib.Data.List.Infix

/-!
# Relation labels and their sensitivity

`ontology.go` and `pii.go`: the normal form of a relation label, the seed ontology, the
write gate over it, and the tier that decides whether a fact may reach a prompt.

## What is proved

* **`normalizeRelType_eq`**: a normal form is the first 63 bytes of the label's words, joined
  by underscores, less a last underscore.
* **`normalizeRelType_idem`**: normal forms are kept.
* **`relSensitivityOf_secret_iff`**: a label is a secret exactly where those 63 bytes contain a
  secret token.
* **`neverUnder_iff`**: what is left of "a label that names a secret is a secret".
-/

namespace AimeeMemory.Module

open AimeeMemory.Lib
open AimeeMemory.Core (Text text)

def isUpper (c : UInt8) : Bool := 65 ≤ c ∧ c ≤ 90
def isLower (c : UInt8) : Bool := 97 ≤ c ∧ c ≤ 122
def isDigit (c : UInt8) : Bool := 48 ≤ c ∧ c ≤ 57
def isAlnum (c : UInt8) : Bool := isUpper c || isLower c || isDigit c
def toLower (c : UInt8) : UInt8 := if isUpper c then c + 32 else c

/-- `'_'`. -/
def underscore : UInt8 := 95

/-- The byte at an index; the zero byte behind the end. -/
def byteAt (s : Text) (i : ℕ) : UInt8 := s.getD i 0

/-- `ciStartsAt`: whether the needle sits at `pos`, whatever the case. -/
def ciStartsAt (haystack : Text) (pos : ℕ) : Text → Bool
  | [] => true
  | c :: needle =>
    if pos ≥ haystack.length ∨ toLower (byteAt haystack pos) ≠ toLower c then false
    else ciStartsAt haystack (pos + 1) needle

/-- `ciContains`. -/
def ciContains (haystack needle : Text) : Bool :=
  if needle.length = 0 then true
  else if needle.length > haystack.length then false
  else (firstIndex (ciStartsAt haystack · needle) (haystack.length + 1 - needle.length) 0).isSome

/-! ## The normal form of a label -/

/-- `relTypeNameMax`. -/
def relTypeNameMax : ℕ := 64

/-- The loop of `normalizeRelType`. -/
def normalizeLoop : Text → Text → Bool → Bool → Text
  | [], out, _, _ => out
  | c :: cs, out, prevUnderscore, prevLowerOrDigit =>
    if out.length ≥ relTypeNameMax - 1 then out
    else if isAlnum c then
      -- a capital after a lower-case letter or a digit begins a word
      let out := if isUpper c ∧ prevLowerOrDigit ∧ !prevUnderscore ∧ out.length < relTypeNameMax - 1
        then out ++ [underscore] else out
      let out := if out.length < relTypeNameMax - 1 then out ++ [toLower c] else out
      normalizeLoop cs out false (isLower c || isDigit c)
    else if !prevUnderscore ∧ out.length < relTypeNameMax - 1 then
      normalizeLoop cs (out ++ [underscore]) true false
    else normalizeLoop cs out prevUnderscore false

/-- `strings.TrimSuffix(s, "_")`. -/
def trimUnderscore (s : Text) : Text := if s.getLast? = some underscore then s.dropLast else s

/-- `normalizeRelType`. -/
def normalizeRelType (label : Text) : Text := trimUnderscore (normalizeLoop label [] true false)

/-! ## The seed ontology -/

/-- `NodeKind`: an entity kind, by its persisted number. -/
abbrev NodeKind := UInt32

def NodePerson : NodeKind := 10
def NodePlace : NodeKind := 11
def NodeDevice : NodeKind := 13
def NodeOrg : NodeKind := 14
def NodeIp : NodeKind := 15
def NodeScalar : NodeKind := 16

/-- The wildcard of a kind list. -/
def NodeOther : NodeKind := 99

/-- `RelSensitivity`. -/
inductive RelSensitivity where
  | normal
  | pii
  | secret
  deriving DecidableEq, Repr

/-- The number of a tier. -/
def RelSensitivity.tier : RelSensitivity → ℕ
  | .normal => 0
  | .pii => 1
  | .secret => 2

/-- `relTypeDef`: a row of the seed table. -/
structure RelTypeDef where
  relType : Text
  headKinds : List NodeKind
  tailKinds : List NodeKind
  sensitivity : RelSensitivity

def seedOntology : List RelTypeDef :=
  [⟨text "works_for", [NodePerson], [NodeOrg], .normal⟩,
   ⟨text "member_of", [NodePerson], [NodeOrg], .normal⟩,
   ⟨text "has_role", [NodePerson], [NodeScalar], .normal⟩,
   ⟨text "spouse", [NodePerson], [NodePerson], .pii⟩,
   ⟨text "knows", [NodePerson], [NodePerson], .pii⟩,
   ⟨text "parent_of", [NodePerson], [NodePerson], .pii⟩,
   ⟨text "child_of", [NodePerson], [NodePerson], .pii⟩,
   ⟨text "lives_in", [NodePerson], [NodePlace], .pii⟩,
   ⟨text "born_in", [NodePerson], [NodePlace], .pii⟩,
   ⟨text "located_in", [NodeOther], [NodePlace], .normal⟩,
   ⟨text "device_has_ip", [NodeDevice], [NodeIp], .normal⟩,
   ⟨text "has_hostname", [NodeDevice], [NodeScalar], .normal⟩,
   ⟨text "age", [NodePerson], [NodeScalar], .pii⟩,
   ⟨text "also_known_as", [NodePerson], [NodeOther], .normal⟩,
   ⟨text "supersedes", [NodeOther], [NodeOther], .normal⟩,
   ⟨text "linked_policy", [NodeOther], [NodeOther], .normal⟩,
   ⟨text "decided_by", [NodeOther], [NodePerson], .normal⟩]

/-- `seedLookup`. -/
def seedLookup (relType : Text) : Option RelTypeDef :=
  if relType = [] then none
  else seedOntology.find? (·.relType = normalizeRelType relType)

/-- `FactVerdict`: what the gate returns. -/
inductive FactVerdict where
  | accept
  | rejectKind
  | novel
  | badArg
  deriving DecidableEq, Repr

/-- The number of a verdict. -/
def FactVerdict.code : FactVerdict → ℕ
  | .accept => 0
  | .rejectKind => 1
  | .novel => 2
  | .badArg => 3

/-- `kindAllowed`. -/
def kindAllowed (kinds : List NodeKind) (kind : NodeKind) : Bool :=
  kinds.any fun allowed => allowed = NodeOther ∨ allowed = kind

/-- `GateCheck`. -/
def gateCheck (headKind : NodeKind) (relType : Text) (tailKind : NodeKind) : FactVerdict :=
  if relType = [] then .badArg
  else
    match seedLookup relType with
    | none => .novel
    | some row =>
      if !kindAllowed row.headKinds headKind ∨ !kindAllowed row.tailKinds tailKind then .rejectKind
      else .accept

/-! ## The tier of a label -/

def secretTokens : List Text :=
  [text "password", text "passwd", text "passphrase", text "secret", text "api_key", text "apikey",
   text "access_key", text "private_key", text "privkey", text "ssh_key", text "token", text "credential"]

def piiTokens : List Text :=
  [text "ssn", text "social_security", text "passport", text "credit_card", text "creditcard",
   text "card_number", text "cvv", text "bank_account", text "account_number", text "routing_number",
   text "tax_id", text "national_id", text "drivers_license", text "license_number", text "phone",
   text "email", text "date_of_birth", text "birthdate", text "dob", text "home_address",
   text "street_address"]

/-- `unknownRelSensitivity`. -/
def unknownRelSensitivity (normalized : Text) : RelSensitivity :=
  if secretTokens.any (ciContains normalized ·) then .secret
  else if piiTokens.any (ciContains normalized ·) then .pii
  else .normal

/-- `RelSensitivityOf`. -/
def relSensitivityOf (relType : Text) : RelSensitivity :=
  if relType = [] then .normal
  else
    let normalized := normalizeRelType relType
    if normalized ≠ [] then
      match seedLookup normalized with
      | some row => row.sensitivity
      | none => unknownRelSensitivity normalized
    else unknownRelSensitivity relType

/-- `sensitiveTurnCues`. -/
def sensitiveTurnCues : List Text :=
  [text "address", text "phone", text "email", text "birthday", text "birth date", text "date of birth",
   text "born on", text "password", text "passphrase", text "credential", text "secret", text "api key",
   text "ssn", text "social security", text "where do i live", text "where i live", text "my number",
   text "home ip", text "ip address"]

/-- `TurnRequestsSensitive`. -/
def turnRequestsSensitive (turnText : Text) : Bool :=
  turnText ≠ [] ∧ sensitiveTurnCues.any (ciContains turnText ·)

/-! ## Labels without the cut -/

/-- The words of a label, lower-cased and joined by underscores. -/
def flatten : Bool → Text → Text
  | _, [] => []
  | afterUnderscore, c :: cs =>
    if isAlnum c then toLower c :: flatten false cs
    else if afterUnderscore then flatten true cs
    else underscore :: flatten true cs

/-- The words of a label, where a capital after a lower-case letter or a digit also begins a
word, lower-cased and joined by underscores. -/
def spell : Bool → Bool → Text → Text
  | _, _, [] => []
  | afterUnderscore, afterLower, c :: cs =>
    if isAlnum c then
      if isUpper c ∧ afterLower ∧ !afterUnderscore then
        underscore :: toLower c :: spell false (isLower c || isDigit c) cs
      else toLower c :: spell false (isLower c || isDigit c) cs
    else if afterUnderscore then spell true false cs
    else underscore :: spell true false cs

/-- The label names a secret: its words, joined by underscores, contain a secret token. -/
def NamesSecret (words : Text) : Prop := ∃ token ∈ secretTokens, token <:+: words

instance (words : Text) : Decidable (NamesSecret words) := by
  unfold NamesSecret
  infer_instance

/-- **A secret is never under-classified**: where the lower-cased words of the label contain a
secret token, the tier of the label is that of secrets. -/
def NeverUnder (label : Text) : Prop :=
  NamesSecret (flatten true label) → RelSensitivity.secret.tier ≤ (relSensitivityOf label).tier

instance (label : Text) : Decidable (NeverUnder label) := by
  unfold NeverUnder
  infer_instance

/-! ## Bytes -/

theorem isAlnum_toLower {c : UInt8} (h : isAlnum c) :
    isAlnum (toLower c) ∧ isUpper (toLower c) = false ∧ toLower c ≠ underscore := by
  simp only [isAlnum, isUpper, isLower, isDigit, toLower, underscore] at *
  grind

theorem toLower_eq_self {c : UInt8} (h : isUpper c = false) : toLower c = c := by
  simp [toLower, h]

theorem isAlnum_underscore : isAlnum underscore = false := by decide

/-! ## The loop writes the words -/

theorem normalizeLoop_eq (cs out : Text) (pu pl : Bool) (hout : out.length ≤ relTypeNameMax - 1) :
    normalizeLoop cs out pu pl = (out ++ spell pu pl cs).take (relTypeNameMax - 1) := by
  have hmax : relTypeNameMax = 64 := rfl
  induction cs generalizing out pu pl with
  | nil => simp [normalizeLoop, spell, List.take_of_length_le hout]
  | cons c cs ih =>
    rw [normalizeLoop]
    split
    · -- the buffer is full
      rename_i hfull
      have hlen : out.length = relTypeNameMax - 1 := by omega
      rw [← hlen, List.take_left]
    rename_i hroom
    by_cases hc : isAlnum c
    · rw [if_pos hc, spell, if_pos hc]
      by_cases hcap : isUpper c ∧ pl ∧ !pu
      · rw [if_pos ⟨hcap.1, hcap.2.1, hcap.2.2, by omega⟩, if_pos hcap]
        simp only
        split
        · rename_i hlast
          have hlen : (out ++ [underscore] ++ [toLower c]).length ≤ relTypeNameMax - 1 := by
            simp only [List.length_append, List.length_singleton] at *
            omega
          rw [ih _ _ _ hlen]
          simp
        · -- the underscore took the last byte
          rename_i hlast
          have hlen : (out ++ [underscore]).length = relTypeNameMax - 1 := by
            simp only [List.length_append, List.length_singleton] at *
            omega
          rw [ih _ _ _ (by omega), List.append_cons out underscore (toLower c :: _), ← hlen, List.take_left,
            List.take_left]
      · rw [if_neg (fun h => hcap ⟨h.1, h.2.1, h.2.2.1⟩), if_neg hcap]
        simp only
        rw [if_pos (by omega), ih _ _ _ (by simp; omega)]
        simp
    · rw [if_neg hc, spell, if_neg hc]
      cases pu with
      | false =>
        rw [if_pos ⟨rfl, by omega⟩, ih _ _ _ (by simp; omega)]
        simp
      | true => rw [if_neg (by simp), ih _ _ _ hout, if_pos rfl]

/-- **The normal form**: the first 63 bytes of the label's words, less a last underscore. -/
theorem normalizeRelType_eq (label : Text) :
    normalizeRelType label = trimUnderscore ((spell true false label).take (relTypeNameMax - 1)) := by
  rw [normalizeRelType, normalizeLoop_eq _ _ _ _ (by simp), List.nil_append]

/-! ## Normal forms are kept -/

/-- Words in lower case with one underscore between them; a first underscore only where
something comes before. -/
def Joined : Bool → Text → Prop
  | _, [] => True
  | afterUnderscore, c :: cs =>
    (c = underscore ∧ afterUnderscore = false ∧ Joined true cs) ∨
      (isAlnum c ∧ isUpper c = false ∧ Joined false cs)

theorem spell_joined (pu pl : Bool) (cs : Text) : Joined pu (spell pu pl cs) := by
  induction cs generalizing pu pl with
  | nil => trivial
  | cons c cs ih =>
    rw [spell]
    split
    · rename_i hc
      obtain ⟨halnum, hupper, -⟩ := isAlnum_toLower hc
      split
      · rename_i hcap
        exact .inl ⟨rfl, by simpa using hcap.2.2, .inr ⟨halnum, hupper, ih _ _⟩⟩
      · exact .inr ⟨halnum, hupper, ih _ _⟩
    · split
      · rename_i hpu
        rw [hpu]
        exact ih _ _
      · rename_i hpu
        exact .inl ⟨rfl, by simpa using hpu, ih _ _⟩

/-- Words are written with letters, digits and underscores. -/
theorem Joined.mem {pu : Bool} {s : Text} (h : Joined pu s) : ∀ c ∈ s, isAlnum c ∨ c = underscore := by
  induction s generalizing pu with
  | nil => simp
  | cons c s ih =>
    rcases h with ⟨rfl, -, hs⟩ | ⟨halnum, -, hs⟩
    · simpa using ih hs
    · simpa [halnum] using ih hs

theorem zero_notMem_of_joined {pu : Bool} {s : Text} (h : Joined pu s) : 0 ∉ s := by
  intro h0
  rcases h.mem 0 h0 with h | h
  · revert h
    decide
  · revert h
    decide

theorem Joined.of_append {pu : Bool} {xs ys : Text} (h : Joined pu (xs ++ ys)) : Joined pu xs := by
  induction xs generalizing pu with
  | nil => trivial
  | cons x xs ih =>
    rcases h with ⟨hx, hpu, hxs⟩ | ⟨hx, hupper, hxs⟩
    · exact .inl ⟨hx, hpu, ih hxs⟩
    · exact .inr ⟨hx, hupper, ih hxs⟩

theorem spell_of_joined {pu : Bool} {cs : Text} (h : Joined pu cs) (pl : Bool) : spell pu pl cs = cs := by
  induction cs generalizing pu pl with
  | nil => rfl
  | cons c cs ih =>
    rcases h with ⟨rfl, rfl, hcs⟩ | ⟨halnum, hupper, hcs⟩
    · rw [spell, if_neg (by decide), if_neg (by decide), ih hcs]
    · rw [spell, if_pos halnum, if_neg (by simp [hupper]), ih hcs, toLower_eq_self hupper]

theorem trimUnderscore_append (s : Text) : ∃ rest, s = trimUnderscore s ++ rest ∧ (rest = [] ∨ rest = [underscore]) := by
  rw [trimUnderscore]
  split
  · rename_i hlast
    obtain ⟨init, rfl⟩ := List.getLast?_eq_some_iff.1 hlast
    exact ⟨[underscore], by simp, .inr rfl⟩
  · exact ⟨[], by simp, .inl rfl⟩

theorem normalizeRelType_joined (label : Text) : Joined true (normalizeRelType label) := by
  rw [normalizeRelType_eq]
  obtain ⟨rest, hrest, -⟩ := trimUnderscore_append ((spell true false label).take (relTypeNameMax - 1))
  have hjoined := spell_joined true false label
  rw [← List.take_append_drop (relTypeNameMax - 1) (spell true false label), hrest] at hjoined
  exact hjoined.of_append.of_append

theorem length_normalizeRelType (label : Text) : (normalizeRelType label).length ≤ relTypeNameMax - 1 := by
  rw [normalizeRelType_eq]
  obtain ⟨rest, hrest, -⟩ := trimUnderscore_append ((spell true false label).take (relTypeNameMax - 1))
  have hlen := congrArg List.length hrest
  simp only [List.length_append, List.length_take] at hlen
  omega

theorem not_joined_twice (pu : Bool) (xs : Text) : ¬ Joined pu (xs ++ [underscore] ++ [underscore]) := by
  induction xs generalizing pu with
  | nil =>
    rintro (⟨-, -, ⟨-, h, -⟩ | ⟨h, -, -⟩⟩ | ⟨h, -, -⟩)
    · cases h
    · simp [isAlnum_underscore] at h
    · simp [isAlnum_underscore] at h
  | cons x xs ih =>
    rintro (⟨-, -, h⟩ | ⟨-, -, h⟩)
    · exact ih _ h
    · exact ih _ h

/-- The words of a label never end in two underscores, so that one is all there is to trim. -/
theorem trimUnderscore_idem {pu : Bool} {s : Text} (h : Joined pu s) :
    trimUnderscore (trimUnderscore s) = trimUnderscore s := by
  rcases trimUnderscore_append s with ⟨rest, hs, rfl | rfl⟩
  · rw [List.append_nil] at hs
    rw [← hs, ← hs]
  · have hlast : (trimUnderscore s).getLast? ≠ some underscore := by
      intro hlast
      obtain ⟨init, hinit⟩ := List.getLast?_eq_some_iff.1 hlast
      rw [hs, hinit] at h
      exact not_joined_twice _ _ h
    rw [trimUnderscore, if_neg hlast]

/-- **Normal forms are kept.** -/
theorem normalizeRelType_idem (label : Text) :
    normalizeRelType (normalizeRelType label) = normalizeRelType label := by
  rw [normalizeRelType_eq (normalizeRelType label), spell_of_joined (normalizeRelType_joined label),
    List.take_of_length_le (length_normalizeRelType label), normalizeRelType_eq]
  have hjoined := spell_joined true false label
  rw [← List.take_append_drop (relTypeNameMax - 1) (spell true false label)] at hjoined
  exact trimUnderscore_idem hjoined.of_append

/-! ## Tokens in words -/

theorem ciStartsAt_iff (haystack : Text) (pos : ℕ) (needle : Text) :
    ciStartsAt haystack pos needle = true ↔ needle.map toLower <+: (haystack.drop pos).map toLower := by
  induction needle generalizing pos with
  | nil => simp [ciStartsAt]
  | cons c needle ih =>
    rw [ciStartsAt]
    by_cases hpos : pos < haystack.length
    · rw [List.drop_eq_getElem_cons hpos, List.map_cons, List.map_cons, List.cons_prefix_cons, ← ih]
      have hbyte : byteAt haystack pos = haystack[pos] := by simp [byteAt, hpos]
      rw [hbyte]
      split
      · rename_i h
        simp only [Bool.false_eq_true, false_iff, not_and]
        grind
      · grind
    · rw [if_pos (.inl (by omega)), List.drop_eq_nil_of_le (by omega)]
      simp

/-- `ciContains` looks for the needle in lower case. -/
theorem ciContains_iff (haystack needle : Text) :
    ciContains haystack needle = true ↔ needle.map toLower <:+: haystack.map toLower := by
  rw [ciContains]
  split
  · rename_i hlen
    simp [List.length_eq_zero_iff.1 hlen]
  · split
    · rename_i hlen
      simp only [Bool.false_eq_true, false_iff]
      intro h
      have := h.length_le
      simp at this
      omega
    · rename_i hne hlen
      rw [firstIndex_isSome]
      constructor
      · rintro ⟨j, -, -, hj⟩
        rw [ciStartsAt_iff, List.map_drop] at hj
        exact hj.isInfix.trans (List.drop_suffix _ _).isInfix
      · rintro ⟨s, t, hst⟩
        have hlen' := congrArg List.length hst
        simp only [List.length_append, List.length_map] at hlen'
        refine ⟨s.length, by omega, by omega, ?_⟩
        rw [ciStartsAt_iff, List.map_drop, ← hst, List.append_assoc, List.drop_left]
        exact List.prefix_append _ _

theorem Joined.map_toLower {pu : Bool} {s : Text} (h : Joined pu s) : s.map toLower = s := by
  induction s generalizing pu with
  | nil => rfl
  | cons c s ih =>
    rcases h with ⟨rfl, -, hs⟩ | ⟨-, hupper, hs⟩
    · rw [List.map_cons, ih hs]
      rfl
    · rw [List.map_cons, ih hs, toLower_eq_self hupper]

/-- What a secret token is like: in lower case, with a letter at both ends. -/
theorem secretTokens_shape : ∀ token ∈ secretTokens, token.map toLower = token ∧
    token.getLast? ≠ some underscore ∧ 2 ≤ token.length ∧ (token.head?.map isAlnum) = some true := by
  decide

theorem seedOntology_no_secret : ∀ row ∈ seedOntology, row.sensitivity ≠ .secret := by
  simp [seedOntology]

theorem seedOntology_not_secret : ∀ row ∈ seedOntology, ¬ NamesSecret row.relType := by decide +kernel

theorem secretTokens_any {s : Text} (hs : s.map toLower = s) :
    secretTokens.any (ciContains s ·) = true ↔ NamesSecret s := by
  rw [List.any_eq_true]
  refine exists_congr fun token => and_congr_right fun htoken => ?_
  rw [ciContains_iff, (secretTokens_shape token htoken).1, hs]

/-- Trimming an underscore takes no token away. -/
theorem namesSecret_trimUnderscore (s : Text) : NamesSecret (trimUnderscore s) ↔ NamesSecret s := by
  rcases trimUnderscore_append s with ⟨rest, hs, hrest⟩
  refine exists_congr fun token => and_congr_right fun htoken => ⟨fun h => ?_, ?_⟩
  · rw [hs]
    exact h.trans (List.prefix_append _ _).isInfix
  · rintro ⟨before, after, h⟩
    rcases hrest with rfl | rfl
    · exact ⟨before, after, by rw [h, ← List.append_nil (trimUnderscore s), ← hs]⟩
    · rw [hs] at h
      rcases List.eq_nil_or_concat after with rfl | ⟨after', b, rfl⟩
      · -- the token would end in the underscore
        have hlast := congrArg List.getLast? h
        have htok := secretTokens_shape token htoken
        obtain ⟨init, b, rfl⟩ : ∃ init b, token = init ++ [b] := by
          rcases List.eq_nil_or_concat token with rfl | ⟨init, b, rfl⟩
          · simp at htok
          · exact ⟨init, b, by simp⟩
        simp only [List.append_nil, ← List.append_assoc, List.getLast?_concat] at hlast
        exact absurd (by simpa using hlast) htok.2.1
      · rw [List.concat_eq_append, ← List.append_assoc] at h
        exact ⟨before, after', (List.append_inj' h rfl).1⟩

theorem spell_eq_nil {pl : Bool} {cs : Text} (h : spell true pl cs = []) : ∀ c ∈ cs, isAlnum c = false := by
  induction cs generalizing pl with
  | nil => simp
  | cons c cs ih =>
    rw [spell] at h
    split at h
    · split at h <;> cases h
    · rename_i hc
      simp only [if_pos] at h
      simpa [hc] using ih h

/-- A label whose normal form is empty has no letter and no digit. -/
theorem normalizeRelType_eq_nil {label : Text} (h : normalizeRelType label = []) :
    ∀ c ∈ label, isAlnum c = false := by
  refine spell_eq_nil (?_ : spell true false label = [])
  rw [normalizeRelType_eq] at h
  have hjoined := spell_joined true false label
  cases hs : spell true false label with
  | nil => rfl
  | cons c cs =>
    rw [hs] at h hjoined
    rcases hjoined with ⟨-, hpu, -⟩ | ⟨halnum, -, -⟩
    · cases hpu
    · obtain ⟨rest, hrest, hrest'⟩ := trimUnderscore_append ((c :: cs).take (relTypeNameMax - 1))
      rw [h] at hrest
      rcases hrest' with rfl | rfl
      · simp [relTypeNameMax] at hrest
      · simp only [relTypeNameMax, List.take_succ_cons, List.nil_append, List.cons.injEq] at hrest
        rw [hrest.1, isAlnum_underscore] at halnum
        cases halnum

/-- Without a letter or a digit there is no token. -/
theorem secretTokens_any_eq_false {s : Text} (h : ∀ c ∈ s, isAlnum c = false) :
    secretTokens.any (ciContains s ·) = false := by
  rw [List.any_eq_false]
  intro token htoken hcontains
  rw [ciContains_iff, (secretTokens_shape token htoken).1] at hcontains
  obtain ⟨a, rest, rfl, ha⟩ : ∃ a rest, token = a :: rest ∧ isAlnum a := by
    have hhead := (secretTokens_shape token htoken).2.2.2
    cases token with
    | nil => simp at hhead
    | cons a rest => exact ⟨a, rest, rfl, by simpa using hhead⟩
  obtain ⟨c, hc, hca⟩ := List.mem_map.1 (hcontains.subset List.mem_cons_self)
  have hclear := h c hc
  have : toLower c = c := by
    simp only [isAlnum, Bool.or_eq_false_iff] at hclear
    exact toLower_eq_self hclear.1.1
  rw [← hca, this, hclear] at ha
  cases ha

theorem not_namesSecret_of_length {s : Text} (h : s.length ≤ 1) : ¬ NamesSecret s := by
  rintro ⟨token, htoken, hwithin⟩
  have := hwithin.length_le
  have := (secretTokens_shape token htoken).2.2.1
  omega

/-- **The tier of a label is that of secrets** exactly where the first 63 bytes of its words,
joined by underscores, contain a secret token. -/
theorem relSensitivityOf_secret_iff (label : Text) :
    relSensitivityOf label = .secret ↔
      NamesSecret ((spell true false label).take (relTypeNameMax - 1)) := by
  have hjoined := normalizeRelType_joined label
  rw [← namesSecret_trimUnderscore, ← normalizeRelType_eq]
  rw [relSensitivityOf]
  split
  · rename_i hlabel
    subst hlabel
    simp only [reduceCtorEq, false_iff]
    exact not_namesSecret_of_length (by decide)
  simp only
  split
  · rename_i hne
    split
    · -- a seed row: its name has no secret token, and it is the normal form
      rename_i row hrow
      rw [seedLookup, if_neg hne] at hrow
      have hmem := List.mem_of_find?_eq_some hrow
      have hname := List.find?_some hrow
      rw [normalizeRelType_idem, decide_eq_true_eq] at hname
      have hnot := seedOntology_not_secret row hmem
      rw [hname] at hnot
      simp [seedOntology_no_secret row hmem, hnot]
    · rw [unknownRelSensitivity, ← secretTokens_any hjoined.map_toLower]
      split
      · simp [*]
      · split <;> simp [*]
  · rename_i hnil
    rw [not_not] at hnil
    have hraw := secretTokens_any_eq_false (normalizeRelType_eq_nil hnil)
    rw [hnil, unknownRelSensitivity, hraw]
    simp only [Bool.false_eq_true, if_false, not_namesSecret_of_length (s := []) (by decide), iff_false]
    split <;> simp

/-- **What is left of the rule**: a label that names a secret is classified as one exactly
where it also does so within the first 63 bytes, with its capitals taken for word ends. -/
theorem neverUnder_iff (label : Text) :
    NeverUnder label ↔
      (NamesSecret (flatten true label) → NamesSecret ((spell true false label).take (relTypeNameMax - 1))) := by
  rw [NeverUnder, ← relSensitivityOf_secret_iff]
  cases relSensitivityOf label <;> simp [RelSensitivity.tier]

/-- `"passWord"` is read as two words, neither of which is a secret token. -/
theorem passWord_under : ¬ ∀ label : Text, label.length ≤ 256 → NeverUnder label := by
  intro h
  have := h (text "passWord") (by decide)
  revert this
  decide

end AimeeMemory.Module
