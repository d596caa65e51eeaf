import AimeeMemory.Module.Extract
import AimeeMemory.Core.Gate
import Mathlib.Algebra.Order.Ring.Int

/-!
# The extractor in C

`memory_extract_patterns.c`, the scanner that the module's is a port of. It reads a text up to
its zero byte and counts in `int`: an addition that leaves the range is undefined, and the
length of the text is reduced to 32 bits.

## What is proved

* **`extractors_agree_iff`**: on all texts of a length, the two scanners agree exactly where
  the length and the four bytes of " is " fit an `int`.
* **`late_disagrees`**: in a text of 2^31 bytes the C side sees no retraction.
-/

namespace AimeeMemory.Module

open AimeeMemory.Lib
open AimeeMemory.Core (Text text isdigit isalnum tolower)

namespace MemoryPattern

def INT_MAX : ℕ := 0x7fffffff

/-- The values of an `unsigned int`. -/
def UINT_VALUES : ℕ := 0x100000000

/-- The value of an `int` addition, where it is defined. -/
def int (n : ℕ) : Option ℕ := if n ≤ INT_MAX then some n else none

/-- `(int)strlen(text)`. -/
def intStrlen (t : Text) : ℤ := (t.length : ℤ).bmod UINT_VALUES

def isspace (c : UInt8) : Bool := c = 32 || (9 ≤ c && c ≤ 13)

def isHex (c : UInt8) : Bool := (48 ≤ c && c ≤ 57) || (97 ≤ c && c ≤ 102) || (65 ≤ c && c ≤ 70)

/-- `all_digits`. -/
def allDigits (t : Text) (start n : ℕ) : Bool :=
  ((List.range n).all fun i => isdigit (byteAt t (start + i))) ∧ n > 0

/-- The inner loop of `is_ipv4`: the digits of an octet and their value, `none` for four. -/
def octet (t : Text) : ℕ → ℕ → ℕ → ℕ → Option (ℕ × ℕ)
  | 0, _, len, val => some (len, val)
  | k + 1, p, len, val =>
    if isdigit (byteAt t (p + len)) then
      if len + 1 > 3 then none else octet t k p (len + 1) (val * 10 + ((byteAt t (p + len)).toNat - 48))
    else some (len, val)

/-- The loop of `is_ipv4`. -/
def isIpv4Loop (t : Text) : ℕ → ℕ → ℕ → Option Bool
  | 0, _, octets => some (octets = 4)
  | k + 1, p, octets =>
    if byteAt t p ≠ 0 then
      match octet t 4 p 0 0 with
      | none => some false
      | some (len, val) =>
        if len = 0 ∨ val > 255 then some false
        else do
          let octets ← int (octets + 1)
          if byteAt t (p + len) = ch '.' then isIpv4Loop t k (p + len + 1) octets
          else if byteAt t (p + len) = 0 then some (octets = 4)
          else some false
    else some (octets = 4)

/-- `is_ipv4`. -/
def isIpv4 (t : Text) : Option Bool := isIpv4Loop t t.length 0 0

/-- `is_mac`. -/
def isMac (t : Text) : Bool :=
  let sep := byteAt t 2
  t.length = 17 ∧ (sep = ch ':' ∨ sep = ch '-') ∧
    (List.range 6).all fun g =>
      isHex (byteAt t (g * 3)) && isHex (byteAt t (g * 3 + 1)) && (g ≥ 5 || byteAt t (g * 3 + 2) = sep)

/-- The counting loop of `is_ipv6`: whether there are eight groups of one to four digits. -/
def ipv6Groups : Text → ℕ → ℕ → Option Bool
  | [], groups, len =>
    if len < 1 ∨ len > 4 then some false
    else do
      let groups ← int (groups + 1)
      return groups = 8
  | c :: cs, groups, len =>
    if c = ch ':' then
      if len < 1 ∨ len > 4 then some false
      else do
        let groups ← int (groups + 1)
        ipv6Groups cs groups 0
    else do
      let len ← int (len + 1)
      ipv6Groups cs groups len

/-- `is_ipv6`. -/
def isIpv6 (t : Text) : Option Bool :=
  if ch ':' ∉ t then some false
  else if !t.all fun c => isHex c || c = ch ':' then some false
  else if text "::" <:+: t then some true
  else ipv6Groups t 0 0

/-- `strchr`, as the offset of the byte. -/
def strchr (t : Text) (c : UInt8) : Option ℕ := t.findIdx? (· = c)

/-- `is_email`. -/
def isEmail (t : Text) : Bool :=
  match strchr t (ch '@') with
  | none => false
  | some at_ =>
    let dom := t.drop (at_ + 1)
    if at_ = 0 ∨ (strchr dom (ch '@')).isSome then false
    else
      match strchr dom (ch '.') with
      | none => false
      | some dot =>
        if dot = 0 ∨ byteAt dom (dot + 1) = 0 then false
        else t.all fun c => c = ch '@' || c = ch '.' || c = ch '-' || c = ch '_' || c = ch '+' || isalnum c

/-- `is_iso_date`. -/
def isIsoDate (t : Text) : Bool :=
  if t.length ≠ 10 ∨ byteAt t 4 ≠ ch '-' ∨ byteAt t 7 ≠ ch '-' then false
  else if !allDigits t 0 4 ∨ !allDigits t 5 2 ∨ !allDigits t 8 2 then false
  else
    let mo := ((byteAt t 5).toNat - 48) * 10 + ((byteAt t 6).toNat - 48)
    let da := ((byteAt t 8).toNat - 48) * 10 + ((byteAt t 9).toNat - 48)
    mo ≥ 1 ∧ mo ≤ 12 ∧ da ≥ 1 ∧ da ≤ 31

/-- `memory_pattern_classify_value`. -/
def classifyValue (token : Text) : Option ValueKind :=
  if byteAt token 0 = 0 then some .none
  else do
    if ← isIpv4 token then return .ipv4
    if isMac token then return .mac
    if ← isIpv6 token then return .ipv6
    if isEmail token then return .email
    if isIsoDate token then return .date
    return .none

/-- `memory_pattern_value_node_kind`. -/
def valueNodeKind : ValueKind → NodeKind
  | .ipv4 | .ipv6 => NodeIp
  | .mac | .email | .date => NodeScalar
  | _ => NodeOther

/-- The comparison of `ci_find`, within the text. -/
def matchesAt (hay : Text) (i : ℕ) : Text → Bool
  | [] => true
  | c :: needle => tolower (byteAt hay i) = tolower c && matchesAt hay (i + 1) needle

/-- The loop of `ci_find`: an index or `-1`, which is `none` within. -/
def ciFindLoop (hay needle : Text) : ℕ → ℕ → Option (Option ℕ)
  | 0, _ => some none
  | k + 1, i => do
    let stop ← int (i + needle.length)
    if (stop : ℤ) ≤ intStrlen hay then
      if matchesAt hay i needle then return some i
      else ciFindLoop hay needle k (i + 1)
    else return none

/-- `ci_find`, for a needle that is a literal of the source. -/
def ciFind (hay needle : Text) (start : ℕ) : Option (Option ℕ) :=
  if needle = [] then some (some start) else ciFindLoop hay needle (hay.length + 2) start

/-- The loop of `memory_pattern_is_retraction`. -/
def anyCue (t : Text) : List Text → Option Bool
  | [] => some false
  | cue :: cues => do
    match ← ciFind t cue 0 with
    | some _ => return true
    | none => anyCue t cues

def cues : List Text :=
  [text "forget that", text "forget about", text "forget my", text "forget what", text "delete that",
   text "delete the", text "that's wrong", text "thats wrong", text "that is wrong", text "no longer",
   text "scratch that", text "ignore that", text "never mind", text "nevermind", text "disregard"]

/-- `memory_pattern_is_retraction`. -/
def isRetraction (t : Text) : Option Bool := if byteAt t 0 = 0 then some false else anyCue t cues

/-- `copy_trimmed`: the string in the destination. -/
def copyTrimmed (cap : ℕ) (src : Text) : Text :=
  if cap = 0 then []
  else
    let s := advance (fun i => isspace (byteAt src i)) src.length 0
    let e := retreat (fun i => isspace (byteAt src i)) (src.length - s) src.length
    let n := if e - s ≥ cap then cap - 1 else e - s
    (src.drop s).take n

/-- `is_my_word`. -/
def isMyWord (t : Text) (i : ℕ) : Option Bool :=
  if tolower (byteAt t i) ≠ ch 'm' then some false
  else do
    let next ← int (i + 1)
    if tolower (byteAt t next) ≠ ch 'y' then return false
    else if i > 0 ∧ (isalnum (byteAt t (i - 1)) ∨ byteAt t (i - 1) = underscore) then return false
    else do
      let next ← int (i + 2)
      return isspace (byteAt t next)

/-- `ci_starts_at`. -/
def ciStartsAt (hay : Text) (pos : ℕ) : Text → Option Bool
  | [] => some true
  | c :: needle => do
    let pos ← int pos
    if tolower (byteAt hay pos) ≠ tolower c then return false
    else ciStartsAt hay (pos + 1) needle

/-- The search of `memory_pattern_possessive_attr` for a possessive. -/
def firstMyWord (t : Text) : ℕ → ℕ → Option (Option ℕ)
  | 0, _ => some none
  | k + 1, i => do
    if ← isMyWord t i then return some i
    else firstMyWord t k (i + 1)

/-- The loop of `memory_pattern_possessive_attr` over the attribute. -/
def attrEnd (t : Text) : ℕ → ℕ → ℕ → Bool → Option ℕ
  | 0, e, _, _ => some e
  | k + 1, e, words, inWord =>
    let c := byteAt t e
    if c = ch '.' ∨ c = ch '!' ∨ c = ch '?' ∨ c = 10 then some e
    else if c = ch ' ' then do
      if ← ciStartsAt t e (text " is ") then return e
      if ← ciStartsAt t e (text " was ") then return e
      if inWord then
        if words + 1 ≥ 3 then return e
        else attrEnd t k (e + 1) (words + 1) false
      else attrEnd t k (e + 1) words false
    else attrEnd t k (e + 1) words true

/-- The spaces from an index on, within the length the code has computed. -/
def skipSpaces (t : Text) (s : ℕ) : ℕ := advance (fun j => isspace (byteAt t j)) (intStrlen t - s).toNat s

/-- `memory_pattern_possessive_attr` into a buffer of `outLen` bytes. -/
def possessiveAttr (outLen : ℕ) (t : Text) : Option (Text × Bool) := do
  match ← firstMyWord t (intStrlen t).toNat 0 with
  | none => return ([], false)
  | some i =>
    let s := skipSpaces t (i + 2)
    let e ← attrEnd t (intStrlen t - s).toNat s 0 false
    let out := copyTrimmed outLen (slice t s e)
    return (out, out ≠ [])

/-- A byte of a value that does not end it. -/
def inValue (t : Text) (j : ℕ) : Bool :=
  let c := byteAt t j
  !(c = 10 || ((c = ch '.' || c = ch '!' || c = ch '?') && (byteAt t (j + 1) = 0 || isspace (byteAt t (j + 1)))))

/-- The loop of `memory_extract_patterns`. The normal form of a label is not part of the
repository's C code. -/
def extractLoop (relTypeNormalize : Text → Text) (t : Text) (max : ℕ) : ℕ → ℕ → List Triple → Option (List Triple)
  | 0, _, triples => some triples
  | k + 1, i, triples =>
    if (i : ℤ) < intStrlen t ∧ triples.length < max then do
      if !(← isMyWord t i) then extractLoop relTypeNormalize t max k (i + 1) triples
      else
        let attrStart := skipSpaces t (i + 2)
        match ← ciFind t (text " is ") attrStart with
        | none => extractLoop relTypeNormalize t max k (i + 1) triples
        | some isPos =>
          let valEnd := advance (inValue t) (intStrlen t - (isPos + 4)).toNat (isPos + 4)
          let attr := copyTrimmed 128 (slice t attrStart isPos)
          let value := copyTrimmed 128 (slice t (isPos + 4) valEnd)
          if attr = [] ∨ value = [] then
            extractLoop relTypeNormalize t max k (← int (valEnd + 1)) triples
          else
            let relType := relTypeNormalize attr
            let kind ← classifyValue value
            let triple : Triple :=
              { subject := text "user", relType, object := value, subjectKind := NodePerson,
                objectKind := valueNodeKind kind }
            let triples := if relType ≠ [] then triples ++ [triple] else triples
            extractLoop relTypeNormalize t max k (← int (valEnd + 1)) triples
    else some triples

/-- `memory_extract_patterns`, without a registered provider and for a positive `max`. -/
def extractPatterns (relTypeNormalize : Text → Text) (t : Text) (max : ℕ) : Option (List Triple) :=
  extractLoop relTypeNormalize t max t.length 0 []

end MemoryPattern

/-- The two scanners agree on a text; the C side is defined there. -/
structure ScannersAgree (relTypeNormalize : Text → Text) (t : Text) : Prop where
  extract : ∀ max > 0, MemoryPattern.extractPatterns relTypeNormalize t max = some (extractPatterns t max)
  possessive : MemoryPattern.possessiveAttr attrMax t = some (possessiveAttr t)
  retraction : MemoryPattern.isRetraction t = some (isRetraction t)
  classify : MemoryPattern.classifyValue t = some (classifyValue t)

/-! ## Bytes -/

variable {t : Text}

theorem isspace_eq : MemoryPattern.isspace = isSpace := by
  funext c
  simp only [MemoryPattern.isspace, isSpace]
  grind

theorem isHex_eq : MemoryPattern.isHex = isHex := by
  funext c
  simp only [MemoryPattern.isHex, isHex, isDigit]
  grind

theorem isdigit_eq : isdigit = isDigit := rfl

theorem isalnum_eq : isalnum = isAlnum := by
  funext c
  simp only [isalnum, isAlnum, AimeeMemory.Core.isdigit, AimeeMemory.Core.isupper, AimeeMemory.Core.islower,
    isUpper, isLower, isDigit]
  grind

theorem tolower_eq : tolower = toLower := rfl

theorem toLower_eq_zero {c : UInt8} : toLower c = 0 ↔ c = 0 := by
  simp only [toLower, isUpper]
  grind

theorem byteAt_of_le {i : ℕ} (h : t.length ≤ i) : byteAt t i = 0 := by
  simp [byteAt, List.getElem?_eq_none h]

/-- The zero byte is the end of a C string. -/
theorem byteAt_eq_zero (hnul : 0 ∉ t) {i : ℕ} : byteAt t i = 0 ↔ t.length ≤ i := by
  constructor
  · intro h
    by_contra hlt
    have hget : byteAt t i = t[i] := by simp [byteAt, not_le.1 hlt]
    exact hnul (h ▸ hget ▸ List.getElem_mem _)
  · exact byteAt_of_le

theorem int_eq {n : ℕ} (h : n ≤ MemoryPattern.INT_MAX) : MemoryPattern.int n = some n := if_pos h

theorem int_eq_none {n : ℕ} (h : MemoryPattern.INT_MAX < n) : MemoryPattern.int n = none := if_neg (by omega)

theorem bmod_of_lt {n m : ℕ} (h : 2 * n < m) : (n : ℤ).bmod m = n := by
  have hmod : (n : ℤ) % m = n := Int.emod_eq_of_lt (by omega) (by omega)
  rw [Int.bmod_eq_emod_of_lt (by rw [hmod]; omega), hmod]

theorem bmod_le_sub {n m : ℕ} (h : m ≤ 2 * n) : (n : ℤ).bmod m ≤ n - m := by
  have hdiv := Int.mul_ediv_add_emod n m
  rw [Int.bmod_def]
  rcases Nat.lt_or_ge n m with hlt | hge
  · have hmod : (n : ℤ) % m = n := Int.emod_eq_of_lt (by omega) (by omega)
    rw [hmod, if_neg (by omega)]
  · -- a whole round fits, and what is left over is smaller by it
    have hround : (m : ℤ) ≤ m * ((n : ℤ) / m) := by
      rcases Nat.eq_zero_or_pos m with hm | hm
      · simp [hm]
      · have : 1 ≤ (n : ℤ) / m := Int.le_ediv_of_mul_le (by omega) (by omega)
        exact le_mul_of_one_le_right (by omega) this
    split <;> omega

/-- The length of a text that an `int` can hold. -/
theorem intStrlen_eq (h : t.length ≤ MemoryPattern.INT_MAX) : MemoryPattern.intStrlen t = t.length :=
  bmod_of_lt (by simp only [MemoryPattern.INT_MAX] at h; simp only [MemoryPattern.UINT_VALUES]; omega)

/-- The length of a longer text. -/
theorem intStrlen_le (h : MemoryPattern.INT_MAX < t.length) :
    MemoryPattern.intStrlen t ≤ t.length - MemoryPattern.UINT_VALUES :=
  bmod_le_sub (by simp only [MemoryPattern.INT_MAX] at h; simp only [MemoryPattern.UINT_VALUES]; omega)

/-! ## Structured values -/

theorem octet_eq (k p len val : ℕ) : MemoryPattern.octet t k p len val = octet t k p len val := by
  induction k generalizing len val with
  | zero => rfl
  | succ k ih =>
    rw [MemoryPattern.octet, octet, ih, isdigit_eq]
    by_cases hlt : p + len < t.length
    · simp [hlt]
    · have : isDigit (byteAt t (p + len)) = false := by
        rw [byteAt_of_le (by omega)]
        rfl
      simp [this]

theorem isIpv4Loop_eq (hnul : 0 ∉ t) {k p octets : ℕ} (h : octets + k ≤ MemoryPattern.INT_MAX) :
    MemoryPattern.isIpv4Loop t k p octets = some (isIPv4Loop t k p octets) := by
  induction k generalizing p octets with
  | zero => rfl
  | succ k ih =>
    rw [MemoryPattern.isIpv4Loop, isIPv4Loop, octet_eq]
    by_cases hp : p < t.length
    · rw [if_pos (by rw [ne_eq, byteAt_eq_zero hnul]; omega), if_pos hp]
      cases octet t 4 p 0 0 with
      | none => rfl
      | some r =>
        obtain ⟨len, val⟩ := r
        simp only
        split
        · rfl
        · rw [int_eq (by omega)]
          simp only [Option.bind_eq_bind, Option.bind_some]
          by_cases hlt : p + len < t.length
          · rw [ih (by omega), if_pos hlt]
            have h0 : byteAt t (p + len) ≠ 0 := by
              rw [ne_eq, byteAt_eq_zero hnul]
              omega
            simp only [hlt, h0, true_and, if_false]
            split <;> rfl
          · have h0 : byteAt t (p + len) = 0 := byteAt_of_le (by omega)
            have hdot : (0 : UInt8) ≠ ch '.' := by decide
            rw [h0, if_neg hdot, if_pos rfl, if_neg (by omega), if_neg hlt]
            -- the octets have run out: the loop of the module stops at its next turn
            cases k with
            | zero => rfl
            | succ k => rw [isIPv4Loop, if_neg hlt]
    · rw [if_neg (by rw [ne_eq, not_not]; exact byteAt_of_le (by omega)), if_neg hp]

theorem ipv6Groups_eq {cs : Text} {groups len : ℕ} (h : groups + len + cs.length + 1 ≤ MemoryPattern.INT_MAX) :
    MemoryPattern.ipv6Groups cs groups len = some (decide (ipv6Groups cs groups len = some 8)) := by
  induction cs generalizing groups len with
  | nil =>
    rw [MemoryPattern.ipv6Groups, ipv6Groups]
    split
    · simp
    · rw [int_eq (by omega)]
      simp
  | cons c cs ih =>
    simp only [List.length_cons] at h
    rw [MemoryPattern.ipv6Groups, ipv6Groups]
    split
    · split
      · simp
      · rw [int_eq (by omega)]
        exact ih (by omega)
    · rw [int_eq (by omega)]
      exact ih (by omega)

theorem isMac_eq : MemoryPattern.isMac t = isMAC t := by
  simp only [MemoryPattern.isMac, isMAC, isHex_eq]

theorem isIpv6_eq (h : t.length + 1 ≤ MemoryPattern.INT_MAX) : MemoryPattern.isIpv6 t = some (isIPv6 t) := by
  rw [MemoryPattern.isIpv6, isIPv6, isHex_eq, ipv6Groups_eq (by omega)]
  split
  · rfl
  · split
    · rfl
    · split <;> rfl

theorem strchr_eq : MemoryPattern.strchr = indexByte := rfl

theorem isEmail_eq (hnul : 0 ∉ t) : MemoryPattern.isEmail t = isEmail t := by
  rw [MemoryPattern.isEmail, isEmail, strchr_eq, isalnum_eq]
  cases indexByte t (ch '@') with
  | none => rfl
  | some at_ =>
    simp only
    by_cases hat : at_ = 0 ∨ (indexByte (t.drop (at_ + 1)) (ch '@')).isSome
    · rw [if_pos hat, if_pos hat]
    · rw [if_neg hat, if_neg hat]
      cases hdot : indexByte (t.drop (at_ + 1)) (ch '.') with
      | none => rfl
      | some dot =>
        have hlt : dot < (t.drop (at_ + 1)).length := (List.findIdx?_eq_some_iff_getElem.1 hdot).1
        have hnul' : 0 ∉ t.drop (at_ + 1) := fun h0 => hnul (List.mem_of_mem_drop h0)
        have hend : byteAt (t.drop (at_ + 1)) (dot + 1) = 0 ↔ dot = (t.drop (at_ + 1)).length - 1 := by
          rw [byteAt_eq_zero hnul']
          omega
        simp only [hend]

/-- The bytes of a slice. -/
theorem slice_eq_map {i n : ℕ} (h : i + n ≤ t.length) :
    slice t i (i + n) = (List.range n).map fun k => byteAt t (i + k) := by
  apply List.ext_getElem
  · simp [slice]
    omega
  · intro k h1 h2
    have hk : i + k < t.length := by
      simp at h2
      omega
    simp [slice, byteAt, hk]

theorem allDigits_eq {i n : ℕ} (h : i + n ≤ t.length) :
    MemoryPattern.allDigits t i n = allDigits (slice t i (i + n)) := by
  rw [MemoryPattern.allDigits, allDigits, slice_eq_map h, isdigit_eq, List.all_map, List.length_map,
    List.length_range]
  rfl

theorem isIsoDate_eq : MemoryPattern.isIsoDate t = isISODate t := by
  simp only [MemoryPattern.isIsoDate, isISODate]
  split
  · rfl
  · rename_i h
    have hlen : t.length = 10 := by
      by_contra hne
      exact h (.inl hne)
    rw [allDigits_eq (i := 0) (n := 4) (by omega), allDigits_eq (i := 5) (n := 2) (by omega),
      allDigits_eq (i := 8) (n := 2) (by omega)]

/-- The two classifiers. -/
theorem classifyValue_eq (hnul : 0 ∉ t) (h : t.length + 1 ≤ MemoryPattern.INT_MAX) :
    MemoryPattern.classifyValue t = some (classifyValue t) := by
  rw [MemoryPattern.classifyValue, classifyValue, MemoryPattern.isIpv4, isIPv4, isIpv4Loop_eq hnul (by omega),
    isMac_eq, isIpv6_eq h, isEmail_eq hnul, isIsoDate_eq]
  have hempty : byteAt t 0 = 0 ↔ t = [] := by
    rw [byteAt_eq_zero hnul, Nat.le_zero, List.length_eq_zero_iff]
  simp only [hempty, Option.bind_eq_bind, Option.bind_some, Option.pure_def]
  repeat' split
  all_goals rfl

theorem valueNodeKind_eq (kind : ValueKind) : MemoryPattern.valueNodeKind kind = valueNodeKind kind := by
  cases kind <;> rfl

/-! ## Searches -/

/-- A needle without a zero byte does not match beyond the text. -/
theorem ciStartsAt_eq {needle : Text} (hneedle : 0 ∉ needle) {pos : ℕ} (hpos : pos ≤ t.length)
    (h : t.length ≤ MemoryPattern.INT_MAX) :
    MemoryPattern.ciStartsAt t pos needle = some (ciStartsAt t pos needle) := by
  induction needle generalizing pos with
  | nil => rfl
  | cons c needle ih =>
    simp only [List.mem_cons, not_or] at hneedle
    rw [MemoryPattern.ciStartsAt, ciStartsAt, int_eq (by omega), tolower_eq]
    simp only [Option.bind_eq_bind, Option.bind_some]
    by_cases hend : t.length ≤ pos
    · have hmiss : toLower (byteAt t pos) ≠ toLower c := by
        rw [byteAt_of_le hend, toLower_eq_zero.2 rfl]
        exact fun h0 => hneedle.1 (toLower_eq_zero.1 h0.symm).symm
      rw [if_pos hmiss, if_pos (.inl hend)]
      rfl
    · by_cases hmiss : toLower (byteAt t pos) ≠ toLower c
      · rw [if_pos hmiss, if_pos (.inr hmiss)]
        rfl
      · rw [if_neg hmiss, if_neg (by simp only [ge_iff_le, hend, hmiss, or_self, not_false_eq_true])]
        exact ih hneedle.2 (by omega)

theorem matchesAt_eq {needle : Text} {i : ℕ} (h : i + needle.length ≤ t.length) :
    MemoryPattern.matchesAt t i needle = ciStartsAt t i needle := by
  induction needle generalizing i with
  | nil => rfl
  | cons c needle ih =>
    simp only [List.length_cons] at h
    rw [MemoryPattern.matchesAt, ciStartsAt, ih (by omega), tolower_eq]
    by_cases hc : toLower (byteAt t i) = toLower c
    · rw [if_neg (by simp only [ge_iff_le, ne_eq, hc, not_true_eq_false, or_false]; omega)]
      simp [hc]
    · rw [if_pos (.inr hc)]
      simp [hc]

/-- The loop of `ci_find` with a turn for each index that is left. -/
theorem ciFindLoop_eq (h : t.length + 1 ≤ MemoryPattern.INT_MAX) {needle : Text} {k i : ℕ}
    (hi : i + needle.length ≤ MemoryPattern.INT_MAX) (hk : t.length + 1 - needle.length - i < k) :
    MemoryPattern.ciFindLoop t needle k i =
      some (firstIndex (ciStartsAt t · needle) (t.length + 1 - needle.length - i) i) := by
  induction k generalizing i with
  | zero => omega
  | succ k ih =>
    rw [MemoryPattern.ciFindLoop, int_eq hi, intStrlen_eq (by omega)]
    simp only [Option.bind_eq_bind, Option.bind_some, Nat.cast_le]
    by_cases hle : i + needle.length ≤ t.length
    · obtain ⟨n, hn⟩ : ∃ n, t.length + 1 - needle.length - i = n + 1 :=
        ⟨t.length - needle.length - i, by omega⟩
      have hnext : t.length + 1 - needle.length - (i + 1) = n := by omega
      rw [if_pos hle, matchesAt_eq hle, hn, firstIndex, ih (by omega) (by omega), hnext]
      split <;> rfl
    · rw [if_neg hle, show t.length + 1 - needle.length - i = 0 by omega]
      rfl

theorem ciFind_eq (h : t.length + 1 ≤ MemoryPattern.INT_MAX) {needle : Text} {start : ℕ} (hstart : start ≤ t.length)
    (hi : start + needle.length ≤ MemoryPattern.INT_MAX) :
    MemoryPattern.ciFind t needle start = some (ciFind t needle start) := by
  rw [MemoryPattern.ciFind, ciFind, if_neg (show ¬start > t.length by omega)]
  split
  · rfl
  · refine ciFindLoop_eq h hi ?_
    omega

theorem anyCue_eq (h : t.length + 1 ≤ MemoryPattern.INT_MAX) {cues : List Text}
    (hcues : ∀ cue ∈ cues, cue.length ≤ MemoryPattern.INT_MAX) :
    MemoryPattern.anyCue t cues = some (cues.any fun cue => (ciFind t cue 0).isSome) := by
  induction cues with
  | nil => rfl
  | cons cue cues ih =>
    have hcue := hcues cue (by simp)
    rw [MemoryPattern.anyCue, ciFind_eq h (Nat.zero_le _) (by omega)]
    simp only [Option.bind_eq_bind, Option.bind_some, List.any_cons]
    cases ciFind t cue 0 with
    | none => simpa using ih fun c hc => hcues c (by simp [hc])
    | some j => rfl

/-- The two scans for a retraction. -/
theorem isRetraction_eq (hnul : 0 ∉ t) (h : t.length + 1 ≤ MemoryPattern.INT_MAX) :
    MemoryPattern.isRetraction t = some (isRetraction t) := by
  have hempty : byteAt t 0 = 0 ↔ t = [] := by
    rw [byteAt_eq_zero hnul, Nat.le_zero, List.length_eq_zero_iff]
  have hcues : MemoryPattern.cues = retractionCues := rfl
  rw [MemoryPattern.isRetraction, isRetraction, hcues, anyCue_eq h (by decide)]
  by_cases ht : t = []
  · rw [if_pos (hempty.2 ht)]
    simp [ht]
  · rw [if_neg (mt hempty.1 ht)]
    simp only [ne_eq, ht, not_false_eq_true, true_and, Bool.decide_eq_true]

/-! ## The possessive -/

theorem isMyWord_eq (h : t.length + 2 ≤ MemoryPattern.INT_MAX) {i : ℕ} (hi : i < t.length) :
    MemoryPattern.isMyWord t i = some (isMyWord t i) := by
  rw [MemoryPattern.isMyWord, isMyWord, int_eq (by omega), int_eq (by omega), isspace_eq, isalnum_eq, tolower_eq]
  simp only [Option.bind_eq_bind, Option.bind_some]
  by_cases hm : toLower (byteAt t i) ≠ ch 'm'
  · rw [if_pos hm, if_pos (.inr (.inl hm))]
  · by_cases hy : toLower (byteAt t (i + 1)) ≠ ch 'y'
    · rw [if_neg hm, if_pos hy, if_pos (.inr (.inr hy))]
      rfl
    · -- a byte that is a 'y' lies within the text
      have hin : i + 1 < t.length := by
        by_contra hout
        rw [byteAt_of_le (by omega)] at hy
        exact hy (by decide)
      have hword : ¬(i + 1 ≥ t.length ∨ toLower (byteAt t i) ≠ ch 'm' ∨ toLower (byteAt t (i + 1)) ≠ ch 'y') := by
        rintro (hout | hm' | hy')
        · omega
        · exact hm hm'
        · exact hy hy'
      rw [if_neg hm, if_neg hy, if_neg hword]
      by_cases hbefore : i > 0 ∧ (isAlnum (byteAt t (i - 1)) ∨ byteAt t (i - 1) = underscore)
      · rw [if_pos hbefore, if_pos hbefore]
        rfl
      · rw [if_neg hbefore, if_neg hbefore]
        by_cases hend : i + 2 < t.length
        · simp [hend]
        · simp [hend, byteAt_of_le (t := t) (i := i + 2) (by omega), isSpace]

theorem firstMyWord_eq (h : t.length + 2 ≤ MemoryPattern.INT_MAX) {k i : ℕ} (hk : i + k ≤ t.length) :
    MemoryPattern.firstMyWord t k i = some (firstIndex (isMyWord t) k i) := by
  induction k generalizing i with
  | zero => rfl
  | succ k ih =>
    rw [MemoryPattern.firstMyWord, firstIndex, isMyWord_eq h (by omega), ih (by omega)]
    simp only [Option.bind_eq_bind, Option.bind_some]
    split <;> rfl

theorem skipSpaces_eq (h : t.length ≤ MemoryPattern.INT_MAX) (i : ℕ) :
    MemoryPattern.skipSpaces t (i + 2) = attrStart t i := by
  rw [MemoryPattern.skipSpaces, attrStart, isspace_eq, intStrlen_eq h,
    show ((t.length : ℤ) - (i + 2 : ℕ)).toNat = t.length - (i + 2) by omega]

theorem attrStart_le {i : ℕ} (h : isMyWord t i = true) : attrStart t i ≤ t.length := by
  have hlt := lt_of_isMyWord h
  have := advance_le (p := fun j => isSpace (byteAt t j)) (n := t.length - (i + 2)) (i := i + 2)
  simp only [attrStart]
  omega

theorem attrEnd_eq (h : t.length ≤ MemoryPattern.INT_MAX) {k e words : ℕ} {inWord : Bool} (hk : e + k ≤ t.length) :
    MemoryPattern.attrEnd t k e words inWord = some (attrEnd t k e words inWord) := by
  induction k generalizing e words inWord with
  | zero => rfl
  | succ k ih =>
    have his : (0 : UInt8) ∉ text " is " := by decide
    have hwas : (0 : UInt8) ∉ text " was " := by decide
    rw [MemoryPattern.attrEnd, attrEnd, ciStartsAt_eq his (by omega) h, ciStartsAt_eq hwas (by omega) h]
    simp only [Option.bind_eq_bind, Option.bind_some, ih (show e + 1 + k ≤ t.length by omega)]
    split
    · rfl
    · split
      · cases ciStartsAt t e (text " is ") <;> cases ciStartsAt t e (text " was ") <;> cases inWord <;> simp
        split <;> rfl
      · rfl

theorem copyTrimmed_eq (cap : ℕ) (src : Text) : MemoryPattern.copyTrimmed cap src = trimmedTo src cap := by
  rw [MemoryPattern.copyTrimmed, trimmedTo, isspace_eq]
  split
  · rfl
  · simp only [slice, List.drop_take, List.take_take]
    congr 1
    split <;> omega

/-- The two readers of a possessive. -/
theorem possessiveAttr_eq (h : t.length + 2 ≤ MemoryPattern.INT_MAX) :
    MemoryPattern.possessiveAttr attrMax t = some (possessiveAttr t) := by
  rw [MemoryPattern.possessiveAttr, possessiveAttr, intStrlen_eq (by omega), Int.toNat_natCast,
    firstMyWord_eq h (by omega)]
  simp only [Option.bind_eq_bind, Option.bind_some]
  cases hfirst : firstIndex (isMyWord t) t.length 0 with
  | none => rfl
  | some i =>
    have hle := attrStart_le (firstIndex_eq_some hfirst).2.2
    simp only
    rw [skipSpaces_eq (by omega), show ((t.length : ℤ) - (attrStart t i : ℕ)).toNat = t.length - attrStart t i by omega,
      attrEnd_eq (by omega) (by omega)]
    simp only [Option.bind_some, copyTrimmed_eq]
    rfl

/-! ## The template -/

theorem inValue_eq (hnul : 0 ∉ t) {j : ℕ} (hj : j < t.length) : MemoryPattern.inValue t j = inValue t j := by
  have hend : byteAt t (j + 1) = 0 ↔ j + 1 = t.length := by
    rw [byteAt_eq_zero hnul]
    omega
  simp only [MemoryPattern.inValue, inValue, isspace_eq, hend]

theorem valueEnd_eq (hnul : 0 ∉ t) (isPos : ℕ) :
    advance (MemoryPattern.inValue t) ((t.length : ℤ) - (isPos + 4)).toNat (isPos + 4) = valueEnd t (isPos + 4) := by
  rw [valueEnd, show ((t.length : ℤ) - (isPos + 4)).toNat = t.length - (isPos + 4) by omega]
  exact advance_congr fun j h1 h2 => inValue_eq hnul (by omega)

theorem valueEnd_le {start : ℕ} (h : start ≤ t.length) : valueEnd t start ≤ t.length := by
  have := advance_le (p := inValue t) (n := t.length - start) (i := start)
  simp only [valueEnd]
  omega

/-- What was found lies within the text. -/
theorem ciFind_add_le {needle : Text} {start j : ℕ} (hn : needle ≠ []) (h : ciFind t needle start = some j) :
    j + needle.length ≤ t.length := by
  rw [ciFind, if_neg hn] at h
  split at h
  · cases h
  · have := firstIndex_eq_some h
    omega

/-- One turn of the two loops does the same, and the next one begins within the text or right
behind it. -/
theorem extractLoop_eq (hnul : 0 ∉ t) (h : t.length + 4 ≤ MemoryPattern.INT_MAX)
    {relTypeNormalize : Text → Text} (hnormalize : ∀ s, relTypeNormalize s = normalizeRelType s)
    {max k i : ℕ} {triples : List Triple} :
    MemoryPattern.extractLoop relTypeNormalize t max k i triples = some (extractLoop t max k i triples) := by
  induction k generalizing i triples with
  | zero => rfl
  | succ k ih =>
    rw [MemoryPattern.extractLoop, extractLoop, intStrlen_eq (by omega)]
    simp only [Nat.cast_lt]
    by_cases hturn : i < t.length ∧ triples.length < max
    · rw [if_pos hturn, if_pos hturn, isMyWord_eq (by omega) hturn.1]
      simp only [Option.bind_eq_bind, Option.bind_some]
      by_cases hmy : isMyWord t i = true
      · have hstart := attrStart_le hmy
        rw [if_neg (by simp [hmy]), if_neg (by simp [hmy]), skipSpaces_eq (by omega),
          ciFind_eq (by omega) hstart (show attrStart t i + 4 ≤ _ by omega)]
        simp only [Option.bind_some]
        cases hpos : ciFind t (text " is ") (attrStart t i) with
        | none => exact ih
        | some isPos =>
          have hval : isPos + 4 ≤ t.length := ciFind_add_le (by decide) hpos
          have hend := valueEnd_le hval
          simp only [valueEnd_eq hnul, int_eq (show valueEnd t (isPos + 4) + 1 ≤ _ by omega), Option.bind_some, ih]
          generalize hattr : trimmedTo (slice t (attrStart t i) isPos) attrMax = attr
          generalize hvalue : trimmedTo (slice t (isPos + 4) (valueEnd t (isPos + 4))) valueMax = value
          have hclassify : MemoryPattern.classifyValue value = some (classifyValue value) := by
            rw [← hvalue]
            have hshort := length_trimmedTo (slice t (isPos + 4) (valueEnd t (isPos + 4))) (show 0 < valueMax by decide)
            exact classifyValue_eq (fun h0 => hnul (slice_subset _ _ _ (trimmedTo_subset _ _ h0)))
              (Nat.le_trans hshort (by decide))
          rw [(copyTrimmed_eq 128 _).trans hattr, (copyTrimmed_eq 128 _).trans hvalue, hclassify]
          split
          · rfl
          · simp only [Option.bind_some, hnormalize, valueNodeKind_eq]
            by_cases hrel : normalizeRelType attr = []
            · rw [if_pos hrel, if_neg (not_not.2 hrel)]
            · rw [if_neg hrel, if_pos hrel]
      · rw [if_pos (by simpa using hmy), if_pos (by simpa using hmy)]
        exact ih
    · rw [if_neg hturn, if_neg hturn]

/-- The scanners agree on every text whose length leaves an `int` room for a needle. -/
theorem scannersAgree (hnul : 0 ∉ t) (h : t.length + 4 ≤ MemoryPattern.INT_MAX)
    {relTypeNormalize : Text → Text} (hnormalize : ∀ s, relTypeNormalize s = normalizeRelType s) :
    ScannersAgree relTypeNormalize t where
  extract max hmax := by
    rw [MemoryPattern.extractPatterns, extractPatterns, if_neg (by omega)]
    exact extractLoop_eq hnul h hnormalize
  possessive := possessiveAttr_eq (by omega)
  retraction := isRetraction_eq hnul (by omega)
  classify := classifyValue_eq hnul (by omega)

/-! ## Longer texts -/

/-- A possessive with nothing but spaces behind it. -/
def bareMy (spaces : ℕ) : Text := text "my" ++ List.replicate spaces 32

/-- The C side is undefined there: the search for the " is " begins at the end of the text. -/
theorem extractPatterns_bareMy (relTypeNormalize : Text → Text) {n : ℕ} (hn : 0 < n)
    (hlen : n + 2 ≤ MemoryPattern.INT_MAX) (h : MemoryPattern.INT_MAX < n + 2 + 4) :
    MemoryPattern.extractPatterns relTypeNormalize (bareMy n) 1 = none := by
  have hlength : (bareMy n).length = n + 2 := by
    simp only [bareMy, List.length_append, List.length_replicate]
    exact Nat.add_comm 2 n
  have hspace {j : ℕ} (h1 : 2 ≤ j) (h2 : j < n + 2) : MemoryPattern.isspace (byteAt (bareMy n) j) = true := by
    have hj : ¬j < (text "my").length := not_lt.2 h1
    have hj' : j - (text "my").length < n := show j - 2 < n by omega
    simp only [byteAt, bareMy, List.getD_eq_getElem?_getD]
    rw [List.getElem?_append_right (not_lt.1 hj), List.getElem?_replicate_of_lt hj']
    rfl
  have hmy : MemoryPattern.isMyWord (bareMy n) 0 = some true := by
    have hm : tolower (byteAt (bareMy n) 0) = ch 'm' := rfl
    have hy : tolower (byteAt (bareMy n) 1) = ch 'y' := rfl
    have h2 := hspace (j := 2) le_rfl (by omega)
    rw [MemoryPattern.isMyWord, int_eq (by omega), int_eq (by omega)]
    simp [hm, hy, h2]
  have hskip : MemoryPattern.skipSpaces (bareMy n) 2 = n + 2 := by
    rw [MemoryPattern.skipSpaces, intStrlen_eq (by omega), hlength,
      advance_of_forall fun j h1 h2 => hspace h1 (by omega)]
    omega
  have hfind : MemoryPattern.ciFind (bareMy n) (text " is ") (n + 2) = none := by
    have hover : MemoryPattern.INT_MAX < n + 2 + (text " is ").length := h
    rw [MemoryPattern.ciFind, if_neg (by decide), MemoryPattern.ciFindLoop, int_eq_none hover]
    rfl
  rw [MemoryPattern.extractPatterns, hlength, MemoryPattern.extractLoop, intStrlen_eq (by omega), hlength,
    if_pos (by simp; omega), hmy]
  simp [hskip, hfind]

/-- A retraction at the end of spaces. -/
def lateDisregard (spaces : ℕ) : Text := List.replicate spaces 32 ++ text "disregard"

theorem isRetraction_lateDisregard (n : ℕ) : isRetraction (lateDisregard n) = true := by
  have hlength : (lateDisregard n).length = n + 9 := by
    simp only [lateDisregard, List.length_append, List.length_replicate]
    rfl
  have hfind : (ciFind (lateDisregard n) (text "disregard") 0).isSome = true := by
    rw [ciFind, if_neg (by omega), if_neg (by decide), firstIndex_isSome]
    refine ⟨n, by omega, ?_, ?_⟩
    · rw [hlength]
      show n < 0 + (n + 9 + 1 - 9 - 0)
      omega
    · rw [ciStartsAt_iff, lateDisregard, List.drop_left' (by simp)]
  have hne : lateDisregard n ≠ [] := by
    rw [← List.length_pos_iff]
    omega
  rw [isRetraction, decide_eq_true_iff, List.any_eq_true]
  exact ⟨hne, text "disregard", by decide, hfind⟩

/-- A search that cannot match where it looks finds nothing. -/
theorem ciFindLoop_ne_some {needle : Text}
    (h : ∀ i : ℕ, ((i + needle.length : ℕ) : ℤ) ≤ MemoryPattern.intStrlen t → MemoryPattern.matchesAt t i needle = false)
    (k i j : ℕ) : MemoryPattern.ciFindLoop t needle k i ≠ some (some j) := by
  induction k generalizing i with
  | zero => simp [MemoryPattern.ciFindLoop]
  | succ k ih =>
    rw [MemoryPattern.ciFindLoop]
    by_cases hfits : i + needle.length ≤ MemoryPattern.INT_MAX
    · rw [int_eq hfits, Option.bind_eq_bind, Option.bind_some]
      by_cases hle : ((i + needle.length : ℕ) : ℤ) ≤ MemoryPattern.intStrlen t
      · rw [if_pos hle, h i hle, if_neg Bool.false_ne_true]
        exact ih (i + 1)
      · rw [if_neg hle]
        simp
    · rw [int_eq_none (not_le.1 hfits)]
      simp

theorem anyCue_ne_true {cues : List Text} (h : ∀ cue ∈ cues, ∀ j, MemoryPattern.ciFind t cue 0 ≠ some (some j)) :
    MemoryPattern.anyCue t cues ≠ some true := by
  induction cues with
  | nil => simp [MemoryPattern.anyCue]
  | cons cue cues ih =>
    have hcue := h cue (by simp)
    rw [MemoryPattern.anyCue]
    cases hfind : MemoryPattern.ciFind t cue 0 with
    | none => simp
    | some r =>
      cases r with
      | none => simpa using ih fun c hc => h c (by simp [hc])
      | some j => exact absurd hfind (hcue j)

/-- Past the largest `int` the C side counts a length that ends within the spaces. -/
theorem isRetraction_lateDisregard_ne {n : ℕ} (h : MemoryPattern.INT_MAX < n + 9) :
    MemoryPattern.isRetraction (lateDisregard n) ≠ some true := by
  have hlength : (lateDisregard n).length = n + 9 := by
    simp only [lateDisregard, List.length_append, List.length_replicate]
    rfl
  have hcount := intStrlen_le (t := lateDisregard n) (by omega)
  rw [hlength] at hcount
  have hspace {i : ℕ} (hi : i < n) : byteAt (lateDisregard n) i = 32 := by
    simp only [byteAt, lateDisregard, List.getD_eq_getElem?_getD]
    rw [List.getElem?_append_left (by simpa using hi), List.getElem?_replicate_of_lt hi]
    rfl
  have hcues : ∀ cue ∈ MemoryPattern.cues, cue ≠ [] ∧ tolower (cue.headD 0) ≠ tolower 32 := by decide
  rw [MemoryPattern.isRetraction]
  split
  · simp
  · refine anyCue_ne_true fun cue hcue j => ?_
    obtain ⟨hne, hc⟩ := hcues cue hcue
    obtain ⟨c, rest, rfl⟩ := List.exists_cons_of_ne_nil hne
    rw [MemoryPattern.ciFind, if_neg hne]
    refine ciFindLoop_ne_some (fun i hi => ?_) _ _ _
    have hi' : i < n := by
      have hsub : ((n + 9 : ℕ) : ℤ) - MemoryPattern.UINT_VALUES ≤ n := by
        simp only [MemoryPattern.UINT_VALUES]
        omega
      simp only [List.length_cons] at hi
      omega
    rw [MemoryPattern.matchesAt, hspace hi', Bool.and_eq_false_iff, decide_eq_false_iff_not]
    exact .inl (Ne.symm hc)

/-- A text of 2^31 bytes. -/
theorem late_disagrees :
    (lateDisregard 2147483639).length = 2147483648 ∧ 0 ∉ lateDisregard 2147483639 ∧
      isRetraction (lateDisregard 2147483639) = true ∧
      MemoryPattern.isRetraction (lateDisregard 2147483639) ≠ some true := by
  refine ⟨?_, ?_, isRetraction_lateDisregard _, isRetraction_lateDisregard_ne (by decide)⟩
  · rw [lateDisregard, List.length_append, List.length_replicate]
    rfl
  · rw [lateDisregard, List.mem_append, List.mem_replicate]
    decide

/-- **The scanners agree on the texts of a length exactly where the length and a needle fit an
`int`.** -/
theorem extractors_agree_iff (relTypeNormalize : Text → Text)
    (hnormalize : ∀ s, relTypeNormalize s = normalizeRelType s) (length : ℕ) :
    (∀ t : CString, t.1.length = length → ScannersAgree relTypeNormalize t.1) ↔
      length + 4 ≤ MemoryPattern.INT_MAX := by
  constructor
  · intro hagree
    by_contra hlong
    rcases Nat.lt_or_ge MemoryPattern.INT_MAX length with hover | hfits
    · -- the cut length hides the cue
      have h9 : 9 ≤ length := Nat.le_trans (by decide) (Nat.le_of_lt hover)
      have hlength : (lateDisregard (length - 9)).length = length := by
        rw [lateDisregard, List.length_append, List.length_replicate]
        show length - 9 + 9 = length
        omega
      have hnul : 0 ∉ lateDisregard (length - 9) := by
        rw [lateDisregard, List.mem_append, List.mem_replicate]
        rintro (⟨-, h0⟩ | h0) <;> revert h0 <;> decide
      have := (hagree ⟨_, hnul⟩ hlength).retraction
      rw [isRetraction_lateDisregard] at this
      exact isRetraction_lateDisregard_ne (by omega) this
    · -- the search runs over the largest `int`
      have h3 : 3 ≤ length := by
        have : 7 ≤ MemoryPattern.INT_MAX := by decide
        omega
      have hlength : (bareMy (length - 2)).length = length := by
        rw [bareMy, List.length_append, List.length_replicate]
        show 2 + (length - 2) = length
        omega
      have hnul : 0 ∉ bareMy (length - 2) := by
        rw [bareMy, List.mem_append, List.mem_replicate]
        rintro (h0 | ⟨-, h0⟩) <;> revert h0 <;> decide
      have := (hagree ⟨_, hnul⟩ hlength).extract 1 Nat.one_pos
      rw [extractPatterns_bareMy relTypeNormalize (by omega) (by omega) (by omega)] at this
      cases this
  · rintro hfits t rfl
    exact scannersAgree t.2 hfits hnormalize

/-- The module's own normal form in the place of the C one, on texts of forty bytes. -/
theorem extractors_agree_forty :
    (∀ t : CString, t.1.length = 40 → ScannersAgree normalizeRelType t.1) ↔ 40 + 4 ≤ MemoryPattern.INT_MAX :=
  extractors_agree_iff normalizeRelType (fun _ => rfl) 40

end AimeeMemory.Module
