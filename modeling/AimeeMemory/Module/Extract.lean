import AimeeMemory.Module.Ontology

/-!
# The extractor of the module

`extract.go`: the classifier of structured values, the scan for a retraction, the attribute
of a possessive, and the one sentence template "my … is …". All of it reads the text by
index.

## What is proved

* `length_trimmedTo`: what is trimmed fits its buffer.
* `extractLoop_fuel`: the loop over the text ends by itself, before its bound does.
* **`extractPatterns_fits`**: every triple fits the buffers of the other side, and there are
  no more than were asked for.
-/

namespace AimeeMemory.Module

open AimeeMemory.Lib
open AimeeMemory.Core (Text text)

/-- A string of C: no byte of it is zero. -/
abbrev CString := { s : Text // (0 : UInt8) ∉ s }

/-- The byte of an ASCII character. -/
def ch (c : Char) : UInt8 := .ofNat c.toNat

/-- `s[i:j]`. -/
def slice (s : Text) (i j : ℕ) : Text := (s.take j).drop i

def isSpace (c : UInt8) : Bool := c = 32 ∨ c = 9 ∨ c = 10 ∨ c = 11 ∨ c = 12 ∨ c = 13

def isHex (c : UInt8) : Bool := isDigit c || (97 ≤ c ∧ c ≤ 102) || (65 ≤ c ∧ c ≤ 70)

def allDigits (s : Text) : Bool := s.all isDigit ∧ s.length > 0

/-! ## Structured values -/

/-- `ValueKind`. -/
inductive ValueKind where
  | none
  | ipv4
  | ipv6
  | mac
  | email
  | date
  deriving DecidableEq, Repr

/-- The digits of an octet from `t[i+n]` on: how many there are and their value. Four are
too many. -/
def octet (t : Text) : ℕ → ℕ → ℕ → ℕ → Option (ℕ × ℕ)
  | 0, _, n, val => some (n, val)
  | k + 1, i, n, val =>
    if i + n < t.length ∧ isDigit (byteAt t (i + n)) then
      if n + 1 > 3 then none
      else octet t k i (n + 1) (val * 10 + ((byteAt t (i + n)).toNat - 48))
    else some (n, val)

/-- The loop of `isIPv4`: whether the octets from `t[i]` on make four. -/
def isIPv4Loop (t : Text) : ℕ → ℕ → ℕ → Bool
  | 0, _, octets => octets = 4
  | k + 1, i, octets =>
    if i < t.length then
      match octet t 4 i 0 0 with
      | none => false
      | some (n, val) =>
        if n = 0 ∨ val > 255 then false
        else if i + n < t.length ∧ byteAt t (i + n) = ch '.' then isIPv4Loop t k (i + n + 1) (octets + 1)
        else if i + n < t.length then false
        else isIPv4Loop t k (i + n) (octets + 1)
    else octets = 4

/-- `isIPv4`: every turn of the loop reads a byte at least. -/
def isIPv4 (t : Text) : Bool := isIPv4Loop t t.length 0 0

/-- `isMAC`. -/
def isMAC (t : Text) : Bool :=
  let sep := byteAt t 2
  t.length = 17 ∧ (sep = ch ':' ∨ sep = ch '-') ∧
    (List.range 6).all fun g =>
      isHex (byteAt t (g * 3)) && isHex (byteAt t (g * 3 + 1)) && (g ≥ 5 || byteAt t (g * 3 + 2) = sep)

/-- The groups between colons, each of one to four digits: how many there are. -/
def ipv6Groups : Text → ℕ → ℕ → Option ℕ
  | [], groups, length => if length < 1 ∨ length > 4 then none else some (groups + 1)
  | c :: cs, groups, length =>
    if c = ch ':' then
      if length < 1 ∨ length > 4 then none else ipv6Groups cs (groups + 1) 0
    else ipv6Groups cs groups (length + 1)

/-- `isIPv6`. -/
def isIPv6 (t : Text) : Bool :=
  if ch ':' ∉ t then false
  else if !t.all fun c => isHex c || c = ch ':' then false
  else if text "::" <:+: t then true
  else ipv6Groups t 0 0 = some 8

/-- `strings.IndexByte`. -/
def indexByte (t : Text) (c : UInt8) : Option ℕ := t.findIdx? (· = c)

/-- `isEmail`. -/
def isEmail (t : Text) : Bool :=
  match indexByte t (ch '@') with
  | none => false
  | some at_ =>
    let domain := t.drop (at_ + 1)
    if at_ = 0 ∨ (indexByte domain (ch '@')).isSome then false
    else
      match indexByte domain (ch '.') with
      | none => false
      | some dot =>
        if dot = 0 ∨ dot = domain.length - 1 then false
        else t.all fun c => c = ch '@' || c = ch '.' || c = ch '-' || c = ch '_' || c = ch '+' || isAlnum c

/-- `isISODate`. -/
def isISODate (t : Text) : Bool :=
  if t.length ≠ 10 ∨ byteAt t 4 ≠ ch '-' ∨ byteAt t 7 ≠ ch '-' then false
  else if !allDigits (slice t 0 4) ∨ !allDigits (slice t 5 7) ∨ !allDigits (slice t 8 10) then false
  else
    let month := ((byteAt t 5).toNat - 48) * 10 + ((byteAt t 6).toNat - 48)
    let day := ((byteAt t 8).toNat - 48) * 10 + ((byteAt t 9).toNat - 48)
    month ≥ 1 ∧ month ≤ 12 ∧ day ≥ 1 ∧ day ≤ 31

/-- `ClassifyValue`. -/
def classifyValue (token : Text) : ValueKind :=
  if token = [] then .none
  else if isIPv4 token then .ipv4
  else if isMAC token then .mac
  else if isIPv6 token then .ipv6
  else if isEmail token then .email
  else if isISODate token then .date
  else .none

/-- `ValueNodeKind`. -/
def valueNodeKind : ValueKind → NodeKind
  | .ipv4 | .ipv6 => NodeIp
  | .mac | .email | .date => NodeScalar
  | .none => NodeOther

/-! ## Scans -/

/-- `ciFind`: the first index from `start` on where the needle sits. -/
def ciFind (haystack needle : Text) (start : ℕ) : Option ℕ :=
  if start > haystack.length then none
  else if needle = [] then some start
  else firstIndex (ciStartsAt haystack · needle) (haystack.length + 1 - needle.length - start) start

def retractionCues : List Text :=
  [text "forget that", text "forget about", text "forget my", text "forget what", text "delete that",
   text "delete the", text "that's wrong", text "thats wrong", text "that is wrong", text "no longer",
   text "scratch that", text "ignore that", text "never mind", text "nevermind", text "disregard"]

/-- `IsRetraction`. -/
def isRetraction (turn : Text) : Bool :=
  turn ≠ [] ∧ retractionCues.any fun cue => (ciFind turn cue 0).isSome

/-- `trimmedTo`: trimmed, then cut to `cap-1` bytes. -/
def trimmedTo (s : Text) (cap : ℕ) : Text :=
  if cap = 0 then []
  else
    let start := advance (fun i => isSpace (byteAt s i)) s.length 0
    let stop := retreat (fun i => isSpace (byteAt s i)) (s.length - start) s.length
    (slice s start stop).take (cap - 1)

/-- `isMyWord`. -/
def isMyWord (t : Text) (i : ℕ) : Bool :=
  if i + 1 ≥ t.length ∨ toLower (byteAt t i) ≠ ch 'm' ∨ toLower (byteAt t (i + 1)) ≠ ch 'y' then false
  else if i > 0 ∧ (isAlnum (byteAt t (i - 1)) ∨ byteAt t (i - 1) = underscore) then false
  else i + 2 < t.length ∧ isSpace (byteAt t (i + 2))

def attrMax : ℕ := 128
def valueMax : ℕ := 128

/-- The loop of `PossessiveAttr` over the attribute: where it ends. -/
def attrEnd (t : Text) : ℕ → ℕ → ℕ → Bool → ℕ
  | 0, stop, _, _ => stop
  | k + 1, stop, words, inWord =>
    let c := byteAt t stop
    if c = ch '.' ∨ c = ch '!' ∨ c = ch '?' ∨ c = 10 then stop
    else if c = ch ' ' then
      if ciStartsAt t stop (text " is ") ∨ ciStartsAt t stop (text " was ") then stop
      else if inWord then
        if words + 1 ≥ 3 then stop else attrEnd t k (stop + 1) (words + 1) false
      else attrEnd t k (stop + 1) words false
    else attrEnd t k (stop + 1) words true

/-- Behind a "my" at `i` and its spaces. -/
def attrStart (t : Text) (i : ℕ) : ℕ := advance (fun j => isSpace (byteAt t j)) (t.length - (i + 2)) (i + 2)

/-- `PossessiveAttr`. -/
def possessiveAttr (t : Text) : Text × Bool :=
  match firstIndex (isMyWord t) t.length 0 with
  | none => ([], false)
  | some i =>
    let start := attrStart t i
    let stop := attrEnd t (t.length - start) start 0 false
    let attr := trimmedTo (slice t start stop) attrMax
    (attr, attr ≠ [])

/-- `Triple`: a candidate fact. -/
structure Triple where
  subject : Text
  relType : Text
  object : Text
  subjectKind : NodeKind
  objectKind : NodeKind
  deriving DecidableEq, Repr

/-- A byte of a value that does not end it: a sentence ends at a newline, or at a mark with
whitespace or the end behind it. -/
def inValue (t : Text) (j : ℕ) : Bool :=
  let c := byteAt t j
  !(c = 10 || ((c = ch '.' || c = ch '!' || c = ch '?') && (j + 1 = t.length || isSpace (byteAt t (j + 1)))))

/-- Where the value that begins at `valStart` ends. -/
def valueEnd (t : Text) (valStart : ℕ) : ℕ := advance (inValue t) (t.length - valStart) valStart

/-- The loop of `ExtractPatterns`, in at most `k` turns. -/
def extractLoop (t : Text) (max : ℕ) : ℕ → ℕ → List Triple → List Triple
  | 0, _, triples => triples
  | k + 1, i, triples =>
    if i < t.length ∧ triples.length < max then
      if !isMyWord t i then extractLoop t max k (i + 1) triples
      else
        match ciFind t (text " is ") (attrStart t i) with
        | none => extractLoop t max k (i + 1) triples
        | some isPos =>
          let valEnd := valueEnd t (isPos + 4)
          let attr := trimmedTo (slice t (attrStart t i) isPos) attrMax
          let value := trimmedTo (slice t (isPos + 4) valEnd) valueMax
          if attr = [] ∨ value = [] then extractLoop t max k (valEnd + 1) triples
          else
            let relType := normalizeRelType attr
            if relType = [] then extractLoop t max k (valEnd + 1) triples
            else
              extractLoop t max k (valEnd + 1) (triples ++
                [{ subject := text "user", relType, object := value, subjectKind := NodePerson,
                   objectKind := valueNodeKind (classifyValue value) }])
    else triples

/-- `ExtractPatterns`: every turn of the loop moves on in the text. -/
def extractPatterns (t : Text) (max : ℕ) : List Triple :=
  if max = 0 then [] else extractLoop t max t.length 0 []

/-! ## What comes out -/

/-- A slice behind what precedes it. -/
theorem slice_append_right (s u : Text) (i j : ℕ) : slice (s ++ u) (s.length + i) (s.length + j) = slice u i j := by
  rw [slice, slice, List.take_length_add_append, List.drop_append, List.drop_eq_nil_of_le (by omega),
    List.nil_append, Nat.add_sub_cancel_left]

theorem slice_prefix (s u : Text) : slice (s ++ u) 0 s.length = s := by
  rw [slice, List.take_left, List.drop_zero]

theorem slice_self (s : Text) : slice s 0 s.length = s := by
  simp [slice]

/-- What follows a slice does not change it. -/
theorem slice_append_left {s : Text} {i j : ℕ} (u : Text) (h : j ≤ s.length) : slice (s ++ u) i j = slice s i j := by
  rw [slice, slice, List.take_append_of_le_length h]

theorem slice_subset (s : Text) (i j : ℕ) : slice s i j ⊆ s :=
  fun _ h => List.mem_of_mem_take (List.mem_of_mem_drop h)

theorem trimmedTo_subset (s : Text) (cap : ℕ) : trimmedTo s cap ⊆ s := by
  rw [trimmedTo]
  split
  · simp
  · exact fun _ h => slice_subset _ _ _ (List.mem_of_mem_take h)

theorem length_trimmedTo {cap : ℕ} (s : Text) (h : 0 < cap) : (trimmedTo s cap).length < cap := by
  rw [trimmedTo, if_neg (by omega)]
  simp only [List.length_take]
  omega

/-- Behind a "my" the text goes on. -/
theorem lt_of_isMyWord {t : Text} {i : ℕ} (h : isMyWord t i = true) : i + 2 < t.length := by
  simp only [isMyWord] at h
  grind

/-- A triple as the template writes it from the bytes of a text. -/
structure Extracted (t : Text) (triple : Triple) : Prop where
  subject : triple.subject = text "user"
  relType : ∃ attr, triple.relType = normalizeRelType attr
  object : ∃ value, triple.object = trimmedTo value valueMax ∧ value ⊆ t
  subjectKind : triple.subjectKind = NodePerson
  objectKind : ∃ kind, triple.objectKind = valueNodeKind kind

theorem ciFind_le {haystack needle : Text} {start j : ℕ} (h : ciFind haystack needle start = some j) :
    start ≤ j := by
  rw [ciFind] at h
  split at h
  · cases h
  · split at h
    · cases h
      exact le_rfl
    · exact (firstIndex_eq_some h).1

/-- One turn of the loop keeps what holds of each triple, and the bound on their number. -/
theorem extractLoop_extracted {t : Text} {k i : ℕ} (max : ℕ) {triples : List Triple}
    (h : ∀ x ∈ triples, Extracted t x) (hlen : triples.length ≤ max) :
    (∀ x ∈ extractLoop t max k i triples, Extracted t x) ∧ (extractLoop t max k i triples).length ≤ max := by
  induction k generalizing i triples with
  | zero => exact ⟨h, hlen⟩
  | succ k ih =>
    rw [extractLoop]
    split
    · rename_i hturn
      split
      · exact ih h hlen
      · split
        · exact ih h hlen
        · simp only
          split
          · exact ih h hlen
          · split
            · exact ih h hlen
            · refine ih ?_ (by simp; omega)
              intro x hx
              rcases List.mem_append.1 hx with hx | hx
              · exact h x hx
              · rw [List.mem_singleton.1 hx]
                exact ⟨rfl, ⟨_, rfl⟩, ⟨_, rfl, slice_subset _ _ _⟩, rfl, ⟨_, rfl⟩⟩
    · exact ⟨h, hlen⟩

/-- The loop moves on in the text at every turn: with a turn for each byte that is left, more
turns change nothing. -/
theorem extractLoop_fuel {t : Text} {max k i : ℕ} {triples : List Triple} (h : t.length ≤ i + k) :
    extractLoop t max (k + 1) i triples = extractLoop t max k i triples := by
  induction k generalizing i triples with
  | zero => rw [extractLoop, extractLoop, if_neg (by omega)]
  | succ k ih =>
    rw [extractLoop]
    conv_rhs => rw [extractLoop]
    have hnext {j : ℕ} {ts : List Triple} (hj : i < j) : extractLoop t max (k + 1) j ts = extractLoop t max k j ts :=
      ih (by omega)
    split
    · split
      · exact hnext (by omega)
      · split
        · exact hnext (by omega)
        · rename_i isPos hpos
          -- the value lies behind the possessive, and the next turn behind the value
          have hstart : i + 2 ≤ attrStart t i := le_advance
          have hfind := ciFind_le hpos
          have hval : isPos + 4 ≤ valueEnd t (isPos + 4) := le_advance
          simp only
          rw [hnext (by omega), hnext (by omega)]
    · rfl

/-- **What `ExtractPatterns` returns fits**: no more triples than were asked for, each field
shorter than its buffer on the other side, and none with a zero byte the text has not. -/
theorem extractPatterns_fits (t : Text) (max : ℕ) :
    (extractPatterns t max).length ≤ max ∧
      ∀ x ∈ extractPatterns t max, x.subject.length < 128 ∧ x.relType.length < 64 ∧ x.object.length < 128 ∧
        (0 ∉ t → 0 ∉ x.subject ∧ 0 ∉ x.relType ∧ 0 ∉ x.object) := by
  rw [extractPatterns]
  split
  · simp
  · obtain ⟨hall, hlen⟩ := extractLoop_extracted (t := t) (k := t.length) (i := 0) max (List.forall_mem_nil _) (Nat.zero_le max)
    refine ⟨hlen, fun x hx => ?_⟩
    obtain ⟨hsubject, ⟨attr, hrel⟩, ⟨value, hobj, hval⟩, -, -⟩ := hall x hx
    refine ⟨by rw [hsubject]; decide, ?_, ?_, fun hnul => ⟨by rw [hsubject]; decide, ?_, fun h0 => ?_⟩⟩
    · rw [hrel]
      have := length_normalizeRelType attr
      simp only [relTypeNameMax] at this
      omega
    · rw [hobj]
      exact length_trimmedTo _ (by decide)
    · rw [hrel]
      exact zero_notMem_of_joined (normalizeRelType_joined attr)
    · rw [hobj] at h0
      exact hnul (hval (trimmedTo_subset _ _ h0))

/-- The attribute of a possessive fits its buffer, is there exactly where it is announced, and
has no zero byte the text has not. -/
theorem possessiveAttr_fits (t : Text) :
    (possessiveAttr t).1.length < attrMax ∧ ((possessiveAttr t).2 = true ↔ (possessiveAttr t).1 ≠ []) ∧
      (0 ∉ t → 0 ∉ (possessiveAttr t).1) := by
  rw [possessiveAttr]
  split
  · exact ⟨by decide, by simp, by simp⟩
  · simp only
    refine ⟨length_trimmedTo _ (show 0 < attrMax by decide), by simp, fun hnul h0 => ?_⟩
    exact hnul (slice_subset _ _ _ (trimmedTo_subset _ _ h0))

end AimeeMemory.Module
