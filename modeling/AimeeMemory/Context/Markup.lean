import AimeeMemory.Context.Hint

/-!
# The text helpers of the assembly

Escaping for markup, the tag of a section, and the test for two texts that say the same.
-/

namespace AimeeMemory.Context

open AimeeMemory.Core

/-- The entity of a markup character. -/
def entityOf (c : UInt8) : Option Text :=
  if c = 38 then some (text "&amp;")
  else if c = 60 then some (text "&lt;")
  else if c = 62 then some (text "&gt;")
  else if c = 34 then some (text "&quot;")
  else none

/-- The loop of `xml_escape_text` from what is written so far on. -/
def xmlEscapeLoop (dstLen : ℕ) : Text → Text → Text
  | dst, [] => dst
  | dst, c :: src =>
    if dst.length + 1 < dstLen then
      match entityOf c with
      | some rep => if dstLen ≤ dst.length + rep.length then dst else xmlEscapeLoop dstLen (dst ++ rep) src
      | none => xmlEscapeLoop dstLen (dst ++ [c]) src
    else dst

/-- `xml_escape_text` into a buffer of so many bytes. -/
def xmlEscapeText (src : Text) (dstLen : ℕ) : Text := xmlEscapeLoop dstLen [] src

/-- `context_xml_tag_for_header`. -/
def contextXmlTagForHeader (header : String) : Text :=
  if header = "Key Facts" then text "historical_fact"
  else if header = "Mental Models" then text "mental_model"
  else if header = "Constraints" then text "constraint"
  else if header = "Procedures" then text "procedure_memory"
  else if header = "Active Tasks" then text "active_task"
  else if header = "Recent Context" then text "recent_event"
  else text "memory_item"

/-- `context_split_tokens`: a token keeps 63 of its characters. -/
def contextSplitTokens (norm : Text) (maxTokens : ℕ) : List Text :=
  (((norm.splitOn 32).filter (· ≠ [])).map (·.take 63)).take maxTokens

/-! ## Restatements -/

/-- The hash of a token. -/
def tokenHash (token : Text) : UInt64 :=
  token.foldl (fun h c => (h ^^^ (tolower c).toUInt64) * 1099511628211) 1469598103934665603

/-- The tokens of letters and digits. -/
def alnumTokens (t : Text) : List Text := t.splitOnP fun c => !isalnum c

/-- `assemble_token_bits`: each token of three and more characters sets a bit. -/
def assembleTokenBits (t : Text) : BitVec 64 :=
  ((alnumTokens t).filter fun token => 3 ≤ token.length).foldl
    (fun bits token => bits ||| (1#64 <<< (tokenHash token &&& 63).toNat)) 0#64

def popcount (bits : BitVec 64) : ℕ := (List.range 64).countP (bits.getLsbD ·)

/-- `assemble_texts_near_duplicate`. -/
def assembleTextsNearDuplicate (a b : Text) : Bool :=
  let ba := assembleTokenBits a
  let bb := assembleTokenBits b
  if ba = 0 ∨ bb = 0 then false
  else if 56 ≤ popcount ba ∨ 56 ≤ popcount bb then false
  else if popcount (ba ||| bb) = 0 then false
  else popcount (ba ||| bb) * 85 ≤ popcount (ba &&& bb) * 100

end AimeeMemory.Context
