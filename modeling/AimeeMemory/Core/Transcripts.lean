import AimeeMemory.Lib.Trace
import AimeeMemory.Core.Gate
import AimeeMemory.Core.Json
import Mathlib.Data.List.Infix
import Mathlib.Data.List.Lex

/-!
# The scan of transcripts

`memory_scan.c`: `scan_file` reads the lines of a `.jsonl` transcript that it has not read
before, gathers their messages into windows, and stores each window through db1;
`memory_scan_conversations` walks directories and scans the files in them. Where a file is
taken up again is one line number, which db1 answers for the session, and the session is
the name of the directory.

## What is proved

* **`scannedOnce_iff`**: over any number of runs, with files that only grow, each message
  line is in exactly one window at every time, and a file that has not changed adds none,
  exactly when the line number that db1 answers tells the lines already read of each
  scanned file from the others.
* `no_store_resumes`: no db1 gives such answers for all files.
* `rescan_duplicates`: with a db1 that counts the windows of a session, the second scan of
  a file stores its lines again.

## Honest scope

db1 is a store whose answers are determined by the calls made to it, so its two functions
that answer take the history of calls. The six weak functions are there, files can be
opened, memory can be allocated, lines are shorter than `MAX_LINE_LEN` and paths than
`MAX_PATH_LEN`. The JSON parser, the tokenizer and the clock are parameters. The edges that
`memory_extract_edges` writes go to another database and are left out.
-/

namespace AimeeMemory.Core

open AimeeMemory.Lib

/-- `strstr`: what begins with the first occurrence of a needle. -/
def strstr (haystack needle : Text) : Option Text := haystack.tails.find? (needle <+: ·)

section strstr

variable {haystack needle found tail tail' : Text}

theorem strstr_cons (c : UInt8) (haystack needle : Text) :
    strstr (c :: haystack) needle = if needle <+: c :: haystack then some (c :: haystack) else strstr haystack needle := by
  rw [strstr, List.tails, List.find?_cons]
  split_ifs with h
  · rw [decide_eq_true h]
  · rw [decide_eq_false h]
    rfl

theorem strstr_isSome : (strstr haystack needle).isSome ↔ needle <:+: haystack := by
  rw [strstr, List.find?_isSome, List.infix_iff_prefix_suffix]
  constructor
  · rintro ⟨t, ht, hneedle⟩
    exact ⟨t, of_decide_eq_true hneedle, (List.mem_tails _ _).1 ht⟩
  · rintro ⟨t, hneedle, ht⟩
    exact ⟨t, (List.mem_tails _ _).2 ht, decide_eq_true hneedle⟩

/-- What is found stands somewhere in the text, and begins with the needle. -/
theorem of_strstr (h : strstr haystack needle = some found) : needle <+: found ∧ found <:+ haystack := by
  rw [strstr] at h
  exact ⟨by simpa using List.find?_some h, (List.mem_tails _ _).1 (List.mem_of_find?_eq_some h)⟩

/-- Where a needle is found does not depend on what follows it. -/
theorem strstr_tail (before : Text) (h : strstr (before ++ (needle ++ tail)) needle = some (needle ++ tail)) :
    strstr (before ++ (needle ++ tail')) needle = some (needle ++ tail') := by
  induction before with
  | nil =>
    apply List.find?_eq_some_iff_append.2
    refine ⟨decide_eq_true (List.prefix_append _ _), [], (needle ++ tail').tails.tail, ?_, by simp⟩
    cases needle ++ tail' <;> rfl
  | cons c before ih =>
    rw [List.cons_append, strstr_cons] at h ⊢
    split_ifs at h with hhere
    · -- the whole text would be shorter than itself
      exact absurd (congrArg List.length (Option.some.inj h)) (by simp; omega)
    · rw [if_neg, ih h]
      intro hthere
      apply hhere
      have hlen : needle.length ≤ (c :: before ++ needle).length := by
        rw [List.length_append]
        omega
      rw [← List.cons_append, ← List.append_assoc] at hthere ⊢
      exact ((List.isPrefix_append_of_length hlen).1 hthere).trans (List.prefix_append _ _)

/-- What is found is at the first place of the needle. -/
theorem strstr_first (h : strstr haystack needle = some found) :
    ∃ i ≤ haystack.length, found = haystack.drop i ∧ needle <+: found ∧ ∀ j < i, ¬needle <+: haystack.drop j := by
  induction haystack with
  | nil =>
    obtain ⟨hneedle, hfound⟩ := of_strstr h
    exact ⟨0, le_rfl, List.suffix_nil.1 hfound, hneedle, fun j hj => absurd hj (Nat.not_lt_zero j)⟩
  | cons c haystack ih =>
    rw [strstr_cons] at h
    split_ifs at h with hhere
    · cases h
      exact ⟨0, Nat.zero_le _, rfl, hhere, fun j hj => absurd hj (Nat.not_lt_zero j)⟩
    · obtain ⟨i, hi, hfound, hneedle, hfirst⟩ := ih h
      refine ⟨i + 1, Nat.succ_le_succ hi, hfound, hneedle, fun j hj => ?_⟩
      cases j with
      | zero => exact hhere
      | succ j => exact hfirst j (Nat.lt_of_succ_lt_succ hj)

theorem strstr_eq_none (h : strstr haystack needle = none) (i : ℕ) : ¬needle <+: haystack.drop i := by
  intro hneedle
  have hsome := strstr_isSome.2 (hneedle.isInfix.trans (List.drop_suffix i haystack).isInfix)
  rw [h] at hsome
  exact absurd hsome (by decide)

end strstr

/-! ## The lines of a transcript -/

/-- The path that is being read, and the byte before the next one. -/
structure RefScan where
  before : Option UInt8 := none
  path : Option Text := none
  refs : List Text := []

/-- The end of a path: it is kept where it is of some length and has an extension. -/
def RefScan.close (maxPathLen : ℕ) (r : RefScan) : RefScan :=
  match r.path with
  | none => r
  | some path =>
    { r with
      path := none
      refs :=
        if 3 < path.length ∧ path.length < maxPathLen ∧ text "." <:+: path then r.refs ++ [path] else r.refs }

def RefScan.step (maxPathLen max : ℕ) (r : RefScan) (c : UInt8) : RefScan :=
  if max ≤ r.refs.length then r
  else
    match r.path with
    | some path =>
      if isspace c ∨ [c] ∈ ["\"", "'", ")", "]", ">"].map text then { r.close maxPathLen with before := some c }
      else { r with path := some (path ++ [c]), before := some c }
    | none =>
      if [c] = text "/" ∧ r.before.all (fun b => isspace b ∨ [b] = text "\"" ∨ [b] = text "'") then
        { r with path := some [c], before := some c }
      else { r with before := some c }

/-- `extract_file_refs`: at most `max` paths. -/
def extractFileRefs (maxPathLen max : ℕ) (line : Text) : List Text :=
  let r := line.foldl (RefScan.step maxPathLen max) {}
  (r.close maxPathLen).refs

/-- `is_compaction_marker`. -/
def isCompactionMarker (line : Text) : Bool :=
  (strstr line (text "\"type\":\"summary\"")).isSome || (strstr line (text "[compacted]")).isSome

/-- `is_tool_decision`: the description of a Write or an Edit. -/
def isToolDecision (descLen : ℕ) (line : Text) : Option Text :=
  let isWrite : Bool :=
    match strstr line (text "\"name\":") with
    | some named => (strstr named (text "\"Write\"")).isSome || (strstr named (text "\"Edit\"")).isSome
    | none => false
  if (strstr line (text "\"tool_use\"")).isSome ∧ isWrite then
    match strstr line (text "\"file_path\":") with
    | some found =>
      let path := ((found.drop 13).dropWhile fun c => [c] = text " " ∨ [c] = text "\"").takeWhile
        fun c => [c] ≠ text "\"" ∧ [c] ≠ text ","
      if 0 < path.length ∧ path.length + 16 < descLen then some ((text "Write/Edit: " ++ path).take (descLen - 1))
      else some (text "Write/Edit tool call")
    | none => some (text "Write/Edit tool call")
  else none

/-- `scan_append_text`. -/
def scanAppendText (buf add : Text) : Text :=
  if add = [] then buf else if buf = [] then add else buf ++ text " " ++ add

mutual

/-- `scan_collect_content_text`. -/
def scanCollectContentText (buf : Text) : Json → Text
  | .str s => scanAppendText buf s
  | .arr items => scanCollectItems buf items
  | .obj fields =>
    match ["text", "output", "result"].findSome? (Json.obj fields).text? with
    | some s => scanAppendText buf s
    | none => buf
  | .num _ | .other => buf

def scanCollectItems (buf : Text) : List Json → Text
  | [] => buf
  | item :: items => scanCollectItems (scanCollectContentText buf item) items

end

/-- `scan_message_role`. -/
def scanMessageRole (msg : Json) : Text :=
  match msg.text? "role" with
  | some (c :: role) => c :: role
  | _ =>
    match (msg.field? "author").bind (·.text? "role") with
    | some (c :: role) => c :: role
    | _ => text "message"

def Json.isObject : Json → Bool
  | .obj _ => true
  | _ => false

/-- Where the content of a message is: the message, its content, and the role where the
form of the line gives it. -/
def scanFindContent (root : Json) : Option (Json × Json × Text) :=
  let nested := ((root.field? "message").filter Json.isObject) <|> ((root.field? "item").filter Json.isObject)
  let completed := do
    let item ← (← root.field? "params").field? "item"
    let type ← item.text? "type"
    let content ← item.field? "text"
    if root.text? "method" = some (text "item/completed") ∧
        (type = text "agentMessage" ∨ type = text "userMessage") then
      some (item, content, if type = text "agentMessage" then text "assistant" else text "user")
    else none
  match root.field? "content" with
  | some content => some (root, content, [])
  | none =>
    match nested.bind fun msg => (msg.field? "content").map (msg, ·) with
    | some (msg, content) => some (msg, content, [])
    | none => completed

/-- `scan_extract_message_text`, of a parsed line: the role and the text. -/
def scanExtractMessageText (root : Json) : Option (Text × Text) := do
  let (msg, content, role) ← scanFindContent root
  let buf := scanCollectContentText [] content
  if buf = [] then none
  else some (if role = [] then (scanMessageRole msg).take 15 else role, buf)

/-! ## The scanner -/

/-- A call that changes db1. -/
inductive Db1Call where
  | windowCreateRaw (session : Text) (seq : ℤ) (summary ts : Text)
  | decisionRecord (windowId : ℤ) (desc ts : Text)
  | windowAddTerm (windowId : ℤ) (term : Text)
  | windowAddFile (windowId : ℤ) (path : Text)
  | windowIndexSummary (windowId : ℤ) (summary : Text)
  deriving DecidableEq, Repr

/-- What the scanner runs on. -/
structure ScanEnv where
  /-- `cJSON_Parse`. -/
  parse : Text → Option Json
  /-- `tokenize_for_search`, with the number of terms that there is room for. -/
  tokenizeForSearch : Text → ℕ → List Text
  maxPathLen : ℕ
  /-- `now_utc`, after these calls. -/
  nowUtc : List Db1Call → Text
  /-- `db1_windows_session_scan_state`, after these calls: the number of windows of a
  session, and the last line that was read of it. -/
  sessionScanState : List Db1Call → Text → ℤ × ℤ
  /-- The id that `db1_window_create_raw` returns. -/
  windowCreateRaw : List Db1Call → Text → ℤ → Text → Text → ℤ

/-- `scan_message_part_t`. The line that it was read from is for the proof only. -/
structure MessagePart where
  role : Text
  text : Text
  line : ℕ
  deriving DecidableEq, Repr

/-- A window that db1 has taken, with the file it was read from and its messages. -/
structure StoredWindow where
  path : Text
  messages : List MessagePart
  deriving DecidableEq, Repr

/-- `scan_add_message_part`. -/
def scanAddMessagePart (parts : List MessagePart) (role txt : Text) (line : ℕ) : List MessagePart :=
  if 64 ≤ parts.length then parts
  else parts ++ [⟨if role = [] then text "message" else role.take 15, txt, line⟩]

/-- `scan_build_combined_messages`, in a buffer of `combinedLen` bytes. -/
def scanBuildCombinedMessages (combinedLen : ℕ) (combined : Text) : List MessagePart → Text
  | [] => combined
  | part :: parts =>
    if part.text = [] then scanBuildCombinedMessages combinedLen combined parts
    else
      let space := combinedLen - combined.length
      let wrote := (if combined ≠ [] then text "\n" else []) ++ part.role ++ text ": " ++ part.text
      if space ≤ 1 then combined
      else if space ≤ wrote.length then combined ++ wrote.take (space - 1)
      else scanBuildCombinedMessages combinedLen (combined ++ wrote) parts

/-- What `scan_file` holds between two lines. -/
structure ScanLoop where
  calls : List Db1Call
  stored : List StoredWindow
  seq : ℤ
  lineNum : ℕ := 0
  windowStart : ℤ
  messages : List MessagePart := []
  fileRefs : List Text := []
  decisions : List Text := []

variable (env : ScanEnv)

/-- The end of a window: it goes to db1, and the next one begins behind it. -/
def ScanLoop.flush (session path : Text) (r : ScanLoop) : ScanLoop :=
  let combined := scanBuildCombinedMessages 4096 [] r.messages
  let terms := env.tokenizeForSearch combined 128
  let summary := combined.take 200
  let ts := env.nowUtc r.calls
  let windowId := env.windowCreateRaw r.calls session (r.seq + 1) summary ts
  let created := r.calls ++ [.windowCreateRaw session (r.seq + 1) summary ts]
  let taken : Bool := 0 < windowId
  { calls :=
      if taken then
        created ++ r.decisions.map (.decisionRecord windowId · ts) ++ terms.map (.windowAddTerm windowId) ++
          r.fileRefs.map (.windowAddFile windowId) ++ [.windowIndexSummary windowId summary]
      else created
    stored := if taken then r.stored ++ [⟨path, r.messages⟩] else r.stored
    seq := r.seq + 1
    lineNum := r.lineNum
    windowStart := r.lineNum + 1 }

/-- A line that is taken up. -/
def ScanLoop.take (line : Text) (r : ScanLoop) : ScanLoop :=
  { r with
    messages :=
      match (env.parse line).bind scanExtractMessageText with
      | some (role, txt) => scanAddMessagePart r.messages role txt r.lineNum
      | none => r.messages
    fileRefs := r.fileRefs ++ (extractFileRefs env.maxPathLen 16 line).take (128 - r.fileRefs.length)
    decisions :=
      match isToolDecision 256 line with
      | some desc => if r.decisions.length < 16 then r.decisions ++ [desc] else r.decisions
      | none => r.decisions }

/-- A turn of the loop of `scan_file`. -/
def ScanLoop.line (session path : Text) (maxEndLine : ℤ) (r : ScanLoop) (line : Text) : ScanLoop :=
  let r := { r with lineNum := r.lineNum + 1 }
  if r.lineNum ≤ maxEndLine then r
  else if isCompactionMarker line then r
  else
    let r := r.take env line
    if 20 ≤ r.lineNum - r.windowStart + 1 ∨ 10 ≤ r.messages.length then r.flush env session path else r

/-- db1, its windows, and what each file held when it was scanned last. -/
structure Scanner where
  calls : List Db1Call := []
  stored : List StoredWindow := []
  /-- For the proof only. -/
  known : Text → List Text := fun _ => []

/-- A file that the walk comes to. -/
structure Visit where
  session : Text
  path : Text
  lines : List Text
  deriving DecidableEq, Repr

/-- `scan_file`. -/
def scanFile (s : Scanner) (v : Visit) : Scanner :=
  let (existingCount, maxEndLine) := env.sessionScanState s.calls v.session
  let r := v.lines.foldl (ScanLoop.line env v.session v.path maxEndLine)
    { calls := s.calls, stored := s.stored, seq := existingCount, windowStart := maxEndLine + 1 }
  -- what is left is a window of its own
  let r := if r.messages ≠ [] ∨ r.fileRefs ≠ [] then r.flush env v.session v.path else r
  ⟨r.calls, r.stored, fun path => if path = v.path then v.lines else s.known path⟩

/-- What `stat` and `readdir` show. -/
inductive DirEntry where
  | regular (lines : List Text)
  | directory (entries : List (Text × DirEntry))
  | other

/-- The session of the files in a directory: what is behind the last slash of its path. -/
def sessionIdOf (dirPath : Text) : Text := (dirPath.rtakeWhile fun c => [c] ≠ text "/").take 127

mutual

/-- `walk_dir`. -/
def walkDir (s : Scanner) (dirPath : Text) : List (Text × DirEntry) → Scanner
  | [] => s
  | (name, entry) :: entries => walkDir (walkEntry s dirPath name entry) dirPath entries

/-- An entry of a directory. -/
def walkEntry (s : Scanner) (dirPath name : Text) : DirEntry → Scanner
  | .directory entries =>
    if text "." <+: name then s else walkDir s (dirPath ++ text "/" ++ name) entries
  | .regular lines =>
    if text "." <+: name then s
    else if text ".jsonl" <:+ name then scanFile env s ⟨sessionIdOf dirPath, dirPath ++ text "/" ++ name, lines⟩
    else s
  | .other => s

end

/-- `memory_scan_conversations`, of the directories that exist. -/
def memoryScanConversations (s : Scanner) (dirs : List (Text × List (Text × DirEntry))) : Scanner :=
  dirs.foldl (fun s dir => walkDir env s dir.1 dir.2) s

/-! ## Each line in one window -/

variable {env} {s : Scanner} {v : Visit} {r : ScanLoop} {session path : Text} {m : ℤ}

/-- A line that has a message and is no compaction marker. -/
def IsMessageLine (env : ScanEnv) (line : Text) : Prop :=
  isCompactionMarker line = false ∧ ((env.parse line).bind scanExtractMessageText).isSome

instance (line : Text) : Decidable (IsMessageLine env line) := instDecidableAnd

/-- The lines that windows hold, each with its file and its number. -/
def linesOf (ws : List StoredWindow) : List (Text × ℕ) := ws.flatMap fun w => w.messages.map (w.path, ·.line)

/-- The last line that db1 says was read of the session of a file. -/
def Visit.maxEndLine (env : ScanEnv) (s : Scanner) (v : Visit) : ℤ := (env.sessionScanState s.calls v.session).2

/-- db1 takes every window. -/
def ScanEnv.Creates (env : ScanEnv) : Prop :=
  ∀ calls session seq summary ts, 0 < env.windowCreateRaw calls session seq summary ts

/-- A transcript is only appended to. -/
def OnlyGrows (s : Scanner) (v : Visit) : Prop := s.known v.path <+: v.lines

/-- Each message line that was there when its file was scanned last is in one window, once. -/
def EachLineOnce (env : ScanEnv) (s : Scanner) : Prop :=
  ∀ path i line, (s.known path)[i]? = some line → IsMessageLine env line → (linesOf s.stored).count (path, i + 1) = 1

/-- After a file has been scanned each message line is in one window, and a file that has not
changed has added none. -/
structure ScannedOnce (env : ScanEnv) (s : Scanner) (v : Visit) : Prop where
  once : EachLineOnce env (scanFile env s v)
  unchanged : s.known v.path = v.lines → (scanFile env s v).stored = s.stored

/-- The line number that db1 answers is behind the message lines of the file that were there
when it was scanned last, and before the others; where the file has not changed, no file is
named behind it, and no line comes twenty lines later. -/
structure Resumes (env : ScanEnv) (s : Scanner) (v : Visit) : Prop where
  messages : ∀ (i : ℕ) line, v.lines[i]? = some line → IsMessageLine env line →
    (i < v.maxEndLine env s ↔ i < (s.known v.path).length)
  unchanged : s.known v.path = v.lines → ∀ (i : ℕ) line, v.lines[i]? = some line → v.maxEndLine env s ≤ i →
    isCompactionMarker line = false → extractFileRefs env.maxPathLen 16 line = [] ∧ i + 1 < v.maxEndLine env s + 20

/-- The message lines that a scan takes up, where the line before them has number `k`. -/
def freshLines (env : ScanEnv) (path : Text) (m : ℤ) : ℕ → List Text → List (Text × ℕ)
  | _, [] => []
  | k, line :: lines =>
    (if m ≤ k ∧ IsMessageLine env line then [(path, k + 1)] else []) ++ freshLines env path m (k + 1) lines

/-- The lines in the windows and in the open one. -/
def ScanLoop.held (path : Text) (r : ScanLoop) : List (Text × ℕ) :=
  linesOf r.stored ++ r.messages.map (path, ·.line)

theorem linesOf_append (ws ws' : List StoredWindow) : linesOf (ws ++ ws') = linesOf ws ++ linesOf ws' :=
  List.flatMap_append

/-- A flush moves the open window to the stored ones. -/
theorem ScanLoop.flush_stored (hcreates : env.Creates) :
    (r.flush env session path).stored = r.stored ++ [⟨path, r.messages⟩] := by
  have := hcreates r.calls session (r.seq + 1)
  simp [flush, this]

theorem ScanLoop.flush_held (hcreates : env.Creates) : (r.flush env session path).held path = r.held path := by
  rw [held, held, flush_stored hcreates, linesOf_append]
  simp [flush, linesOf]

theorem ScanLoop.take_messages (line : Text) (h : r.messages.length < 64) :
    (r.take env line).messages.map (path, ·.line) = r.messages.map (path, ·.line) ++
      if ((env.parse line).bind scanExtractMessageText).isSome then [(path, r.lineNum)] else [] := by
  cases hmsg : (env.parse line).bind scanExtractMessageText with
  | none => simp [ScanLoop.take, hmsg]
  | some msg => simp [ScanLoop.take, hmsg, scanAddMessagePart, Nat.not_le.2 h]

/-- A line that is not taken up only moves the line number. -/
theorem ScanLoop.line_of_skip {line : Text} (h : (r.lineNum + 1 : ℕ) ≤ m ∨ isCompactionMarker line) :
    r.line env session path m line = { r with lineNum := r.lineNum + 1 } := by
  unfold ScanLoop.line
  rcases h with h | h
  · exact if_pos h
  · simp only [h, if_true, ite_self]

theorem ScanLoop.line_of_take {line : Text} (h : ¬ ((r.lineNum + 1 : ℕ) ≤ m)) (hmark : isCompactionMarker line = false) :
    r.line env session path m line =
      let r' := ({ r with lineNum := r.lineNum + 1 } : ScanLoop).take env line
      if 20 ≤ r'.lineNum - r'.windowStart + 1 ∨ 10 ≤ r'.messages.length then r'.flush env session path else r' := by
  unfold ScanLoop.line
  rw [if_neg h, hmark]
  rfl

@[simp] theorem ScanLoop.take_lineNum (line : Text) : (r.take env line).lineNum = r.lineNum := rfl
@[simp] theorem ScanLoop.take_stored (line : Text) : (r.take env line).stored = r.stored := rfl
@[simp] theorem ScanLoop.take_windowStart (line : Text) : (r.take env line).windowStart = r.windowStart := rfl
@[simp] theorem ScanLoop.flush_lineNum : (r.flush env session path).lineNum = r.lineNum := rfl
@[simp] theorem ScanLoop.flush_messages : (r.flush env session path).messages = [] := rfl

theorem ScanLoop.line_lineNum (line : Text) : (r.line env session path m line).lineNum = r.lineNum + 1 := by
  by_cases hskip : (r.lineNum + 1 : ℕ) ≤ m ∨ isCompactionMarker line
  · rw [line_of_skip hskip]
  · rw [not_or, Bool.not_eq_true] at hskip
    rw [line_of_take hskip.1 hskip.2]
    simp only
    split <;> simp

/-- The open window has fewer than ten messages when a line is read, so none is turned away. -/
theorem ScanLoop.line_messages_length (line : Text) (h : r.messages.length < 10) :
    (r.line env session path m line).messages.length < 10 := by
  by_cases hskip : (r.lineNum + 1 : ℕ) ≤ m ∨ isCompactionMarker line
  · rw [line_of_skip hskip]
    exact h
  · rw [not_or, Bool.not_eq_true] at hskip
    rw [line_of_take hskip.1 hskip.2]
    simp only
    split
    · exact Nat.zero_lt_succ _
    · rename_i hflush
      exact Nat.lt_of_not_le fun hten => hflush (.inr hten)

/-- A turn of the loop takes up the line's message where the line is behind the last one read. -/
theorem ScanLoop.line_held (hcreates : env.Creates) (line : Text) (h : r.messages.length < 10) :
    (r.line env session path m line).held path =
      r.held path ++ if m ≤ r.lineNum ∧ IsMessageLine env line then [(path, r.lineNum + 1)] else [] := by
  by_cases hskip : (r.lineNum + 1 : ℕ) ≤ m ∨ isCompactionMarker line
  · rw [line_of_skip hskip, if_neg, List.append_nil]
    · rfl
    · rintro ⟨hm, hmark, -⟩
      rcases hskip with hskip | hskip
      · push_cast at hskip
        omega
      · simp [hmark] at hskip
  · rw [not_or, Bool.not_eq_true] at hskip
    have htake : (({ r with lineNum := r.lineNum + 1 } : ScanLoop).take env line).held path = r.held path ++
        if ((env.parse line).bind scanExtractMessageText).isSome then [(path, r.lineNum + 1)] else [] := by
      rw [held, take_messages line (by simp only; omega), ← List.append_assoc]
      rfl
    have hm : m ≤ r.lineNum := by
      have := hskip.1
      push_cast at this
      omega
    rw [line_of_take hskip.1 hskip.2]
    simp only [hm, IsMessageLine, hskip.2, true_and]
    split
    · rw [flush_held hcreates]
      exact htake
    · exact htake

variable (session path m) in
theorem ScanLoop.foldl_line_held (hcreates : env.Creates) (lines : List Text) (r : ScanLoop)
    (h : r.messages.length < 10) :
    (lines.foldl (ScanLoop.line env session path m) r).held path = r.held path ++ freshLines env path m r.lineNum lines := by
  induction lines generalizing r with
  | nil => simp [freshLines]
  | cons line lines ih =>
    rw [List.foldl_cons, ih _ (line_messages_length line h), line_held hcreates line h, line_lineNum, freshLines,
      List.append_assoc]

/-- A scan stores the message lines of a file behind the last one that db1 says was read. -/
theorem scanFile_stored (hcreates : env.Creates) (s : Scanner) (v : Visit) :
    linesOf (scanFile env s v).stored =
      linesOf s.stored ++ freshLines env v.path (v.maxEndLine env s) 0 v.lines := by
  have hloop := ScanLoop.foldl_line_held v.session v.path (v.maxEndLine env s) hcreates v.lines
    ⟨s.calls, s.stored, (env.sessionScanState s.calls v.session).1, 0, v.maxEndLine env s + 1, [], [], []⟩
    (Nat.zero_lt_succ _)
  simp only [ScanLoop.held, List.map_nil, List.append_nil] at hloop
  rw [← hloop]
  simp only [scanFile, Visit.maxEndLine]
  split
  · rw [ScanLoop.flush_stored hcreates, linesOf_append]
    simp [linesOf]
  · rename_i hleft
    rw [not_or, not_not] at hleft
    rw [hleft.1, List.map_nil, List.append_nil]

theorem count_freshLines (i k : ℕ) (lines : List Text) :
    (freshLines env path m k lines).count (path, i + 1) =
      if k ≤ i ∧ m ≤ i ∧ lines[i - k]?.any (IsMessageLine env ·) then 1 else 0 := by
  induction lines generalizing k with
  | nil => simp [freshLines]
  | cons line lines ih =>
    rw [freshLines, List.count_append, ih]
    rcases Nat.lt_trichotomy i k with hlt | rfl | hgt
    · have hne : (path, k + 1) ≠ (path, i + 1) := by simp; omega
      have hk : ¬ k + 1 ≤ i := by omega
      have hk' : ¬ k ≤ i := by omega
      simp only [hk, hk', false_and, if_false, Nat.add_zero]
      split
      · exact List.count_eq_zero.2 (by simpa using hne.symm)
      · rfl
    · have hi : ¬ i + 1 ≤ i := by omega
      simp only [hi, false_and, if_false, Nat.add_zero, Nat.le_refl, true_and, Nat.sub_self, List.getElem?_cons_zero,
        Option.any_some, decide_eq_true_eq]
      split <;> simp
    · have hne : (path, k + 1) ≠ (path, i + 1) := by simp; omega
      have hget : (line :: lines)[i - k]? = lines[i - (k + 1)]? := by
        rw [show i - k = (i - (k + 1)) + 1 by omega, List.getElem?_cons_succ]
      have hk : k + 1 ≤ i := hgt
      have hk' : k ≤ i := by omega
      rw [hget]
      simp only [hk, hk', true_and]
      split
      · rw [List.count_eq_zero.2 (by simpa using hne.symm), Nat.zero_add]
      · simp

theorem mem_freshLines {p : Text × ℕ} {k : ℕ} {lines : List Text} (h : p ∈ freshLines env path m k lines) :
    p.1 = path ∧ ∃ i, p.2 = i + 1 ∧ i < k + lines.length := by
  induction lines generalizing k with
  | nil => simp [freshLines] at h
  | cons line lines ih =>
    rw [freshLines, List.mem_append] at h
    rcases h with h | h
    · split at h
      · rw [List.mem_singleton.1 h]
        exact ⟨rfl, k, rfl, by simp⟩
      · cases h
    · obtain ⟨hpath, i, hi, hlt⟩ := ih h
      exact ⟨hpath, i, hi, by rw [List.length_cons]; omega⟩

/-- No window holds a line behind the end of its file as it was scanned last. -/
def WithinFiles (s : Scanner) : Prop := ∀ p ∈ linesOf s.stored, ∃ i, p.2 = i + 1 ∧ i < (s.known p.1).length

theorem scanFile_known (s : Scanner) (v : Visit) (path : Text) :
    (scanFile env s v).known path = if path = v.path then v.lines else s.known path := rfl

theorem WithinFiles.scanFile (hcreates : env.Creates) (h : WithinFiles s) (hgrows : OnlyGrows s v) :
    WithinFiles (scanFile env s v) := by
  intro p hp
  rw [scanFile_stored hcreates, List.mem_append] at hp
  rw [scanFile_known]
  rcases hp with hp | hp
  · obtain ⟨i, hi, hlt⟩ := h p hp
    refine ⟨i, hi, ?_⟩
    by_cases hpath : p.1 = v.path
    · rw [if_pos hpath]
      exact Nat.lt_of_lt_of_le (hpath ▸ hlt) hgrows.length_le
    · rwa [if_neg hpath]
  · obtain ⟨hpath, i, hi, hlt⟩ := mem_freshLines hp
    rw [if_pos hpath]
    exact ⟨i, hi, by omega⟩

theorem WithinFiles.count_eq_zero (h : WithinFiles s) {i : ℕ} (hi : (s.known path).length ≤ i) :
    (linesOf s.stored).count (path, i + 1) = 0 := by
  refine List.count_eq_zero.2 fun hmem => ?_
  obtain ⟨j, hj, hlt⟩ := h _ hmem
  have hij : i = j := Nat.succ.inj hj
  exact absurd (hij ▸ hlt) (Nat.not_lt.2 hi)

/-- A scan leaves each line of its file in one window exactly when it takes up the lines that were not
there the last time, and no others. -/
theorem eachLineOnce_scanFile_iff (hcreates : env.Creates) (hwithin : WithinFiles s) (honce : EachLineOnce env s)
    (hgrows : OnlyGrows s v) :
    EachLineOnce env (scanFile env s v) ↔
      ∀ (i : ℕ) line, v.lines[i]? = some line → IsMessageLine env line →
        (i < v.maxEndLine env s ↔ i < (s.known v.path).length) := by
  have hcount : ∀ i line, v.lines[i]? = some line → IsMessageLine env line →
      (linesOf (scanFile env s v).stored).count (v.path, i + 1) =
        (if i < (s.known v.path).length then 1 else 0) + if i < v.maxEndLine env s then 0 else 1 := by
    intro i line hline hmsg
    have hbefore : (linesOf s.stored).count (v.path, i + 1) = if i < (s.known v.path).length then 1 else 0 := by
      split
      · rename_i hlt
        refine honce v.path i line ?_ hmsg
        obtain ⟨rest, hrest⟩ := hgrows
        rw [← hline, ← hrest, List.getElem?_append_left hlt]
      · rename_i hge
        exact hwithin.count_eq_zero (by omega)
    rw [scanFile_stored hcreates, List.count_append, hbefore, count_freshLines]
    simp only [Nat.zero_le, Nat.sub_zero, hline, Option.any_some, decide_eq_true_eq, hmsg, and_true, true_and]
    congr 1
    by_cases hm : v.maxEndLine env s ≤ i
    · rw [if_pos hm, if_neg (by omega)]
    · rw [if_neg hm, if_pos (by omega)]
  constructor
  · intro h i line hline hmsg
    have hone := h v.path i line (by rw [scanFile_known]; simpa using hline) hmsg
    rw [hcount i line hline hmsg] at hone
    constructor
    · intro hm
      by_contra hk
      rw [if_neg hk, if_pos hm] at hone
      cases hone
    · intro hk
      by_contra hm
      rw [if_pos hk, if_neg hm] at hone
      cases hone
  · intro h path i line hline hmsg
    rw [scanFile_known] at hline
    by_cases hpath : path = v.path
    · subst hpath
      rw [if_pos rfl] at hline
      rw [hcount i line hline hmsg]
      have := h i line hline hmsg
      by_cases hk : i < (s.known v.path).length
      · simp [hk, this.2 hk]
      · have hm : ¬ (i : ℤ) < v.maxEndLine env s := fun hm => hk (this.1 hm)
        simp [hk, hm]
    · rw [if_neg hpath] at hline
      rw [scanFile_stored hcreates, List.count_append, honce path i line hline hmsg]
      have hnot : (path, i + 1) ∉ freshLines env v.path (v.maxEndLine env s) 0 v.lines :=
        fun hmem => hpath (mem_freshLines hmem).1
      rw [List.count_eq_zero.2 hnot]

/-! ## Files that have not changed -/

variable {base : List StoredWindow}

/-- The line before which `k` lines stand opens no window and fills none. -/
def IdleLine (env : ScanEnv) (m : ℤ) (k : ℕ) (line : Text) : Prop :=
  m ≤ k → isCompactionMarker line = false →
    (env.parse line).bind scanExtractMessageText = none ∧ extractFileRefs env.maxPathLen 16 line = [] ∧ k + 1 < m + 20

/-- Nothing has been taken up. -/
structure ScanLoop.Idle (base : List StoredWindow) (m : ℤ) (r : ScanLoop) : Prop where
  stored : r.stored = base
  messages : r.messages = []
  fileRefs : r.fileRefs = []
  windowStart : r.windowStart = m + 1

/-- A window has been stored, or will be. -/
structure ScanLoop.Adds (base : List StoredWindow) (r : ScanLoop) : Prop where
  length_le : base.length ≤ r.stored.length
  adds : base.length < r.stored.length ∨ r.messages ≠ [] ∨ r.fileRefs ≠ []

theorem ScanLoop.adds_flush (hcreates : env.Creates) (h : base.length ≤ r.stored.length) :
    (r.flush env session path).Adds base := by
  have hlt : base.length < (r.flush env session path).stored.length := by
    rw [flush_stored hcreates, List.length_append]
    exact Nat.lt_succ_of_le h
  exact ⟨Nat.le_of_lt hlt, .inl hlt⟩

theorem ScanLoop.Adds.line (hcreates : env.Creates) (h : r.Adds base) (line : Text) :
    (r.line env session path m line).Adds base := by
  by_cases hskip : (r.lineNum + 1 : ℕ) ≤ m ∨ isCompactionMarker line
  · rw [line_of_skip hskip]
    exact ⟨h.length_le, h.adds⟩
  · rw [not_or, Bool.not_eq_true] at hskip
    rw [line_of_take hskip.1 hskip.2]
    simp only
    split
    · exact adds_flush hcreates h.length_le
    · refine ⟨h.length_le, ?_⟩
      rcases h.adds with hlt | hmsg | href
      · exact .inl hlt
      · refine .inr (.inl fun hnil => hmsg ?_)
        simp only [take, scanAddMessagePart] at hnil
        split at hnil
        · split at hnil
          · exact hnil
          · simp at hnil
        · exact hnil
      · exact .inr (.inr fun hnil => href (List.append_eq_nil_iff.1 hnil).1)

theorem ScanLoop.Idle.line (h : r.Idle base m) {line : Text} (hidle : IdleLine env m r.lineNum line) :
    (r.line env session path m line).Idle base m := by
  by_cases hskip : (r.lineNum + 1 : ℕ) ≤ m ∨ isCompactionMarker line
  · rw [line_of_skip hskip]
    exact ⟨h.stored, h.messages, h.fileRefs, h.windowStart⟩
  · rw [not_or, Bool.not_eq_true] at hskip
    have hm : m ≤ r.lineNum := by
      have := hskip.1
      push_cast at this
      omega
    obtain ⟨hmsg, hrefs, hnear⟩ := hidle hm hskip.2
    rw [line_of_take hskip.1 hskip.2]
    simp only
    rw [if_neg]
    · refine ⟨h.stored, ?_, ?_, h.windowStart⟩
      · simpa [take, hmsg] using h.messages
      · simpa [take, hrefs] using h.fileRefs
    · have hstart := h.windowStart
      simp only [take, hmsg, h.messages, not_or]
      refine ⟨?_, by simp⟩
      push_cast
      omega

theorem ScanLoop.Idle.adds_line (hcreates : env.Creates) (h : r.Idle base m) {line : Text}
    (hidle : ¬ IdleLine env m r.lineNum line) : (r.line env session path m line).Adds base := by
  simp only [IdleLine, Classical.not_imp] at hidle
  obtain ⟨hm, hmark, hadds⟩ := hidle
  rw [line_of_take (by push_cast; omega) hmark]
  simp only
  split
  · exact adds_flush hcreates (by simp [h.stored])
  · rename_i hflush
    refine ⟨by simp [h.stored], .inr ?_⟩
    by_contra hnot
    simp only [not_or, not_not] at hnot
    refine hadds ⟨?_, ?_, ?_⟩
    · cases hmsg : (env.parse line).bind scanExtractMessageText with
      | none => rfl
      | some msg => simp [take, hmsg, h.messages, scanAddMessagePart] at hnot
    · simpa [take, h.fileRefs, extractFileRefs] using hnot.2
    · have hstart := h.windowStart
      simp only [take_lineNum, take_windowStart, not_or] at hflush
      have := hflush.1
      push_cast at this
      omega

theorem ScanLoop.Adds.foldl_line (hcreates : env.Creates) (lines : List Text) (r : ScanLoop) (h : r.Adds base) :
    (lines.foldl (ScanLoop.line env session path m) r).Adds base := by
  induction lines generalizing r with
  | nil => exact h
  | cons line lines ih => exact ih _ (h.line hcreates line)

variable (session path m base) in
/-- The loop takes up nothing exactly when all its lines are idle. -/
theorem ScanLoop.Idle.foldl_line (hcreates : env.Creates) (lines : List Text) (r : ScanLoop) (h : r.Idle base m) :
    let r' := lines.foldl (ScanLoop.line env session path m) r
    (r'.Idle base m ∧ ∀ i line, lines[i]? = some line → IdleLine env m (r.lineNum + i) line) ∨
      (r'.Adds base ∧ ¬ ∀ i line, lines[i]? = some line → IdleLine env m (r.lineNum + i) line) := by
  induction lines generalizing r with
  | nil => exact .inl ⟨h, by simp⟩
  | cons line lines ih =>
    by_cases hidle : IdleLine env m r.lineNum line
    · have hline : (r.line env session path m line).Idle base m := h.line hidle
      rcases ih _ hline with ⟨hend, hall⟩ | ⟨hend, hnot⟩
      · refine .inl ⟨hend, fun i l hl => ?_⟩
        cases i with
        | zero =>
          obtain rfl : line = l := by simpa using hl
          exact hidle
        | succ i =>
          have := hall i l (by simpa using hl)
          rwa [line_lineNum, Nat.add_right_comm] at this
      · refine .inr ⟨hend, fun hall => hnot fun i l hl => ?_⟩
        rw [line_lineNum, Nat.add_right_comm]
        exact hall (i + 1) l (by simpa using hl)
    · refine .inr ⟨(h.adds_line hcreates hidle).foldl_line hcreates lines, fun hall => hidle ?_⟩
      exact hall 0 line rfl

/-- A scan stores no window exactly when all the lines behind the last one read are idle. -/
theorem scanFile_stored_eq_iff (hcreates : env.Creates) (s : Scanner) (v : Visit) :
    (scanFile env s v).stored = s.stored ↔
      ∀ i line, v.lines[i]? = some line → IdleLine env (v.maxEndLine env s) i line := by
  have hloop := ScanLoop.Idle.foldl_line v.session v.path (v.maxEndLine env s) s.stored hcreates v.lines
    ⟨s.calls, s.stored, (env.sessionScanState s.calls v.session).1, 0, v.maxEndLine env s + 1, [], [], []⟩
    ⟨rfl, rfl, rfl, rfl⟩
  simp only [Nat.zero_add, Visit.maxEndLine] at hloop
  simp only [scanFile, Visit.maxEndLine]
  rcases hloop with ⟨hidle, hall⟩ | ⟨hadds, hnot⟩
  · rw [if_neg (by simp [hidle.messages, hidle.fileRefs])]
    exact iff_of_true hidle.stored hall
  · refine iff_of_false (fun heq => ?_) hnot
    split at heq
    · have hlength := congrArg List.length heq
      rw [ScanLoop.flush_stored hcreates, List.length_append] at hlength
      exact absurd hadds.length_le (Nat.not_le.2 (hlength ▸ Nat.lt_succ_self _))
    · rename_i hleft
      have hlt := hadds.adds.resolve_right fun h => hleft h
      exact absurd (congrArg List.length heq) (Nat.ne_of_gt hlt)

/-! ## Runs -/

mutual

/-- The files that the walk of a directory comes to. -/
def dirVisits (dirPath : Text) : List (Text × DirEntry) → List Visit
  | [] => []
  | (name, entry) :: entries => entryVisits dirPath name entry ++ dirVisits dirPath entries

def entryVisits (dirPath name : Text) : DirEntry → List Visit
  | .directory entries => if text "." <+: name then [] else dirVisits (dirPath ++ text "/" ++ name) entries
  | .regular lines =>
    if text "." <+: name then []
    else if text ".jsonl" <:+ name then [⟨sessionIdOf dirPath, dirPath ++ text "/" ++ name, lines⟩]
    else []
  | .other => []

end

mutual

/-- The walk scans the files that it comes to, one after the other. -/
theorem walkDir_eq (s : Scanner) (dirPath : Text) :
    ∀ entries : List (Text × DirEntry), walkDir env s dirPath entries = run (scanFile env) s (dirVisits dirPath entries)
  | [] => by rw [walkDir, dirVisits]; rfl
  | (name, entry) :: entries => by
    rw [walkDir, dirVisits, walkEntry_eq s dirPath name entry, walkDir_eq _ dirPath entries, run, run, run,
      List.foldl_append]

theorem walkEntry_eq (s : Scanner) (dirPath name : Text) :
    ∀ entry : DirEntry, walkEntry env s dirPath name entry = run (scanFile env) s (entryVisits dirPath name entry)
  | .directory entries => by
    rw [walkEntry, entryVisits]
    split
    · rfl
    · exact walkDir_eq s _ entries
  | .regular lines => by
    rw [walkEntry, entryVisits]
    split
    · rfl
    · split <;> rfl
  | .other => by rw [walkEntry, entryVisits]; rfl

end

/-- The files that the runs come to: for each run, the directories as they were then. -/
def scanVisits (scans : List (List (Text × List (Text × DirEntry)))) : List Visit :=
  scans.flatMap fun dirs => dirs.flatMap fun dir => dirVisits dir.1 dir.2

theorem memoryScanConversations_eq (s : Scanner) (dirs : List (Text × List (Text × DirEntry))) :
    memoryScanConversations env s dirs = run (scanFile env) s (dirs.flatMap fun dir => dirVisits dir.1 dir.2) := by
  induction dirs generalizing s with
  | nil => rfl
  | cons dir dirs ih =>
    rw [memoryScanConversations, List.foldl_cons, ← memoryScanConversations, ih, walkDir_eq, List.flatMap_cons, run, run, run,
      List.foldl_append]

theorem run_memoryScanConversations (s : Scanner) (scans : List (List (Text × List (Text × DirEntry)))) :
    run (memoryScanConversations env) s scans = run (scanFile env) s (scanVisits scans) := by
  induction scans generalizing s with
  | nil => rfl
  | cons dirs scans ih =>
    rw [run, List.foldl_cons, ← run, ih, memoryScanConversations_eq, scanVisits, scanVisits, List.flatMap_cons, run, run, run,
      List.foldl_append]

/-- Over the runs, each scanned file leaves each message line in one window; so does each run. -/
structure TranscriptsScannedOnce (env : ScanEnv) (scans : List (List (Text × List (Text × DirEntry)))) : Prop where
  files : Meets (scanFile env) (fun _ => ScannedOnce env) {} (scanVisits scans)
  runs : ∀ pre post, scans = pre ++ post → EachLineOnce env (run (memoryScanConversations env) {} pre)

theorem eachLineOnce_start : EachLineOnce env {} := by
  intro path i line hline
  cases hline

theorem withinFiles_start : WithinFiles {} := by
  intro p hp
  cases hp

/-- What one scan does to its file is right exactly when db1's answer for it is. -/
theorem scannedOnce_iff_resumes (hcreates : env.Creates) (hwithin : WithinFiles s) (honce : EachLineOnce env s)
    (hgrows : OnlyGrows s v) : ScannedOnce env s v ↔ Resumes env s v := by
  have hmessages := eachLineOnce_scanFile_iff hcreates hwithin honce hgrows
  have hstored := scanFile_stored_eq_iff hcreates s v
  constructor
  · rintro ⟨h, hunchanged⟩
    refine ⟨hmessages.1 h, fun hsame i line hline hm hmark => ?_⟩
    exact (hstored.1 (hunchanged hsame) i line hline hm hmark).2
  · rintro ⟨h, hunchanged⟩
    refine ⟨hmessages.2 h, fun hsame => hstored.2 fun i line hline hm hmark => ?_⟩
    refine ⟨?_, hunchanged hsame i line hline hm hmark⟩
    -- a message line behind the answer would be a new one, and there is none
    by_contra hmsg
    have hlt := (List.getElem?_eq_some_iff.1 hline).1
    have := (h i line hline ⟨hmark, Option.isSome_iff_ne_none.2 hmsg⟩).2 (hsame ▸ hlt)
    omega

section Run

variable {vs : List Visit}

theorem withinFiles_run (hcreates : env.Creates) (hgrows : Meets (scanFile env) (fun _ => OnlyGrows) {} vs) :
    WithinFiles (run (scanFile env) {} vs) :=
  run_invariant (I := fun _ => WithinFiles) withinFiles_start (fun _ _ _ h hg => h.scanFile hcreates hg) vs hgrows

theorem eachLineOnce_run (h : Meets (scanFile env) (fun _ => ScannedOnce env) {} vs) :
    EachLineOnce env (run (scanFile env) {} vs) :=
  run_invariant (I := fun _ => EachLineOnce env) eachLineOnce_start (fun _ _ _ _ hv => hv.once) vs h

/-- The answers of db1 are right for all files of a run exactly when the scans are. -/
theorem meets_scannedOnce_iff (hcreates : env.Creates) (hgrows : Meets (scanFile env) (fun _ => OnlyGrows) {} vs) :
    Meets (scanFile env) (fun _ => ScannedOnce env) {} vs ↔ Meets (scanFile env) (fun _ => Resumes env) {} vs := by
  induction vs using List.reverseRecOn with
  | nil => exact iff_of_true .nil .nil
  | append_singleton vs v ih =>
    have ih := ih hgrows.init
    have hstep (h : Meets (scanFile env) (fun _ => ScannedOnce env) {} vs) :
        ScannedOnce env (run (scanFile env) {} vs) v ↔ Resumes env (run (scanFile env) {} vs) v :=
      scannedOnce_iff_resumes hcreates (withinFiles_run hcreates hgrows.init) (eachLineOnce_run h) hgrows.last
    constructor
    · intro h
      exact (ih.1 h.init).concat ((hstep h.init).1 h.last)
    · intro h
      have honce := ih.2 h.init
      exact honce.concat ((hstep honce).2 h.last)

end Run

/-- However often directories are scanned whose transcripts only grow, each message line is in one
window and unchanged files add none, exactly when at each file the line number that db1 answers for
its session is behind the lines already read of that file and before the others. -/
theorem scannedOnce_iff (hcreates : env.Creates) (scans : List (List (Text × List (Text × DirEntry))))
    (hgrows : Meets (scanFile env) (fun _ => OnlyGrows) {} (scanVisits scans)) :
    TranscriptsScannedOnce env scans ↔ Meets (scanFile env) (fun _ => Resumes env) {} (scanVisits scans) := by
  rw [← meets_scannedOnce_iff hcreates hgrows]
  refine ⟨fun h => h.files, fun h => ⟨h, ?_⟩⟩
  rintro pre post rfl
  rw [scanVisits, List.flatMap_append] at h
  rw [run_memoryScanConversations]
  exact eachLineOnce_run h.init

/-! ## A directory with two transcripts -/

/-- The directory `/t/s` with the transcripts `a.jsonl` and `b.jsonl`. -/
def twoTranscripts (a b : List Text) : List (Text × List (Text × DirEntry)) :=
  [(text "/t/s", [(text "a.jsonl", .regular a), (text "b.jsonl", .regular b)])]

theorem scanVisits_twoTranscripts (a b a' b' : List Text) :
    scanVisits [twoTranscripts a b, twoTranscripts a' b'] =
      [⟨text "s", text "/t/s/a.jsonl", a⟩, ⟨text "s", text "/t/s/b.jsonl", b⟩,
        ⟨text "s", text "/t/s/a.jsonl", a'⟩, ⟨text "s", text "/t/s/b.jsonl", b'⟩] := by
  rfl

/-- A line behind the last one read is all that a scan can change something for. -/
theorem scanFile_calls_of_read {line : Text} (hlines : v.lines = [line]) (hm : 0 < v.maxEndLine env s) :
    (scanFile env s v).calls = s.calls := by
  have hread : (0 + 1 : ℕ) ≤ (env.sessionScanState s.calls v.session).2 := by
    rw [Visit.maxEndLine] at hm
    push_cast
    omega
  simp only [scanFile, hlines, List.foldl_cons, List.foldl_nil]
  rw [ScanLoop.line_of_skip (.inl hread)]
  simp

/-- Whatever db1 answers: it is wrong for the unchanged `a.jsonl`, whose line is stored twice, or else
for the new line of `b.jsonl`, which is passed over. -/
theorem no_store_resumes (hcreates : env.Creates) {line : Text} (hline : IsMessageLine env line) :
    ¬ TranscriptsScannedOnce env [twoTranscripts [line] [], twoTranscripts [line] [line]] := by
  rintro ⟨hfiles, -⟩
  rw [scanVisits_twoTranscripts] at hfiles
  have hgrows : Meets (scanFile env) (fun _ => OnlyGrows) {}
      [⟨text "s", text "/t/s/a.jsonl", [line]⟩, ⟨text "s", text "/t/s/b.jsonl", []⟩,
        ⟨text "s", text "/t/s/a.jsonl", [line]⟩, ⟨text "s", text "/t/s/b.jsonl", [line]⟩] := by
    rw [meets_cons, meets_cons, meets_cons, meets_cons]
    exact ⟨List.nil_prefix, List.nil_prefix, List.prefix_rfl, List.nil_prefix, .nil⟩
  rw [meets_scannedOnce_iff hcreates hgrows, meets_cons, meets_cons, meets_cons, meets_cons] at hfiles
  obtain ⟨-, -, hagain, hsecond, -⟩ := hfiles
  have hread := (hagain.messages 0 line rfl hline).2 (Nat.zero_lt_one)
  have hlost := (hsecond.messages 0 line rfl hline).not.2 (Nat.lt_irrefl 0)
  rw [Visit.maxEndLine, scanFile_calls_of_read rfl hread] at hlost
  exact hlost hread

/-- A db1 that counts the windows of a session and is told of no lines. Every line is a message. -/
def countingEnv : ScanEnv where
  parse line := some (.obj [(text "content", .str line)])
  tokenizeForSearch _ _ := []
  maxPathLen := 4096
  nowUtc _ := []
  sessionScanState calls session :=
    (calls.countP fun | .windowCreateRaw s _ _ _ => s = session | _ => false, 0)
  windowCreateRaw calls _ _ _ _ := calls.length + 1

theorem countingEnv_creates : countingEnv.Creates := fun calls _ _ _ _ => Int.natCast_succ_pos calls.length

/-- A transcript that is scanned twice is stored twice. -/
theorem rescan_duplicates :
    countingEnv.Creates ∧
      Meets (scanFile countingEnv) (fun _ => OnlyGrows) {}
        (scanVisits [twoTranscripts [text "hi"] [], twoTranscripts [text "hi"] []]) ∧
      ¬ TranscriptsScannedOnce countingEnv [twoTranscripts [text "hi"] [], twoTranscripts [text "hi"] []] := by
  refine ⟨countingEnv_creates, ?_, fun h => ?_⟩
  · rw [scanVisits_twoTranscripts, meets_cons, meets_cons, meets_cons, meets_cons]
    exact ⟨List.nil_prefix, List.nil_prefix, List.prefix_rfl, List.prefix_rfl, .nil⟩
  · have honce := h.runs _ [] (List.append_nil _).symm (text "/t/s/a.jsonl") 0 (text "hi") rfl (by decide)
    revert honce
    decide

theorem scannedOnce_iff_once : TranscriptsScannedOnce countingEnv [twoTranscripts [text "hi"] []] := by
  refine (scannedOnce_iff countingEnv_creates _ ?_).2 ?_
  · exact meets_cons.2 ⟨List.nil_prefix, meets_cons.2 ⟨List.nil_prefix, .nil⟩⟩
  · refine meets_cons.2 ⟨⟨?_, ?_⟩, meets_cons.2 ⟨⟨?_, ?_⟩, .nil⟩⟩
    · intro i line _ _
      exact iff_of_false (Int.not_lt.2 (Int.natCast_nonneg i)) (Nat.not_lt_zero i)
    · exact fun h => absurd h (List.cons_ne_nil _ _).symm
    · intro i line hline
      cases hline
    · intro _ i line hline
      cases hline

end AimeeMemory.Core
