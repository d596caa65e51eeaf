import AimeeMemory.Core.Transcripts

/-!
# What the search for a tool call reads

`is_tool_decision` of `memory_scan.c`, in the memory that its line is in: the bytes of the line, the
byte zero and whatever comes behind. After the key of the path it goes on 13 bytes, of which the
key has 12, and then passes blanks and quotes and a path.

## What is proved

* `isToolDecisionAt_eq`: on a line it is `isToolDecision`, the description cut to its buffer.
* **`readsInLine_iff`**: it reads no byte behind the zero, and ends its description in the buffer,
  exactly where the line does not end with the key of the path, there for the first time, in a tool
  call that writes or edits.
* **`bareKey_reads_behind`**: a line that ends with the key.

## Honest scope

`strstr` reads its text to the byte zero, and no further.
-/

namespace AimeeMemory.Core

/-! ### Reading memory -/

/-- The string that begins in memory. -/
def cstr (mem : Text) : Text := mem.takeWhile (· ≠ 0)

/-- The places that a library function reads of a string: up to its byte zero. -/
def stringReads (mem : Text) (start : ℕ) : List ℕ := List.range' start ((cstr (mem.drop start)).length + 1)

/-- The places that a loop reads: those of the bytes that it passes, and one more. -/
def loopReads (start passed : ℕ) : List ℕ := List.range' start (passed + 1)

def filePathKey : Text := text "\"file_path\":"

/-- A blank or a quote. -/
def isBlankOrQuote (c : UInt8) : Bool := [c] = text " " ∨ [c] = text "\""

/-- A byte of a path. -/
def isPathByte (c : UInt8) : Bool := c ≠ 0 ∧ [c] ≠ text "\"" ∧ [c] ≠ text ","

/-- The place in a line where something is found. -/
def placeOf (line found : Text) : ℕ := line.length - found.length

/-- `is_tool_decision`, in the memory that its line begins: the places that it reads, and the
description in a buffer of `descLen` bytes. -/
def isToolDecisionAt (descLen : ℕ) (mem : Text) : List ℕ × Option Text :=
  let line := cstr mem
  match strstr line (text "\"tool_use\"") with
  | none => (stringReads mem 0, none)
  | some _ =>
    match strstr line (text "\"name\":") with
    | none => (stringReads mem 0, none)
    | some named =>
      let reads := stringReads mem 0 ++ stringReads mem (placeOf line named)
      if (strstr named (text "\"Write\"")).isSome || (strstr named (text "\"Edit\"")).isSome then
        match strstr line filePathKey with
        | none => (reads, some ((text "Write/Edit tool call").take (descLen - 1)))
        | some found =>
          let start := placeOf line found + 13
          let skipped := (mem.drop start).takeWhile isBlankOrQuote
          let path := (mem.drop (start + skipped.length)).takeWhile isPathByte
          let desc :=
            if 0 < path.length ∧ path.length + 16 < descLen then text "Write/Edit: " ++ path
            else text "Write/Edit tool call"
          (reads ++ loopReads start skipped.length ++ loopReads (start + skipped.length) path.length,
            some (desc.take (descLen - 1)))
      else (reads, none)

/-- A tool call that writes or edits. -/
def CallsWriter (line : Text) : Prop :=
  (strstr line (text "\"tool_use\"")).isSome ∧
    ∃ named, strstr line (text "\"name\":") = some named ∧
      ((strstr named (text "\"Write\"")).isSome || (strstr named (text "\"Edit\"")).isSome) = true

/-- The line ends with the key of the path, which is there for the first time. -/
def EndsWithKey (line : Text) : Prop := strstr line filePathKey = some filePathKey

/-- The call reads the line and its byte zero, and ends its description in the buffer. -/
structure ReadsInLine (descLen : ℕ) (line behind : Text) : Prop where
  inLine : ∀ i ∈ (isToolDecisionAt descLen (line ++ 0 :: behind)).1, i ≤ line.length
  terminated : ∀ desc, (isToolDecisionAt descLen (line ++ 0 :: behind)).2 = some desc → desc.length < descLen

/-! ### Strings in memory -/

variable {line behind found : Text} {descLen : ℕ}

/-- A byte zero ends what is taken of a line. -/
theorem takeWhile_line {p : UInt8 → Bool} (hzero : p 0 = false) (s behind : Text) :
    (s ++ 0 :: behind).takeWhile p = s.takeWhile p := by
  rw [List.takeWhile_append, List.takeWhile_cons_of_neg (by simp [hzero]), List.append_nil]
  split_ifs with h
  · exact ((List.takeWhile_prefix p).eq_of_length h).symm
  · rfl

theorem cstr_line (h : 0 ∉ line) : cstr (line ++ 0 :: behind) = line := by
  rw [cstr, takeWhile_line (by decide), List.takeWhile_eq_self_iff]
  intro c hc
  exact decide_eq_true fun hzero => h (hzero ▸ hc)

/-- What is left of memory from a place in the line on. -/
theorem drop_line {n : ℕ} (hn : n ≤ line.length) : (line ++ 0 :: behind).drop n = line.drop n ++ 0 :: behind :=
  List.drop_append_of_le_length hn

theorem mem_stringReads {n i : ℕ} (h : 0 ∉ line) (hn : n ≤ line.length) (hi : i ∈ stringReads (line ++ 0 :: behind) n) :
    i ≤ line.length := by
  have hrest : 0 ∉ line.drop n := fun hmem => h (List.mem_of_mem_drop hmem)
  rw [stringReads, drop_line hn, cstr_line hrest, List.length_drop, List.mem_range'_1] at hi
  omega

theorem mem_loopReads {start passed i : ℕ} (h : start + passed ≤ line.length) (hi : i ∈ loopReads start passed) :
    i ≤ line.length := by
  rw [loopReads, List.mem_range'_1] at hi
  omega

theorem length_found {needle : Text} (h : strstr line needle = some found) :
    needle.length ≤ found.length ∧ found.length ≤ line.length :=
  ⟨(of_strstr h).1.length_le, (of_strstr h).2.length_le⟩

/-- What begins with the key and is no longer is the key. -/
theorem length_key_lt (hfound : strstr line filePathKey = some found) (hends : ¬ EndsWithKey line) :
    13 ≤ found.length := by
  obtain ⟨hle, -⟩ := length_found hfound
  have hkey : filePathKey.length = 12 := by decide
  by_contra hlt
  have heq : filePathKey = found := (of_strstr hfound).1.eq_of_length (by omega)
  exact hends (by rw [EndsWithKey, hfound, heq])

/-- Behind a key that does not end the line, a path starts in it. -/
theorem path_starts_inLine (hcalls : CallsWriter line) (hbare : ¬ (CallsWriter line ∧ EndsWithKey line))
    (hfound : strstr line filePathKey = some found) : placeOf line found + 13 ≤ line.length := by
  have hlong := length_key_lt hfound fun hends => hbare ⟨hcalls, hends⟩
  obtain ⟨-, hfit⟩ := length_found hfound
  rw [placeOf]
  omega

/-- What a loop passes in the line ends at the byte zero. -/
theorem takeWhile_from {p : UInt8 → Bool} (hzero : p 0 = false) (behind : Text) {n : ℕ} (hn : n ≤ line.length) :
    ((line ++ 0 :: behind).drop n).takeWhile p = (line.drop n).takeWhile p ∧
      n + ((line.drop n).takeWhile p).length ≤ line.length := by
  have hle := (List.takeWhile_prefix p : (line.drop n).takeWhile p <+: line.drop n).length_le
  rw [List.length_drop] at hle
  rw [drop_line hn, takeWhile_line hzero]
  exact ⟨rfl, by omega⟩

/-! ### The search -/

theorem terminated_take {descLen : ℕ} (hdesc : 0 < descLen) {t desc : Text} (h : some (t.take (descLen - 1)) = some desc) :
    desc.length < descLen := by
  cases h
  have := List.length_take_le (descLen - 1) t
  omega

/-- Every description ends in its buffer, whatever is read. -/
theorem isToolDecisionAt_terminated (hdesc : 0 < descLen) (mem : Text) {desc : Text}
    (h : (isToolDecisionAt descLen mem).2 = some desc) : desc.length < descLen := by
  unfold isToolDecisionAt at h
  dsimp only at h
  split at h
  · cases h
  · split at h
    · cases h
    · split at h
      · split at h
        · exact terminated_take hdesc h
        · exact terminated_take hdesc h
      · cases h

/-- The strings that are searched are read to the byte zero. -/
theorem mem_searchReads {named : Text} {i : ℕ} (h : 0 ∉ line)
    (hi : i ∈ stringReads (line ++ 0 :: behind) 0 ++ stringReads (line ++ 0 :: behind) (placeOf line named)) :
    i ≤ line.length := by
  rcases List.mem_append.1 hi with hi | hi
  · exact mem_stringReads h (Nat.zero_le _) hi
  · exact mem_stringReads h (Nat.sub_le _ _) hi

theorem isToolDecisionAt_inLine (h : 0 ∉ line) (hbare : ¬ (CallsWriter line ∧ EndsWithKey line)) {i : ℕ}
    (hi : i ∈ (isToolDecisionAt descLen (line ++ 0 :: behind)).1) : i ≤ line.length := by
  unfold isToolDecisionAt at hi
  rw [cstr_line h] at hi
  dsimp only at hi
  split at hi
  · exact mem_stringReads h (Nat.zero_le _) hi
  · next tool htool =>
    split at hi
    · exact mem_stringReads h (Nat.zero_le _) hi
    · next named hnamed =>
      split at hi
      · next hwrites =>
        split at hi
        · exact mem_searchReads h hi
        · next found hfound =>
          have hcalls : CallsWriter line := ⟨by rw [htool]; rfl, named, hnamed, hwrites⟩
          have hstart := path_starts_inLine hcalls hbare hfound
          -- each loop stops at the byte zero, if not before
          obtain ⟨hskipped, hskippedLe⟩ := takeWhile_from (p := isBlankOrQuote) (by decide) behind hstart
          obtain ⟨hpath, hpathLe⟩ := takeWhile_from (p := isPathByte) (by decide) behind hskippedLe
          rw [hskipped, hpath] at hi
          rcases List.mem_append.1 hi with hi | hi
          · rcases List.mem_append.1 hi with hi | hi
            · exact mem_searchReads h hi
            · exact mem_loopReads hskippedLe hi
          · exact mem_loopReads hpathLe hi
      · exact mem_searchReads h hi

/-- After a key at the end of the line the first byte behind the zero is read. -/
theorem isToolDecisionAt_behind (h : 0 ∉ line) (hcalls : CallsWriter line) (hends : EndsWithKey line) :
    line.length + 1 ∈ (isToolDecisionAt descLen (line ++ 0 :: behind)).1 := by
  obtain ⟨htool, named, hnamed, hwrites⟩ := hcalls
  obtain ⟨tool, htool⟩ := Option.isSome_iff_exists.1 htool
  obtain ⟨-, hfit⟩ := length_found hends
  have hkey : filePathKey.length = 12 := by decide
  have hstart : placeOf line filePathKey + 13 = line.length + 1 := by
    rw [placeOf]
    omega
  unfold isToolDecisionAt
  rw [EndsWithKey] at hends
  simp only [cstr_line h, htool, hnamed, hwrites, if_true, hends, hstart]
  refine List.mem_append_left _ (List.mem_append_right _ ?_)
  rw [loopReads, List.mem_range'_1]
  omega

/-- The call reads its line and no further, and ends its description in the buffer, exactly where
the line does not end with the key of the path in a call that writes. -/
theorem readsInLine_iff (hline : 0 ∉ line) (hdesc : 0 < descLen) (behind : Text) :
    ReadsInLine descLen line behind ↔ ¬ (CallsWriter line ∧ EndsWithKey line) := by
  constructor
  · rintro ⟨hin, -⟩ ⟨hcalls, hends⟩
    have hle := hin _ (isToolDecisionAt_behind hline hcalls hends)
    omega
  · intro hbare
    exact ⟨fun i hi => isToolDecisionAt_inLine hline hbare hi, fun desc h => isToolDecisionAt_terminated hdesc _ h⟩

theorem takeWhile_path {s : Text} (h : 0 ∉ s) :
    s.takeWhile isPathByte = s.takeWhile fun c => [c] ≠ text "\"" ∧ [c] ≠ text "," := by
  induction s with
  | nil => rfl
  | cons c s ih =>
    obtain ⟨hc, hs⟩ := not_or.1 (mt List.mem_cons.2 h)
    rw [List.takeWhile_cons, List.takeWhile_cons, ih hs]
    have hsame : isPathByte c = decide ([c] ≠ text "\"" ∧ [c] ≠ text ",") := by simp [isPathByte, Ne.symm hc]
    rw [hsame]

/-- The path in memory is that of the line. -/
theorem path_line (hline : 0 ∉ line) (behind : Text) {start : ℕ} (hstart : start ≤ line.length) :
    (((line ++ 0 :: behind).drop (start + (((line ++ 0 :: behind).drop start).takeWhile isBlankOrQuote).length)).takeWhile
        isPathByte) =
      ((line.drop start).dropWhile isBlankOrQuote).takeWhile fun c => [c] ≠ text "\"" ∧ [c] ≠ text "," := by
  obtain ⟨hskipped, hskippedLe⟩ := takeWhile_from (p := isBlankOrQuote) (by decide) behind hstart
  obtain ⟨hpath, -⟩ := takeWhile_from (p := isPathByte) (by decide) behind hskippedLe
  have hdrop : (line.drop start).dropWhile isBlankOrQuote =
      line.drop (start + ((line.drop start).takeWhile isBlankOrQuote).length) := by
    have hsplit := List.takeWhile_append_dropWhile (p := isBlankOrQuote) (l := line.drop start)
    have hleft : ((line.drop start).takeWhile isBlankOrQuote ++ (line.drop start).dropWhile isBlankOrQuote).drop
        ((line.drop start).takeWhile isBlankOrQuote).length = (line.drop start).dropWhile isBlankOrQuote := List.drop_left
    rw [hsplit, List.drop_drop] at hleft
    exact hleft.symm
  rw [hskipped, hpath, hdrop]
  exact takeWhile_path fun hmem => hline (List.mem_of_mem_drop hmem)

/-- On a line that is read and no more, the description is that of `isToolDecision`. -/
theorem isToolDecisionAt_eq (hline : 0 ∉ line) (hbare : ¬ (CallsWriter line ∧ EndsWithKey line)) (hdesc : 20 < descLen) :
    (isToolDecisionAt descLen (line ++ 0 :: behind)).2 = isToolDecision descLen line := by
  have hshort : (text "Write/Edit tool call").take (descLen - 1) = text "Write/Edit tool call" :=
    List.take_of_length_le ((show (text "Write/Edit tool call").length = 20 by decide).le.trans (by omega))
  have hcstr : cstr (line ++ 0 :: behind) = line := cstr_line hline
  cases htool : strstr line (text "\"tool_use\"") with
  | none => simp [isToolDecisionAt, isToolDecision, hcstr, htool]
  | some tool =>
    cases hnamed : strstr line (text "\"name\":") with
    | none => simp [isToolDecisionAt, isToolDecision, hcstr, htool, hnamed]
    | some named =>
      cases hwrites : (strstr named (text "\"Write\"")).isSome || (strstr named (text "\"Edit\"")).isSome with
      | false => simp [isToolDecisionAt, isToolDecision, hcstr, htool, hnamed, hwrites]
      | true =>
        cases hfound : strstr line filePathKey with
        | none =>
          have hkey : strstr line (text "\"file_path\":") = none := hfound
          simp [isToolDecisionAt, isToolDecision, hcstr, htool, hnamed, hwrites, hfound, hkey, hshort]
        | some found =>
          have hkey : strstr line (text "\"file_path\":") = some found := hfound
          have hcalls : CallsWriter line := ⟨by rw [htool]; rfl, named, hnamed, hwrites⟩
          have hstart := path_starts_inLine hcalls hbare hfound
          have hdrop : line.drop (placeOf line found + 13) = found.drop 13 := by
            obtain ⟨before, rfl⟩ := (of_strstr hfound).2
            rw [placeOf, List.length_append, Nat.add_sub_cancel, ← List.drop_drop, List.drop_left]
          have hpath := path_line hline behind hstart
          rw [hdrop] at hpath
          simp only [isToolDecisionAt, isToolDecision, hcstr, htool, hnamed, hwrites, hfound, hkey, if_true, hpath,
            Option.isSome_some, and_self]
          have hsame : isBlankOrQuote = fun c => decide ([c] = text " " ∨ [c] = text "\"") := rfl
          rw [hsame]
          split_ifs with hfits
          · rfl
          · exact congrArg some hshort

/-! ### A line that ends with the key -/

/-- A tool call that is cut off behind so much of it. -/
def cutCall (rest : String) : Text :=
  text "\x7b\"type\":\"tool_use\",\"name\":\"Write\",\"input\":\x7b\"file_path\":" ++ text rest

theorem wholeKey_reads :
    (0 ∉ cutCall "\"a.c" ∧ 0 < 256) ∧
      (ReadsInLine 256 (cutCall "\"a.c") [7, 0] ↔ ¬ (CallsWriter (cutCall "\"a.c") ∧ EndsWithKey (cutCall "\"a.c"))) :=
  ⟨⟨by decide, by decide⟩, readsInLine_iff (by decide) (by decide) [7, 0]⟩

theorem cutCall_callsWriter : CallsWriter (cutCall "") := ⟨by decide +kernel, _, rfl, by decide +kernel⟩

/-- A line that ends with the key: the byte behind its zero is read. -/
theorem bareKey_reads_behind :
    0 ∉ cutCall "" ∧ (cutCall "").length + 1 ∈ (isToolDecisionAt 256 (cutCall "" ++ 0 :: [7, 0])).1 ∧
      ¬ ReadsInLine 256 (cutCall "") [7, 0] := by
  have hends : EndsWithKey (cutCall "") := by rfl
  have hread : (cutCall "").length + 1 ∈ (isToolDecisionAt 256 (cutCall "" ++ 0 :: [7, 0])).1 :=
    isToolDecisionAt_behind (by decide) cutCall_callsWriter hends
  refine ⟨by decide, hread, fun h => ?_⟩
  have hle := h.inLine _ hread
  omega

end AimeeMemory.Core
