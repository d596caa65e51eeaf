import AimeeMemory.Core.Transcripts

/-!
# The decisions in a transcript

`scan_file` notes every Write and Edit call beside the messages of the window it falls into,
and records it when the window is stored. A window has room for sixteen decisions, and what
is left at the end of a file is stored if it has a message or names a file. So a scan records
each decision exactly when no window has more than sixteen and what is left with a decision
has a message or a file (`decisionsOnce_iff`).
-/

namespace AimeeMemory.Core

variable (env : ScanEnv)

/-! ## The lines of the windows -/

/-- The decisions of lines, in their order. -/
def decisionsOf (lines : List Text) : List Text := lines.filterMap (isToolDecision 256)

def hasMessage (line : Text) : Bool := ((env.parse line).bind scanExtractMessageText).isSome

/-- How the lines behind line `k` fall into windows, where line `m` is the last one that was
read before and `taken` are the lines of the window that began with line `start`: a window is
closed by its tenth message or with the twentieth line. The last part is left open. -/
def lineWindows (m : ℤ) : ℕ → ℤ → List Text → List Text → List (List Text) × List Text
  | _, _, taken, [] => ([], taken)
  | k, start, taken, line :: lines =>
    if (k + 1 : ℕ) ≤ m ∨ isCompactionMarker line then lineWindows m (k + 1) start taken lines
    else
      let taken := taken ++ [line]
      if 20 ≤ (k + 1 : ℕ) - start + 1 ∨ 10 ≤ taken.countP (hasMessage env) then
        let (closed, rest) := lineWindows m (k + 1) ((k + 1 : ℕ) + 1) [] lines
        (taken :: closed, rest)
      else lineWindows m (k + 1) start taken lines

/-- The windows of a file that is scanned, and the lines left behind them. -/
def Visit.windows (s : Scanner) (v : Visit) : List (List Text) × List Text :=
  lineWindows env (v.maxEndLine env s) 0 (v.maxEndLine env s + 1) [] v.lines

/-- A line behind line `m` that is no compaction marker. -/
def isScanned (m : ℤ) (line : Text × ℕ) : Bool := m ≤ line.2 ∧ isCompactionMarker line.1 = false

/-- The lines that a scan takes up. -/
def Visit.scannedLines (s : Scanner) (v : Visit) : List Text :=
  (v.lines.zipIdx.filter (isScanned (v.maxEndLine env s))).map Prod.fst

/-- The decisions recorded in db1, each in the window of its call. -/
def recorded (calls : List Db1Call) : List Text :=
  calls.filterMap fun
    | .decisionRecord _ desc _ => some desc
    | _ => none

/-- A scan records each decision on a line that it takes up, once. -/
def DecisionsOnce (s : Scanner) (v : Visit) : Prop :=
  recorded (scanFile env s v).calls = recorded s.calls ++ decisionsOf (v.scannedLines env s)

/-- No window has more than sixteen decisions, and of the lines left behind the windows, where
they have a decision, some line has a message or names a file. -/
structure WindowsHold (s : Scanner) (v : Visit) : Prop where
  closed : ∀ w ∈ (v.windows env s).1, (decisionsOf w).length ≤ 16
  rest : (decisionsOf (v.windows env s).2).length ≤ 16
  noted : decisionsOf (v.windows env s).2 ≠ [] → ∃ line ∈ (v.windows env s).2,
    hasMessage env line = true ∨ extractFileRefs env.maxPathLen 16 line ≠ []

variable {env} {s : Scanner} {v : Visit} {r : ScanLoop} {session path : Text} {m : ℤ} {taken lines : List Text}
  {line : Text}

theorem decisionsOf_append (xs ys : List Text) : decisionsOf (xs ++ ys) = decisionsOf xs ++ decisionsOf ys :=
  List.filterMap_append

theorem recorded_append (xs ys : List Db1Call) : recorded (xs ++ ys) = recorded xs ++ recorded ys :=
  List.filterMap_append

/-! ## What the scan holds -/

/-- What is held of the lines of the open window. -/
structure Holds (env : ScanEnv) (taken : List Text) (r : ScanLoop) : Prop where
  messages : r.messages.length = taken.countP (hasMessage env)
  few : r.messages.length < 10
  refs : r.fileRefs = [] ↔ ∀ line ∈ taken, extractFileRefs env.maxPathLen 16 line = []
  decisions : r.decisions = (decisionsOf taken).take 16

/-- A flush records the decisions that are held. -/
theorem recorded_flush (hcreates : env.Creates) :
    recorded (r.flush env session path).calls = recorded r.calls ++ r.decisions := by
  have hid := hcreates r.calls session (r.seq + 1)
  simp only [ScanLoop.flush, decide_eq_true (hid _ _), if_true, recorded_append]
  simp [recorded, List.filterMap_map]

theorem decisionsOf_concat (taken : List Text) (line : Text) :
    decisionsOf (taken ++ [line]) = decisionsOf taken ++ (isToolDecision 256 line).toList := by
  rw [decisionsOf_append]
  cases h : isToolDecision 256 line <;> simp [decisionsOf, h]

theorem take_messages_length (h : Holds env taken r) (line : Text) :
    (r.take env line).messages.length = (taken ++ [line]).countP (hasMessage env) := by
  have hroom : ¬ 64 ≤ r.messages.length := by
    have := h.few
    omega
  rw [List.countP_append, ← h.messages, ScanLoop.take]
  cases hmsg : (env.parse line).bind scanExtractMessageText with
  | none => simp [hasMessage, hmsg]
  | some msg => simp [hasMessage, hmsg, scanAddMessagePart, hroom]

theorem take_fileRefs_eq_nil (h : Holds env taken r) (line : Text) :
    (r.take env line).fileRefs = [] ↔ ∀ l ∈ taken ++ [line], extractFileRefs env.maxPathLen 16 l = [] := by
  rw [List.forall_mem_append, ← h.refs, List.forall_mem_singleton]
  show r.fileRefs ++ (extractFileRefs env.maxPathLen 16 line).take (128 - r.fileRefs.length) = [] ↔ _
  rw [List.append_eq_nil_iff]
  refine and_congr_right fun hnil => ?_
  rw [hnil, List.take_eq_nil_iff]
  simp

theorem take_decisions (h : Holds env taken r) (line : Text) :
    (r.take env line).decisions = (decisionsOf (taken ++ [line])).take 16 := by
  rw [decisionsOf_concat, ScanLoop.take]
  cases hline : isToolDecision 256 line with
  | none => simpa using h.decisions
  | some desc =>
    dsimp only
    rw [h.decisions, Option.toList_some]
    by_cases hroom : (decisionsOf taken).length < 16
    · rw [if_pos (by rw [List.length_take]; omega), List.take_of_length_le hroom.le,
        List.take_of_length_le (by rw [List.length_append, List.length_singleton]; omega)]
    · rw [if_neg (by rw [List.length_take]; omega), List.take_append_of_le_length (by omega)]

/-- A line that is taken up, and closes no window. -/
theorem Holds.take (h : Holds env taken r) (hopen : ¬ 10 ≤ (taken ++ [line]).countP (hasMessage env)) :
    Holds env (taken ++ [line]) (r.take env line) :=
  ⟨take_messages_length h line, by rw [take_messages_length h line]; omega, take_fileRefs_eq_nil h line,
    take_decisions h line⟩

theorem Holds.flushed : Holds env [] (r.flush env session path) :=
  ⟨rfl, Nat.zero_lt_succ _, ⟨fun _ _ h => (nomatch h), fun _ => rfl⟩, rfl⟩

/-- The loop holds what is left behind the windows, and has recorded up to sixteen decisions of each. -/
theorem foldl_line (hcreates : env.Creates) (h : Holds env taken r) :
    Holds env (lineWindows env m r.lineNum r.windowStart taken lines).2
        (lines.foldl (ScanLoop.line env session path m) r) ∧
      recorded (lines.foldl (ScanLoop.line env session path m) r).calls = recorded r.calls ++
        (lineWindows env m r.lineNum r.windowStart taken lines).1.flatMap fun w => (decisionsOf w).take 16 := by
  induction lines generalizing r taken with
  | nil => exact ⟨h, (List.append_nil _).symm⟩
  | cons line lines ih =>
    rw [List.foldl_cons, lineWindows]
    by_cases hskip : (r.lineNum + 1 : ℕ) ≤ m ∨ isCompactionMarker line
    · rw [if_pos hskip, ScanLoop.line_of_skip hskip]
      exact ih (r := { r with lineNum := r.lineNum + 1 }) ⟨h.messages, h.few, h.refs, h.decisions⟩
    · rw [if_neg hskip]
      rw [not_or, Bool.not_eq_true] at hskip
      rw [ScanLoop.line_of_take hskip.1 hskip.2]
      have hnext : Holds env taken { r with lineNum := r.lineNum + 1 } := ⟨h.messages, h.few, h.refs, h.decisions⟩
      dsimp only
      rw [take_messages_length hnext line, ScanLoop.take_lineNum, ScanLoop.take_windowStart]
      by_cases hclose : 20 ≤ (r.lineNum + 1 : ℕ) - r.windowStart + 1 ∨ 10 ≤ (taken ++ [line]).countP (hasMessage env)
      · rw [if_pos hclose, if_pos hclose]
        have hflushed : Holds env [] ((({ r with lineNum := r.lineNum + 1 } : ScanLoop).take env line).flush env session path) :=
          Holds.flushed
        obtain ⟨hholds, hrecorded⟩ := ih hflushed
        refine ⟨hholds, ?_⟩
        rw [hrecorded, recorded_flush hcreates, take_decisions hnext line, List.append_assoc]
        rfl
      · rw [if_neg hclose, if_neg hclose]
        exact ih (hnext.take fun hten => hclose (.inr hten))

/-- The windows and what is left behind them are the lines that are taken up. -/
theorem flatten_lineWindows (k : ℕ) (start : ℤ) :
    (lineWindows env m k start taken lines).1.flatten ++ (lineWindows env m k start taken lines).2 =
      taken ++ ((lines.zipIdx k).filter (isScanned m)).map Prod.fst := by
  induction lines generalizing k start taken with
  | nil => simp [lineWindows]
  | cons line lines ih =>
    rw [lineWindows, List.zipIdx_cons]
    by_cases hskip : (k + 1 : ℕ) ≤ m ∨ isCompactionMarker line
    · have hout : ¬ isScanned m (line, k) = true := by
        rw [isScanned, decide_eq_true_iff]
        rintro ⟨hle, hmark⟩
        rcases hskip with hskip | hskip
        · omega
        · rw [hmark] at hskip
          cases hskip
      rw [if_pos hskip, List.filter_cons_of_neg hout]
      exact ih _ _
    · rw [if_neg hskip]
      rw [not_or, Bool.not_eq_true] at hskip
      have hin : isScanned m (line, k) = true := decide_eq_true ⟨by have := hskip.1; omega, hskip.2⟩
      rw [List.filter_cons_of_pos hin, List.map_cons]
      dsimp only
      split
      · rw [List.flatten_cons, List.append_assoc, ih, List.nil_append, List.append_assoc]
        rfl
      · rw [ih, List.append_assoc]
        rfl

/-! ## Each decision once -/

/-- Parts that are cut and lose nothing lose nothing each. -/
theorem flatMap_take_eq_iff {α β : Type*} (f : α → List β) (n : ℕ) (ws : List α) (xs ys : List β) (h : xs.length ≤ ys.length) :
    ws.flatMap (fun w => (f w).take n) ++ xs = ws.flatMap f ++ ys ↔ (∀ w ∈ ws, (f w).length ≤ n) ∧ xs = ys := by
  induction ws with
  | nil => simp
  | cons w ws ih =>
    rw [List.flatMap_cons, List.flatMap_cons, List.append_assoc, List.append_assoc, List.forall_mem_cons, and_assoc, ← ih]
    constructor
    · intro heq
      have hlen : ∀ vs : List α, (vs.flatMap fun w => (f w).take n).length ≤ (vs.flatMap f).length := by
        intro vs
        induction vs with
        | nil => exact Nat.le_refl _
        | cons v vs ihv =>
          rw [List.flatMap_cons, List.flatMap_cons, List.length_append, List.length_append, List.length_take]
          omega
      have htotal := congrArg List.length heq
      have hrest := hlen ws
      simp only [List.length_append, List.length_take] at htotal
      have hw : (f w).length ≤ n := by omega
      rw [List.take_of_length_le hw, List.append_cancel_left_eq] at heq
      exact ⟨hw, heq⟩
    · rintro ⟨hw, heq⟩
      rw [List.take_of_length_le hw, heq]

theorem decisionsOf_flatten (ws : List (List Text)) : decisionsOf ws.flatten = ws.flatMap decisionsOf := by
  rw [decisionsOf, List.filterMap_flatten, List.flatMap_def]
  rfl

/-- What is left is stored where one of its lines has a message or names a file. -/
theorem Holds.noted_iff (h : Holds env taken r) :
    (r.messages ≠ [] ∨ r.fileRefs ≠ []) ↔
      ∃ line ∈ taken, hasMessage env line = true ∨ extractFileRefs env.maxPathLen 16 line ≠ [] := by
  have hmessages : r.messages ≠ [] ↔ ∃ line ∈ taken, hasMessage env line = true := by
    rw [← List.length_pos_iff, h.messages, List.countP_pos_iff]
  have hrefs : r.fileRefs ≠ [] ↔ ∃ line ∈ taken, extractFileRefs env.maxPathLen 16 line ≠ [] := by
    rw [Ne, h.refs]
    push Not
    rfl
  rw [hmessages, hrefs, ← exists_or]
  exact exists_congr fun line => and_or_left.symm

/-- The decisions that are left and stored are those that are left. -/
theorem stored_rest_iff {ds : List Text} {noted : Prop} [Decidable noted] :
    (if noted then ds.take 16 else []) = ds ↔ ds.length ≤ 16 ∧ (ds ≠ [] → noted) := by
  by_cases h : noted
  · rw [if_pos h, List.take_eq_self_iff]
    exact ⟨fun hlen => ⟨hlen, fun _ => h⟩, fun hlen => hlen.1⟩
  · rw [if_neg h]
    constructor
    · rintro rfl
      exact ⟨Nat.zero_le _, fun hne => absurd rfl hne⟩
    · rintro ⟨-, hne⟩
      by_contra hnil
      exact h (hne (Ne.symm hnil))

/-- A scan records each decision on a line that it takes up exactly when no window has more
decisions than there is room for, and what is left with a decision has a message or a file. -/
theorem decisionsOnce_iff (hcreates : env.Creates) (s : Scanner) (v : Visit) :
    DecisionsOnce env s v ↔ WindowsHold env s v := by
  let start : ScanLoop :=
    { calls := s.calls, stored := s.stored, seq := (env.sessionScanState s.calls v.session).1,
      windowStart := v.maxEndLine env s + 1 }
  have hstart : Holds env [] start := ⟨rfl, Nat.zero_lt_succ _, ⟨fun _ _ h => (nomatch h), fun _ => rfl⟩, rfl⟩
  let r := v.lines.foldl (ScanLoop.line env v.session v.path (v.maxEndLine env s)) start
  obtain ⟨hholds, hrecorded⟩ : Holds env (v.windows env s).2 r ∧
      recorded r.calls = recorded s.calls ++ (v.windows env s).1.flatMap fun w => (decisionsOf w).take 16 :=
    foldl_line hcreates hstart
  have hscan : recorded (scanFile env s v).calls = recorded s.calls ++
      ((v.windows env s).1.flatMap (fun w => (decisionsOf w).take 16) ++
        if r.messages ≠ [] ∨ r.fileRefs ≠ [] then (decisionsOf (v.windows env s).2).take 16 else []) := by
    rw [← List.append_assoc, ← hrecorded, ← hholds.decisions]
    show recorded (if r.messages ≠ [] ∨ r.fileRefs ≠ [] then r.flush env v.session v.path else r).calls = _
    split
    · exact recorded_flush hcreates
    · exact (List.append_nil _).symm
  have hlines : decisionsOf (v.scannedLines env s) =
      (v.windows env s).1.flatMap decisionsOf ++ decisionsOf (v.windows env s).2 := by
    have hflat : (v.windows env s).1.flatten ++ (v.windows env s).2 = [] ++ v.scannedLines env s :=
      flatten_lineWindows 0 (v.maxEndLine env s + 1)
    rw [← decisionsOf_flatten, ← decisionsOf_append]
    exact congrArg decisionsOf hflat.symm
  have hshort : (if r.messages ≠ [] ∨ r.fileRefs ≠ [] then (decisionsOf (v.windows env s).2).take 16 else []).length ≤
      (decisionsOf (v.windows env s).2).length := by
    split
    · exact List.length_take_le' _ _
    · exact Nat.zero_le _
  rw [DecisionsOnce, hscan, hlines, List.append_cancel_left_eq, flatMap_take_eq_iff _ _ _ _ _ hshort, stored_rest_iff,
    hholds.noted_iff]
  exact ⟨fun h => ⟨h.1, h.2.1, h.2.2⟩, fun h => ⟨h.closed, h.rest, h.noted⟩⟩

/-- An Edit call of a file with a relative path. -/
def editLine : Text :=
  text "\x7b\"type\":\"tool_use\",\"name\":\"Edit\"," ++ text "\"input\":\x7b\"file_path\":\"src/a.c\"\x7d\x7d\n"

/-- Lines without messages, and a db1 that takes every window. -/
def editEnv : ScanEnv where
  parse _ := some (.obj [(text "type", .str (text "tool_use"))])
  tokenizeForSearch _ _ := []
  maxPathLen := 4096
  nowUtc _ := text "2026-01-05T10:00:00Z"
  sessionScanState _ _ := (0, 0)
  windowCreateRaw calls _ _ _ _ := calls.length + 1

theorem editEnv_creates : editEnv.Creates := fun calls _ _ _ _ => Int.natCast_succ_pos calls.length

def editVisit (n : ℕ) : Visit := ⟨text "s1", text "/t/s1/a.jsonl", List.replicate n editLine⟩

theorem decisionsOnce_editVisit : editEnv.Creates ∧
    (DecisionsOnce editEnv {} (editVisit 20) ↔ WindowsHold editEnv {} (editVisit 20)) :=
  ⟨editEnv_creates, decisionsOnce_iff editEnv_creates {} (editVisit 20)⟩

/-- A call at the end of the file is lost, and so are four of twenty in a window. -/
theorem decisions_lost : ¬ DecisionsOnce editEnv {} (editVisit 1) ∧ ¬ DecisionsOnce editEnv {} (editVisit 20) := by
  constructor
  · show ¬ recorded (scanFile editEnv {} (editVisit 1)).calls = _
    decide +kernel
  · intro h
    have hrecorded : (recorded (scanFile editEnv {} (editVisit 20)).calls).length = 16 := by decide +kernel
    have hscanned : (decisionsOf ((editVisit 20).scannedLines editEnv {})).length = 20 := by decide +kernel
    have hlength := congrArg List.length h
    rw [hrecorded, List.length_append, hscanned] at hlength
    omega

end AimeeMemory.Core
