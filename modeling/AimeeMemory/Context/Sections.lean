import AimeeMemory.Context.World

/-!
# The sections of a context

What each part of the assembly appends, but for the candidates of a task: the lines that it
shows of its rows, and how they are written. Which lines are shown does not depend on the
buffer; so a part is a list of pieces, and the buffer comes in where they are written.
-/

namespace AimeeMemory.Context

open AimeeMemory.Core AimeeMemory.Lib

variable {R : Type*} (b : Build R) (w : World R)

/-- A text of more than `maxMemContentLen` bytes is cut, with dots behind it. -/
def truncated (t : Text) : Text :=
  if b.maxMemContentLen < t.length then t.take b.maxMemContentLen ++ text "..." else t

/-- The heading of a section. -/
def heading (header : String) : Text := text "\n## " ++ text header ++ text "\n"

/-- The line of an item. -/
def item (t : Text) : Text := text "- " ++ t ++ text "\n"

/-- `assemble_section_is_near_duplicate`. -/
def assembleSectionIsNearDuplicate (t : Text) (emitted : List Text) : Bool := emitted.any (assembleTextsNearDuplicate t)

/-- A text joins the emitted ones while there is room for it. -/
def noted (emitted : List Text) (t : Text) : List Text :=
  if emitted.length < b.maxContextMems then emitted ++ [t] else emitted

/-! ## Rows by key and content -/

/-- The loop of `append_section`: the lines of the rows. -/
def sectionLines (maxChars maxItems : ℕ) : List Text → ℕ → ℕ → List KvRow → List Text
  | _, _, _, [] => []
  | emitted, sectionLen, items, row :: rows =>
    let shown := if row.content = [] then row.key else row.content
    let t := truncated b shown
    if maxItems ≤ items then []
    else if row.key = [] ∨ assembleSectionIsNearDuplicate shown emitted then
      sectionLines maxChars maxItems emitted sectionLen items rows
    else if maxChars < sectionLen + (t.length + 4) then []
    else item t :: sectionLines maxChars maxItems (noted b emitted shown) (sectionLen + (t.length + 4)) (items + 1) rows

/-- `append_section`: the heading is taken back where no line follows it. -/
def appendSection (header : String) (rows : List KvRow) (maxChars maxItems : ℕ) : Piece UInt8 :=
  let lines := sectionLines b maxChars maxItems [] 0 0 rows
  .block (heading header :: lines) (lines ≠ [])

/-- The rows of `append_scoped_section` that the scope lets through, by their rank. -/
def scopedItems (rows : List IdKvRow) (workspace project : Text) (includeVisible : Bool) : List Text :=
  let items := (rows.filterMap fun row =>
    let rank := w.scopeVisibilityRank row.id workspace project
    if (if includeVisible then rank ≤ 0 else 0 < rank) ∨ row.key = [] then none
    else some (rank, (if row.content = [] then row.key else row.content).take (b.maxMemContentLen + 7))).take 64
  (items.mergeSort fun a c => c.1 ≤ a.1).map (·.2)

def scopedLines (maxChars maxItems : ℕ) : ℕ → ℕ → List Text → List Text
  | _, _, [] => []
  | sectionLen, emitted, shown :: rest =>
    let t := truncated b shown
    if maxItems ≤ emitted ∨ maxChars < sectionLen + (t.length + 4) then []
    else item t :: scopedLines maxChars maxItems (sectionLen + (t.length + 4)) (emitted + 1) rest

/-- `append_scoped_section`. -/
def appendScopedSection (header : String) (rows : List IdKvRow) (workspace project : Text) (includeVisible : Bool)
    (maxChars maxItems : ℕ) : List (Piece UInt8) :=
  let items := scopedItems b w rows workspace project includeVisible
  let lines := scopedLines b maxChars maxItems 0 0 items
  if items = [] then [] else [.block (heading header :: lines) (lines ≠ [])]

/-! ## Global constraints -/

def globalConstraintLines : ℕ → List KvRow → List Text
  | _, [] => []
  | sectionLen, row :: rows =>
    let t := truncated b (if row.content = [] then row.key else row.content)
    let line := text "- " ++ row.key ++ text ": " ++ t ++ text "\n"
    if row.key = [] then globalConstraintLines sectionLen rows
    else if b.maxContextTotal * 12 / 100 < sectionLen + (row.key.length + t.length + 8) then []
    else line :: globalConstraintLines (sectionLen + line.length) rows

/-- `append_global_constraints`. -/
def appendGlobalConstraints : List (Piece UInt8) :=
  let lines := globalConstraintLines b 0 (w.globalConstraints.take 6)
  if lines = [] then [] else [.block [heading "Global Constraints"] true, .checked lines]

/-! ## Without a task -/

/-- The hint at what a key fact depends on. Only as much of it as a buffer of 128 bytes holds is shown. -/
def depHint (keys : List Text) : Text :=
  match keys.filter (· ≠ []) with
  | [] => []
  | key :: keys =>
    text " (depends on: " ++ key ++ keys.flatMap (fun key => text ", " ++ key) ++ text ")"

/-- The line of a key fact. -/
def keyFactLine (row : KeyFactRow) : Text :=
  let shown := if row.content = [] then row.key else row.content
  let updated := if row.supersedeDate = [] then [] else text " (updated " ++ row.supersedeDate.take 10 ++ text ")"
  let source := if row.provenance = [] then [] else (text " [Source: " ++ row.provenance ++ text "]").take 127
  (text "- " ++ shown.take b.maxMemContentLen ++ updated ++ source ++
    (depHint ((w.dependsOnKeys row.id).take 3)).take 127).take (b.maxMemContentLen + 255)

/-- The loop over the key facts: their lines, and the keys that seed the graph. -/
def keyFactLoop : List Text → ℕ → ℕ → List KeyFactRow → List Text × List Text
  | _, _, _, [] => ([], [])
  | emitted, sectionLen, items, row :: rows =>
    let shown := if row.content = [] then row.key else row.content
    let line := keyFactLine b w row
    let seed := if row.key = [] then [] else [row.key]
    if b.maxContextMems ≤ items then ([], [])
    else if assembleSectionIsNearDuplicate shown emitted then keyFactLoop emitted sectionLen items rows
    else if 2000 < sectionLen + (line.length + 1) then ([], seed)
    else
      let (lines, seeds) := keyFactLoop (noted b emitted shown) (sectionLen + (line.length + 1)) (items + 1) rows
      ((line ++ text "\n") :: lines, seed ++ seeds)

/-- The memories related to the key facts. All of it is taken back where no key fact is shown. -/
def relatedContext (seeds : List Text) : List Text :=
  match if seeds = [] then [] else w.graphRelated seeds 10 with
  | [] => []
  | related => heading "Related Context" :: related.map fun r => item r.content

def appendKeyFacts : Piece UInt8 :=
  let (lines, seeds) := keyFactLoop b w [] 0 0 (w.keyFacts.take b.maxContextMems)
  .block (heading "Key Facts" :: lines ++ relatedContext w seeds) (lines ≠ [])

/-- A section of the rows that the store lists for it. -/
def appendKvSection (header : String) (s : KvSection) (maxChars maxItems : ℕ) : Piece UInt8 :=
  appendSection b header ((w.kvSection s).take b.maxContextMems) maxChars maxItems

/-- `append_untasked_context`. -/
def appendUntaskedContext : List (Piece UInt8) :=
  [appendKeyFacts b w,
    appendKvSection b w "Active Tasks" .activeTasks 1500 b.maxContextMems,
    appendKvSection b w "Recent Context" .recentContext 1200 b.maxContextMems,
    appendKvSection b w "Constraints" .constraints 800 b.maxContextMems,
    appendKvSection b w "Procedures" .procedures 600 b.maxContextMems,
    appendKvSection b w "Failure Warnings" .failureWarnings 600 3]

/-! ## The graph -/

/-- A name, or a question mark for none. -/
def named (t : Text) : Text := if t = [] then text "?" else t

def edgeLine (e : Edge) : Text :=
  text "- " ++ named e.source ++ text " -[" ++ named e.relation ++ text "]-> " ++ named e.target ++ text "\n"

/-- The relations of the entities. The heading is written with the first of them. -/
def entityRelationships : List (Piece UInt8) :=
  match (w.topTriples.take 10).map edgeLine with
  | [] => []
  | line :: lines => [.paused 128 ((heading "Entity Relationships" ++ line) :: lines)]

/-- `append_entity_relationships`. -/
def appendEntityRelationships : List (Piece UInt8) := if w.scopeActive then [] else entityRelationships w

/-- The words of a task hint that seed the graph. -/
def graphSeeds (hint : Text) : List Text :=
  (((hint.take 511).splitOnP fun c => c = 32 ∨ c = 9 ∨ c = 10).filter fun word => 3 ≤ word.length).take 16

/-- The first four relations of the seeds with a text. -/
def supportingRelations (seeds : List Text) : List MemoryRelation :=
  (seeds.flatMap fun seed => ((w.relationsSupporting seed).take 6).filter (·.factText ≠ [])).take 4

def relationLine (r : MemoryRelation) : Text :=
  text "- [" ++ named r.srcEntity ++ text " -[" ++ named r.relation ++ text "]-> " ++ named r.dstEntity ++ text "] " ++
    r.factText.take b.maxMemContentLen ++ text "\n"

/-- `append_graph_expansion`: the relations of the seeds, or, where there are none, the memories related to them. -/
def appendGraphExpansion (hint : Text) : List (Piece UInt8) :=
  let seeds := graphSeeds hint
  let relations := supportingRelations w seeds
  let related := w.graphRelated seeds 8
  if seeds = [] then []
  else if relations ≠ [] then
    [.block (heading "Supporting Relations (graph)" :: relations.map (relationLine b)) true]
  else if related ≠ [] then
    [.block [heading "Related Memories (graph)"] true,
      .paused 128 (related.map fun r => item ((if r.content = [] then r.key else r.content).take b.maxMemContentLen))]
  else []

end AimeeMemory.Context
