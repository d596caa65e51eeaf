import AimeeMemory.Context.Candidate
import AimeeMemory.Context.Sections

/-!
# The context of a task

`append_task_aware_context`: the candidates are scored and ordered, sections select from
them in that order and write what they selected in the reverse one, and what a section has
written no later one selects. The negative context, the derived facts and the markers
follow.
-/

namespace AimeeMemory.Context

open AimeeMemory.Core AimeeMemory.Lib

variable {R : Type*} [ScoreArith R] (b : Build R) (w : World R)

/-! ## Episode cards -/

def cardLines (cap : ℕ) : ℕ → List Text → List Text
  | _, [] => []
  | cardsLen, card :: cards =>
    if card = [] then cardLines cap cardsLen cards
    else if cap < cardsLen + card.length then []
    else (card ++ text "\n\n") :: cardLines cap (cardsLen + card.length) cards

/-- The summaries of episodes, for a query that is shaped like a session. -/
def episodeSummaries (hint : Text) : List (Piece UInt8) :=
  let lines := cardLines (b.maxContextTotal * 20 / 100) 0 (w.episodeCards.take 4)
  if memoryIsSessionQuery hint = false ∨ lines = [] then []
  else [.checked [heading "Episode Summaries"], .checked lines]

/-! ## What is retrieved -/

/-- The primary candidates in their order. -/
def primaryCandidates (hint : Text) : List (Candidate R) :=
  sortCandidates b w (((w.candidates .primary).take b.maxCandidates).map
    (primaryCandidate w (w.scopeLabelsForCwd []) (b.tokenizeForSearch hint 64) (hasTemporalMarkers hint)))

/-- The threshold under which what is retrieved counts as unreliable, where it is looked at. -/
def failureThreshold : Option R :=
  if w.abstainEnabled then some (if 0.0 < w.abstainGate then w.abstainGate else 0.40)
  else if w.failureDetectionEnabled then
    some (if 0.0 < w.failureDetectionThreshold then w.failureDetectionThreshold else 0.35)
  else none

/-- The candidates with those of the broader fetch. -/
def withFallback (terms : List Text) (cands : List (Candidate R)) : List (Candidate R) :=
  let fresh := (((w.candidates .fallback).take b.maxCandidates).filter fun row => !(cands.any (·.id = row.id))).take
    (b.maxCandidates - cands.length)
  cands ++ fresh.map (fallbackCandidate w (w.scopeLabelsForCwd []) terms)

/-- What is retrieved for a hint, and whether it is unreliable. -/
def retrieved (hint : Text) : List (Candidate R) × Bool :=
  let terms := b.tokenizeForSearch hint 64
  let cands := primaryCandidates b w hint
  match failureThreshold w with
  | none => (cands, false)
  | some threshold =>
    let confidence := memoryRetrievalConfidence terms cands threshold
    let more := withFallback b w terms cands
    if confidence.belowThreshold ∧ cands.length < b.maxCandidates ∧ cands.length < more.length then
      let sorted := sortCandidates b w more
      (sorted, (memoryRetrievalConfidence terms sorted threshold).belowThreshold)
    else (cands, confidence.belowThreshold)

/-! ## Sections of candidates -/

/-- An entry of the table of sections. -/
structure SectionSpec where
  header : String
  kind : String
  kind2 : Option String
  tier : Option String
  maxChars : ℤ
  deriving DecidableEq, Repr

def SectionSpec.admits (s : SectionSpec) (c : Candidate R) : Bool :=
  (c.kind = text s.kind ∨ s.kind2.any fun kind => c.kind = text kind) ∧ s.tier.all fun tier => c.tier = text tier

/-- The table of sections of a plan. -/
def sectionTable (budget : KindBudget R) : List SectionSpec :=
  let total : R := ((b.maxContextTotal - 500 : ℤ) : R)
  [⟨"Mental Models", "policy", some "workflow", some "L4", ScoreArith.trunc (0.16 * total)⟩,
    ⟨"Key Facts", "fact", some "preference", none, ScoreArith.trunc ((budget.fact + budget.preference) * total)⟩,
    ⟨"Constraints", "decision", some "policy", none, ScoreArith.trunc ((budget.decision + budget.policy) * total)⟩,
    ⟨"Procedures", "procedure", none, none, ScoreArith.trunc (budget.procedure * total)⟩,
    ⟨"Active Tasks", "task", none, none, ScoreArith.trunc (budget.task * total)⟩,
    ⟨"Recent Context", "episode", none, none, ScoreArith.trunc (budget.episode * total)⟩]

/-- The token budget. -/
def tokenBudget : ℕ := if 0 < w.contextBudgetTokens then w.contextBudgetTokens.toNat else 2048

/-- What a section has selected, with the places of the candidates, and its tokens. -/
structure Selection (R : Type*) where
  chosen : List (Candidate R × ℕ)
  tokens : ℕ

/-- Whether a candidate restates one that is selected. -/
def Selection.restates (sel : Selection R) (c : Candidate R) : Bool :=
  sel.chosen.any fun chosen => assembleTextsNearDuplicate c.shown chosen.1.shown

/-- A candidate, as the section comes to it. -/
def selectStep (s : SectionSpec) (tokensUsed : ℕ) (sel : Selection R) (c : Candidate R × ℕ) : Selection R :=
  if sel.chosen.length < b.maxContextMems ∧ c.1.id ≠ 0 ∧ s.admits c.1 ∧
      ¬ (w.contextBudgetEnabled ∧ tokenBudget w < tokensUsed + sel.tokens + c.1.estimatedTokens) ∧
      ¬ sel.restates c.1 then
    ⟨sel.chosen ++ [c], sel.tokens + c.1.estimatedTokens⟩
  else sel

/-- What a section selects of the candidates. -/
def selectSection (s : SectionSpec) (tokensUsed : ℕ) (cands : List (Candidate R)) : Selection R :=
  cands.zipIdx.foldl (selectStep b w s tokensUsed) ⟨[], 0⟩

/-- The text of a candidate between its tags. -/
def escapedText (c : Candidate R) : Text := xmlEscapeText (truncated b c.shown) (b.maxMemContentLen * 2)

/-- The room that a candidate takes of its section's. -/
def lineLen (c : Candidate R) : ℕ := (escapedText b c).length + 96

/-- The line of a candidate. -/
def candidateLine (tag : Text) (c : Candidate R) : Text :=
  text "<" ++ tag ++ text " tier=\"" ++ named c.tier ++ text "\" confidence=\"" ++ b.fmt2 c.confidence ++
    text "\" score=\"" ++ b.fmt2 c.score ++ text "\">" ++ escapedText b c ++ text "</" ++ tag ++ text ">\n"

/-- What a section has written, last line last, and the room it took. -/
structure Emission (R : Type*) where
  emitted : List (Candidate R × ℕ)
  sectionLen : ℕ

/-- `emit_candidate`: nothing where the section has no room for the line. -/
def emitCandidate (s : SectionSpec) (e : Emission R) (c : Candidate R × ℕ) : Emission R :=
  if s.maxChars < e.sectionLen + lineLen b c.1 then e
  else ⟨e.emitted ++ [c], e.sectionLen + lineLen b c.1⟩

/-- What a section writes of what it selected, from the last to the first. -/
def emitSection (s : SectionSpec) (sel : Selection R) : Emission R :=
  sel.chosen.reverse.foldl (emitCandidate b s) ⟨[], 0⟩

/-- The state of the pass over the sections: the candidates with the id of each written one set to zero, the tokens
used, the pieces, and the candidates that were written. -/
structure SectionPass (R : Type*) where
  cands : List (Candidate R)
  tokensUsed : ℕ
  pieces : List (Piece UInt8)
  emitted : List (Candidate R)

/-- The candidates at these places are consumed. -/
def consume (cands : List (Candidate R)) (places : List ℕ) : List (Candidate R) :=
  cands.mapIdx fun i c => if i ∈ places then { c with id := 0 } else c

/-- A section. -/
def sectionStep (p : SectionPass R) (s : SectionSpec) : SectionPass R :=
  let e := emitSection b s (selectSection b w s p.tokensUsed p.cands)
  let lines := e.emitted.map fun c => candidateLine b (contextXmlTagForHeader s.header) c.1
  { cands := consume p.cands (e.emitted.map (·.2))
    tokensUsed :=
      if w.contextBudgetEnabled then p.tokensUsed + (e.emitted.map (·.1.estimatedTokens)).sum else p.tokensUsed
    pieces := p.pieces ++ [.block (heading s.header :: lines) (lines ≠ [])]
    emitted := p.emitted ++ e.emitted.map (·.1) }

/-- The pass over the sections of a table. -/
def sectionPass (table : List SectionSpec) (cands : List (Candidate R)) : SectionPass R :=
  table.foldl (sectionStep b w) ⟨cands, 0, [], []⟩

/-! ## The negative context -/

/-- What the first ten candidates have superseded, at most four pairs, none twice. -/
def supersededPairs : List (Candidate R) → List (SupersedePair R)
  | cands => (cands.take 10).foldl (fun pairs c =>
      match w.supersedeLookup c.id with
      | none => pairs
      | some pair =>
        if 4 ≤ pairs.length ∨ pairs.any (·.oldId = pair.oldId) ∨ 12 ≤ pairs.length then pairs else pairs ++ [pair]) []

def supersededLines (pair : SupersedePair R) : Text :=
  text "  <outdated_memory confidence=\"" ++ b.fmt2 pair.oldConfidence ++ text "\" expired_at=\"" ++ pair.validUntil ++
    text "\">Outdated: " ++ xmlEscapeText pair.oldContent 2048 ++ text "</outdated_memory>\n" ++
    text "  <replacement_memory confidence=\"" ++ b.fmt2 pair.newConfidence ++ text "\">Use instead: " ++
    xmlEscapeText pair.newContent 2048 ++ text "</replacement_memory>\n"

/-- Whether a token of the hint stands in a pattern or in its description. -/
def AntiPattern.concerns (p : AntiPattern R) (token : Text) : Bool :=
  lowered token <:+: lowered (p.pattern.take 511) ∨ lowered token <:+: lowered (p.description.take 1023)

/-- The patterns that the tokens of the hint call up, one for each token, from so many items on to six. The patterns
shown are remembered by 255 of their bytes. -/
def antiPatternLoop (items : ℕ) : List Text → List Text → List (AntiPattern R)
  | _, [] => []
  | seen, token :: tokens =>
    if 6 ≤ items + seen.length then []
    else if token.length < 4 then antiPatternLoop items seen tokens
    else
      match (w.antiPatterns.take 64).find? fun p => p.concerns token ∧ p.pattern ∉ seen with
      | none => antiPatternLoop items seen tokens
      | some p => p :: antiPatternLoop items (seen ++ [p.pattern.take 255]) tokens

def antiPatternLine (p : AntiPattern R) : Text :=
  text "  <anti_pattern confidence=\"" ++ b.fmt2 p.confidence ++ text "\">Avoid: " ++
    xmlEscapeText (if p.description = [] then p.pattern else p.description) 2048 ++ text "</anti_pattern>\n"

/-- `append_negative_context_block`. -/
def appendNegativeContextBlock (hint : Text) (cands : List (Candidate R)) : List (Piece UInt8) :=
  let pairs := supersededPairs w cands
  let tokens := contextSplitTokens ((b.normalizeKey hint).take 255) 16
  let lines := pairs.map (supersededLines b) ++ (antiPatternLoop w pairs.length [] tokens).map (antiPatternLine b)
  if hint = [] ∨ cands = [] then []
  else if lines = [] then [.unlessFull [text "\n<avoid_these_patterns>\n"] false]
  else [.unlessFull (text "\n<avoid_these_patterns>\n" :: lines ++ [text "</avoid_these_patterns>\n"]) true]

/-! ## The tail -/

/-- The facts derived from the candidates, as their ids stand after the sections. -/
def derivedFactsPieces (hint : Text) (cands : List (Candidate R)) : List (Piece UInt8) :=
  if w.deriveFactsEnabled ∧ memoryClassifyDeriverShape hint ≠ .unknown then
    match w.derivedFacts hint (cands.map (·.id)) with
    | none => []
    | some json => [.checked [text "\n## Derived Facts\n" ++ json ++ text "\n"]]
  else []

/-- The marker of a retrieval that is withheld or unreliable. -/
def markerPieces (unreliable : Bool) : List (Piece UInt8) :=
  if unreliable = false then []
  else if w.abstainEnabled then
    [.checked [text "\n## Memory Answerability\nNo reliable memory evidence for this query.\n"]]
  else
    [.checked [text "\n## Retrieval Confidence: LOW\nThe retrieved memories may not contain reliable information " ++
      text "for this query.  If you cannot find a confident answer in " ++
      text "the context above, say so explicitly rather than speculating.\n"]]

/-- The intent's plan. The recency of a hint that speaks of a time is the greater one. -/
def planFor (hint : Text) : RetrievalPlan R :=
  let plan := retrievalPlanForIntent (classifyIntent hint)
  if hasTemporalMarkers hint then { plan with recencyWeight := 0.85 } else plan

/-- The candidates that the sections get: none where the answer is withheld. -/
def answerable (hint : Text) : List (Candidate R) :=
  let (cands, unreliable) := retrieved b w hint
  if unreliable ∧ w.abstainEnabled then [] else cands

/-- The pass over the sections of a hint. -/
def taskPass (hint : Text) : SectionPass R :=
  sectionPass b w (sectionTable b (planFor hint).kindBudget) (answerable b w hint)

/-- `append_task_aware_context`. -/
def appendTaskAwareContext (hint : Text) : List (Piece UInt8) :=
  let pass := taskPass b w hint
  episodeSummaries b w hint ++ pass.pieces ++ appendNegativeContextBlock b w hint (answerable b w hint) ++
    (if (planFor hint : RetrievalPlan R).includeL3 then [appendKvSection b w "Failure Warnings" .failureWarnings 600 3]
      else []) ++
    derivedFactsPieces w hint pass.cands ++ markerPieces w (retrieved b w hint).2

/-- The failure that a call records, of a hint with something in it. -/
def recordedFailure (hint : Text) : Option Text :=
  let norm := (b.normalizeKey hint).take 255
  if (retrieved b w hint).2 ∧ w.directivesEnabled ∧ norm ≠ [] then some norm else none

end AimeeMemory.Context
