import AimeeMemory.Core.Gate
import AimeeMemory.Lib.ScoreArith

/-!
# What a task hint says

The questions that the context assembly asks of a task hint: its intent and the budget of
each kind of memory under it, whether it asks for a session or for what is derived from
dates, and whether it, or a memory, speaks of a time.
-/

namespace AimeeMemory.Context

open AimeeMemory.Core AimeeMemory.Lib

def lowered (t : Text) : Text := t.map tolower

def isalpha (c : UInt8) : Bool := isupper c || islower c

/-- Some phrase stands somewhere in the lower-case copy of the text, of so many bytes. -/
def saysAny (phrases : List String) (size : ℕ) (t : Text) : Bool :=
  phrases.any fun phrase => text phrase <:+: lowered (t.take (size - 1))

def temporalPhrases : List String :=
  ["yesterday", "last week", "last month", "before we", "before the", "after we", "after the", "previously",
    "used to", "when we", "at the time", "back when", "prior to", "earlier today", "this morning", "this week",
    "recently", "lately", "since we", "once we"]

/-- `has_temporal_markers`. -/
def hasTemporalMarkers (t : Text) : Bool := saysAny temporalPhrases 2048 t

def sessionKeywords : List String :=
  ["what happened", "how did", "tell me about", "recap", "summary of", "session summary", "what went on",
    "what was discussed", "what did we do"]

/-- `memory_is_session_query`. -/
def memoryIsSessionQuery (hint : Text) : Bool := saysAny sessionKeywords 512 hint

inductive QueryShape where
  | unknown
  | quantitative
  | temporalInterval
  deriving DecidableEq, Repr

def quantitativeKeywords : List String :=
  ["how many", "how often", "how much", "count", "number of", "total", "times", "frequency", "how frequent"]

def intervalKeywords : List String :=
  ["how long ago", "how long since", "how long until", "days between", "days since", "days ago", "weeks ago",
    "months ago", "years ago", "time between", "time since", "interval", "duration", "elapsed"]

/-- `memory_classify_deriver_shape`. -/
def memoryClassifyDeriverShape (query : Text) : QueryShape :=
  if saysAny quantitativeKeywords 512 query then .quantitative
  else if saysAny intervalKeywords 512 query then .temporalInterval
  else .unknown

/-! ## Intent -/

inductive TaskIntent where
  | debug
  | plan
  | review
  | deploy
  | general
  deriving DecidableEq, Repr

def debugKeywords : List String :=
  ["fix", "bug", "error", "fail", "broken", "crash", "debug", "issue", "wrong", "stacktrace", "panic", "segfault",
    "exception"]

def planKeywords : List String :=
  ["plan", "design", "architect", "propose", "new", "feature", "create", "build", "implement", "add"]

def reviewKeywords : List String := ["review", "check", "audit", "convention", "style", "verify", "lint", "inspect"]

def deployKeywords : List String :=
  ["deploy", "release", "ship", "rollout", "migrate", "upgrade", "install", "publish"]

/-- `count_keyword_matches`: the keywords that begin somewhere in the text, behind no letter. -/
def countKeywordMatches (t : Text) (keywords : List String) : ℕ :=
  keywords.countP fun keyword =>
    (List.range t.length).any fun i =>
      lowered ((t.drop i).take (text keyword).length) = lowered (text keyword) ∧
        (i = 0 ∨ (t[i - 1]?).all fun c => !isalpha c)

/-- `classify_intent`: the intent with the most keywords, the first one of equals. -/
def classifyIntent (hint : Text) : TaskIntent :=
  let scores : List (TaskIntent × ℕ) :=
    [(.plan, countKeywordMatches hint planKeywords), (.review, countKeywordMatches hint reviewKeywords),
      (.deploy, countKeywordMatches hint deployKeywords)]
  let best := scores.foldl (fun best score => if best.2 < score.2 then score else best)
    (TaskIntent.debug, countKeywordMatches hint debugKeywords)
  if hint = [] then .general
  else if best.2 = 0 then if hasTemporalMarkers hint then .review else .general
  else best.1

/-- The part of the context that goes to each kind. -/
structure KindBudget (R : Type*) where
  fact : R
  preference : R
  decision : R
  episode : R
  task : R
  scratch : R
  procedure : R
  policy : R

/-- `retrieval_plan_t`. -/
structure RetrievalPlan (R : Type*) where
  kindBudget : KindBudget R
  includeL3 : Bool
  recencyWeight : R

variable {R : Type*} [ScoreArith R]

/-- `retrieval_plan_for_intent`. -/
def retrievalPlanForIntent : TaskIntent → RetrievalPlan R
  | .debug => ⟨⟨0.14, 0.12, 0.10, 0.23, 0.05, 0.00, 0.26, 0.10⟩, true, 0.7⟩
  | .plan => ⟨⟨0.23, 0.12, 0.23, 0.05, 0.09, 0.00, 0.05, 0.23⟩, false, 0.2⟩
  | .review => ⟨⟨0.13, 0.15, 0.18, 0.09, 0.00, 0.00, 0.10, 0.35⟩, false, 0.3⟩
  | .deploy => ⟨⟨0.13, 0.12, 0.10, 0.14, 0.05, 0.00, 0.27, 0.19⟩, true, 0.5⟩
  | .general => ⟨⟨0.18, 0.12, 0.14, 0.14, 0.10, 0.00, 0.15, 0.17⟩, false, 0.3⟩

end AimeeMemory.Context
