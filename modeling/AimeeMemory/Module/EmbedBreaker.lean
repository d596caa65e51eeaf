import AimeeMemory.Lib.Trace
import Mathlib.Data.List.Basic

/-!
# The circuit breaker of the embedder

`embed.go`: `embedBreaker` and the calls around it. Each `Embed` asks `allow` once and,
where it may proceed, reports once: a success, a failure, or the cancel of a probe. Each
of the four methods holds the breaker's lock, so they are the atomic steps of a run, in
which the reports of any number of calls come at any time after their `allow`.

## What is proved

* **`singleProbe_of_ownReports`**: while no call reports during another's probe, at most
  one of the calls admitted by an open breaker is unfinished.
* **`lateFailure_two_probes`**: without the condition there may be two. A report does not
  say whose it is, and each of them clears the flag of the probe.
-/

namespace AimeeMemory.Module

open AimeeMemory.Lib

def breakerThreshold : UInt32 := 3
def breakerBaseMS : Int64 := 1000
def breakerMaxMS : Int64 := 30000

/-- `embedBreaker`, without its statistics. -/
structure EmbedBreaker where
  failureStreak : UInt32 := 0
  openCount : UInt32 := 0
  probeInflight : Bool := false
  openedAtMS : Int64 := 0
  /-- Positive while the breaker is open. -/
  retryAtMS : Int64 := 0
  deriving DecidableEq, Repr

/-- The loop of `breakerDelayMS`: at most `n` doublings, up to `maxMS`. -/
def doubled (maxMS : Int64) : ℕ → Int64 → Int64
  | 0, delay => delay
  | n + 1, delay =>
    if delay < maxMS then doubled maxMS n (if delay > maxMS / 2 then maxMS else delay * 2) else delay

/-- `breakerDelayMS`. -/
def breakerDelayMS (openCount : UInt32) (nowMS baseMS maxMS : Int64) : Int64 :=
  let baseMS := if baseMS < 1 then 1 else baseMS
  let maxMS := if maxMS < baseMS then baseMS else maxMS
  let delay := doubled maxMS openCount.toNat baseMS
  let jitterCap := if delay / 4 > maxMS - delay then maxMS - delay else delay / 4
  if jitterCap > 0 then
    let mixed := nowMS.toUInt64 ^^^ ((openCount + 1).toUInt64 * 0x9e3779b97f4a7c15)
    delay + (mixed % (jitterCap + 1).toUInt64).toInt64
  else delay

namespace EmbedBreaker

/-- The breaker is open. -/
def isOpen (b : EmbedBreaker) : Bool := b.retryAtMS > 0

/-- `allow`: whether a call may proceed, how long until the next chance, and the breaker. -/
def allow (b : EmbedBreaker) (nowMS : Int64) : Bool × Int64 × EmbedBreaker :=
  if b.retryAtMS ≤ 0 then (true, 0, b)
  else
    -- a clock that moved backwards past the opening makes the call eligible
    let eligible := nowMS ≥ b.retryAtMS ∨ nowMS < b.openedAtMS
    if eligible ∧ !b.probeInflight then (true, 0, { b with probeInflight := true })
    else if ¬ eligible then (false, b.retryAtMS - nowMS, b)
    else (false, 0, b)

def reportSuccess (_ : EmbedBreaker) : EmbedBreaker where
  failureStreak := 0
  openCount := 0
  probeInflight := false
  openedAtMS := 0
  retryAtMS := 0

def cancelProbe (b : EmbedBreaker) : EmbedBreaker := { b with probeInflight := false }

def reportFailure (b : EmbedBreaker) (nowMS : Int64) : EmbedBreaker :=
  let streak := if b.failureStreak < 0xffffffff then b.failureStreak + 1 else b.failureStreak
  let b := { b with failureStreak := streak, probeInflight := false }
  if streak ≥ breakerThreshold then
    { b with
      openedAtMS := nowMS
      retryAtMS := nowMS + breakerDelayMS b.openCount nowMS breakerBaseMS breakerMaxMS
      openCount := if b.openCount < 0xffffffff then b.openCount + 1 else b.openCount }
  else b

end EmbedBreaker

/-- What a call that was let through reports at its end. -/
inductive Report where
  /-- A vector, or a refusal that proves the service reachable. -/
  | success
  /-- The service was not reached, or its answer was none. -/
  | failure
  /-- A local error: the service was not called. -/
  | cancel
  deriving DecidableEq, Repr

/-- The breaker after a report. -/
def EmbedBreaker.report (b : EmbedBreaker) (nowMS : Int64) : Report → EmbedBreaker
  | .success => b.reportSuccess
  | .failure => b.reportFailure nowMS
  | .cancel => b.cancelProbe

/-- A call that was let through and has not reported. -/
structure Embedding where
  call : ℕ
  /-- It was let through while the breaker was open. -/
  probe : Bool
  deriving DecidableEq, Repr

/-- The breaker and the calls in flight. Calls are numbered as they come. -/
structure Embedder where
  breaker : EmbedBreaker := {}
  calls : ℕ := 0
  unfinished : List Embedding := []
  deriving DecidableEq, Repr

/-- One critical section of one call. -/
inductive Section where
  /-- A new call asks `allow`. -/
  | allow (nowMS : Int64)
  /-- A call that was let through reports; any other number is no step. -/
  | report (call : ℕ) (r : Report) (nowMS : Int64)
  deriving DecidableEq, Repr

def Embedder.step (s : Embedder) : Section → Embedder
  | .allow nowMS =>
    let (allowed, _, b) := s.breaker.allow nowMS
    { breaker := b
      calls := s.calls + 1
      unfinished := if allowed then s.unfinished ++ [⟨s.calls, s.breaker.isOpen⟩] else s.unfinished }
  | .report call r nowMS =>
    if s.unfinished.any (·.call = call) then
      { s with
        breaker := s.breaker.report nowMS r
        unfinished := s.unfinished.filter (·.call ≠ call) }
    else s

/-- The unfinished calls that an open breaker let through. -/
def Embedder.probes (s : Embedder) : List Embedding := s.unfinished.filter (·.probe)

/-- At most one call let through by an open breaker is unfinished, and while there is one
the breaker knows. -/
def SingleProbe (s : Embedder) : Prop := s.probes.length ≤ 1 ∧ (s.probes ≠ [] → s.breaker.probeInflight)

/-- A call that reports while a probe is unfinished is the probe. -/
def OwnReport (s : Embedder) : Section → Prop
  | .allow _ => True
  | .report call _ _ => s.unfinished.any (·.call = call) → ∀ p ∈ s.probes, p.call = call

instance (s : Embedder) (i : Section) : Decidable (OwnReport s i) := by
  cases i <;> unfold OwnReport <;> infer_instance

/-! ## One step -/

/-- What `allow` can do: a closed breaker lets the call through; an open one lets it through
only where no probe is out, and remembers it; otherwise the call is suppressed. -/
theorem EmbedBreaker.allow_cases (b : EmbedBreaker) (nowMS : Int64) :
    (b.isOpen = false ∧ ∃ d, b.allow nowMS = (true, d, b)) ∨
      (b.probeInflight = false ∧ ∃ d, b.allow nowMS = (true, d, { b with probeInflight := true })) ∨
      ∃ d, b.allow nowMS = (false, d, b) := by
  unfold allow
  split
  · rename_i hclosed
    refine .inl ⟨?_, 0, rfl⟩
    simpa [isOpen] using hclosed
  · simp only
    split
    · rename_i hprobe
      exact .inr (.inl ⟨by simpa using hprobe.2, 0, rfl⟩)
    · refine .inr (.inr ?_)
      split <;> exact ⟨_, rfl⟩

theorem SingleProbe.allow {s : Embedder} (h : SingleProbe s) (nowMS : Int64) :
    SingleProbe (s.step (.allow nowMS)) := by
  obtain ⟨hone, hflag⟩ := h
  rcases s.breaker.allow_cases nowMS with ⟨hclosed, d, heq⟩ | ⟨hfree, d, heq⟩ | ⟨d, heq⟩
  · have hsame : (s.step (.allow nowMS)).probes = s.probes := by
      simp [Embedder.step, heq, Embedder.probes, hclosed]
    rw [SingleProbe, hsame]
    simp only [Embedder.step, heq]
    exact ⟨hone, hflag⟩
  · -- no probe was out, so the new call is the only one
    have hnone : s.probes = [] := by
      by_contra hne
      simp [hflag hne] at hfree
    rw [Embedder.probes] at hnone
    simp only [SingleProbe, Embedder.step, heq, Embedder.probes, if_pos, List.filter_append, hnone]
    refine ⟨?_, fun _ => trivial⟩
    cases s.breaker.isOpen <;> simp
  · simp only [SingleProbe, Embedder.step, heq]
    exact ⟨hone, hflag⟩

theorem SingleProbe.report {s : Embedder} (h : SingleProbe s) {call : ℕ} {r : Report} {nowMS : Int64}
    (hown : OwnReport s (.report call r nowMS)) : SingleProbe (s.step (.report call r nowMS)) := by
  simp only [Embedder.step]
  split
  · rename_i hcall
    -- the probe, if there is one, is the call that reports
    have hnone : (s.unfinished.filter (·.call ≠ call)).filter (·.probe) = [] := by
      rw [List.filter_filter, List.filter_eq_nil_iff]
      intro p hp
      have := hown hcall p
      simp only [Embedder.probes, List.mem_filter] at this
      grind
    simp only [SingleProbe, Embedder.probes, hnone]
    simp
  · exact h

theorem SingleProbe.step {s : Embedder} (h : SingleProbe s) {i : Section} (hown : OwnReport s i) :
    SingleProbe (s.step i) := by
  cases i with
  | allow nowMS => exact h.allow nowMS
  | report call r nowMS => exact h.report hown

/-! ## Runs -/

/-- **One probe at a time**: in every run in which no call reports while another's probe is
unfinished, at most one call that an open breaker let through is unfinished, and the
breaker does not forget it. -/
theorem singleProbe_of_ownReports (is : List Section)
    (his : Meets Embedder.step (fun _ => OwnReport) {} is) :
    SingleProbe (run Embedder.step {} is) :=
  run_invariant (I := fun _ s => SingleProbe s) ⟨by decide, by decide⟩ (fun _ _ _ h hi => h.step hi) is his

/-- Four calls are let through; three fail and open the breaker; the fifth call probes. The
fourth, which was let through before, fails late and releases the probe of the fifth. -/
def lateFailure : List Section :=
  [.allow 1, .allow 2, .allow 3, .allow 4, .report 0 .failure 1, .report 1 .failure 2,
   .report 2 .failure 3, .allow 5000, .report 3 .failure 4, .allow 5001]

/-- The two last calls are both probes, and neither has finished. -/
theorem lateFailure_two_probes : ¬ ∀ is : List Section, SingleProbe (run Embedder.step {} is) := by
  intro h
  have := (h lateFailure).1
  revert this
  decide

/-- The run without the late failure: the probe fails by itself, and another one follows. -/
def ownFailure : List Section :=
  [.allow 1, .allow 2, .allow 3, .report 0 .failure 1, .report 1 .failure 2, .report 2 .failure 3,
   .allow 5000, .report 3 .failure 5000, .allow 9000]

theorem ownFailure_single : SingleProbe (run Embedder.step {} ownFailure) :=
  singleProbe_of_ownReports ownFailure (by decide)

end AimeeMemory.Module
