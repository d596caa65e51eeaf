import AimeeMemory.Bus.ModuleRuntime
import AimeeMemory.Lib.Stream

/-!
# Reassembly of requests

What a handler is given, against what its caller sent. A request is a whole message
of its correlation in the sense of `Lib.Stream`: its fragments from the first one
after the previous final one up to the next final one, whether or not the loop took
each of them. A cancel is not a fragment.

## What is proved

* **`wholeRequests_of_fresh`**: in every run in which no request is taken up in the middle
  (`TakenFromStart`), every handler invocation gets the concatenation of all fragments of
  one request.
* **`suffixRun_not_whole`**: without the condition it does not. The loop erases the
  assembly of a fragment it refuses, and takes the next fragment for a new request.
-/

namespace AimeeMemory.Bus

open AimeeMemory.Lib

/-- The body that a run of fragments carries, `none` where one of them does not decode. -/
def requestBody : List Input → Option (List UInt8)
  | [] => some []
  | i :: is => do
    let body ← fragmentBody i
    let rest ← requestBody is
    return body ++ rest

/-- Every handler invocation of the run got all of one request. -/
def WholeRequests (config : ModuleProcessConfig) (is : List Input) : Prop :=
  ∀ v ∈ (run (step config) {} is).invoked,
    ∃ msg, IsMessage fragment is v.correlationID msg ∧ requestBody msg = some v.body

/-- A fragment that the loop takes without an open assembly is the first of its request. -/
def TakenFromStart (config : ModuleProcessConfig) (pre : List Input) (s : State) (i : Input) : Prop :=
  ∀ e now accepted, i = .polled e now accepted → (fragment i).isSome →
    s.assemblies.lookup e.frame.correlationID = none → (judge config s e now).accepts →
    pending fragment e.frame.correlationID pre = []

theorem requestBody_concat {is : List Input} {i : Input} {body part : List UInt8}
    (his : requestBody is = some body) (hi : fragmentBody i = some part) :
    requestBody (is ++ [i]) = some (body ++ part) := by
  induction is generalizing body with
  | nil => simp_all [requestBody]
  | cons j js ih =>
    simp only [requestBody, Option.bind_eq_bind, Option.pure_def, Option.bind_eq_some_iff] at his
    obtain ⟨b, hb, rest, hrest, ⟨⟩⟩ := his
    simp [requestBody, hb, ih hrest]

/-- What holds of the loop after a run: an assembly holds all that has arrived of its
request, and each handler got a whole request. -/
structure Reassembled (pre : List Input) (s : State) : Prop where
  held : s.stopped = false → ∀ c a, s.assemblies.lookup c = some a →
    requestBody (pending fragment c pre) = some a.body
  whole : ∀ v ∈ s.invoked, ∃ msg, IsMessage fragment pre v.correlationID msg ∧ requestBody msg = some v.body

variable {config : ModuleProcessConfig} {pre : List Input} {s : State} {i : Input}

theorem whole_concat (h : Reassembled pre s) (i : Input) : ∀ v ∈ s.invoked,
    ∃ msg, IsMessage fragment (pre ++ [i]) v.correlationID msg ∧ requestBody msg = some v.body := by
  intro v hv
  obtain ⟨msg, hmsg, hbody⟩ := h.whole v hv
  exact ⟨msg, hmsg.concat i, hbody⟩

/-- Where a fragment is taken, what was assembled is what is pending. -/
theorem requestBody_assembled (h : Reassembled pre s) (hs : s.stopped = false) {c : UInt64}
    (hfresh : s.assemblies.lookup c = none → pending fragment c pre = []) :
    requestBody (pending fragment c pre) = some (s.assembled c) := by
  cases hl : s.assemblies.lookup c with
  | none => simp [hfresh hl, State.assembled, hl, requestBody]
  | some a => simpa [State.assembled, hl] using h.held hs c a hl

/-- A fragment leaves the pending fragments of the other correlations alone. -/
theorem pending_fragment_ne {c c' : UInt64} {more : Bool} (hi : fragment i = some (c, more)) (hc : c' ≠ c) :
    pending fragment c' (pre ++ [i]) = pending fragment c' pre :=
  pending_concat_other fun _ h => hc (by simpa [hi] using (congrArg (Option.map Prod.fst) h).symm)

/-- The step lemma, for a request fragment. -/
theorem reassembled_request {e : Event} {now : UInt64} {accepted : Option ℕ} {more : Bool}
    (h : Reassembled pre s) (hs : s.stopped = false) (hi : i = .polled e now accepted)
    (hf : fragment i = some (e.frame.correlationID, more)) (hmore : hasFlag e.frame.hdrFlags FMore = more)
    (hok : TakenFromStart config pre s i) : Reassembled (pre ++ [i]) (s.request config e now accepted) := by
  have hbody (hacc : (judge config s e now).accepts) :=
    requestBody_assembled h hs (hok e now accepted hi (by simp [hf]) · hacc)
  have hother (c : UInt64) (hc : c ≠ e.frame.correlationID) (a : ModuleAssembly)
      (ha : s.assemblies.lookup c = some a) : requestBody (pending fragment c (pre ++ [i])) = some a.body := by
    rw [pending_fragment_ne hf hc]
    exact h.held hs c a ha
  cases hj : judge config s e now with
  | refuse stageID traceID status =>
    simp only [State.request, hj]
    refine ⟨fun _ c a ha => ?_, by simpa using whole_concat h i⟩
    by_cases hc : c = e.frame.correlationID
    · subst hc
      simp at ha
    · exact hother c hc a (by simpa [AList.lookup_erase_ne hc] using ha)
  | hold assembly =>
    simp only [State.request, hj]
    obtain ⟨hm, part, hpart, hassembly⟩ := judge_hold accepted hj
    refine ⟨fun _ c a ha => ?_, by simpa using whole_concat h i⟩
    by_cases hc : c = e.frame.correlationID
    · subst hc
      simp only [AList.lookup_insert, Option.some.injEq] at ha
      subst ha
      rw [pending_concat_more (by rw [hf, ← hmore, hm]), hassembly]
      exact requestBody_concat (hbody (by rw [hj]; rfl)) (hi ▸ hpart)
    · exact hother c hc a (by simpa [AList.lookup_insert_ne hc] using ha)
  | start m body =>
    simp only [State.request, hj]
    obtain ⟨hm, ⟨part, hpart, hstart⟩, -⟩ := judge_start accepted hj
    refine ⟨fun _ c a ha => ?_, fun v hv => ?_⟩
    · by_cases hc : c = e.frame.correlationID
      · subst hc
        simp at ha
      · exact hother c hc a (by simpa [AList.lookup_erase_ne hc] using ha)
    · rcases List.mem_append.1 hv with hv | hv
      · exact whole_concat h i v hv
      · obtain rfl := List.mem_singleton.1 hv
        refine ⟨_, IsMessage.of_final (by rw [hf, ← hmore, hm]), ?_⟩
        rw [hstart]
        exact requestBody_concat (hbody (by rw [hj]; rfl)) (hi ▸ hpart)

theorem reassembled_step (h : Reassembled pre s) (hok : TakenFromStart config pre s i) :
    Reassembled (pre ++ [i]) (step config s i) := by
  by_cases hs : s.stopped
  · have hstep : step config s i = s := by simp [step, hs]
    rw [hstep]
    exact ⟨by simp [hs], whole_concat h i⟩
  cases hf : fragment i with
  | none =>
    obtain ⟨hinvoked, hassemblies⟩ := step_other config s hf
    refine ⟨fun _ c a ha => ?_, hinvoked ▸ whole_concat h i⟩
    rw [pending_concat_other (by simp [hf])]
    exact h.held (by simpa using hs) c a (hassemblies c a ha)
  | some cm =>
    obtain ⟨e, now, accepted, rfl, hc, hmore, hstep⟩ := step_fragment config hf (by simpa using hs)
    rw [hstep]
    exact reassembled_request h (by simpa using hs) rfl (by rw [hf, hc]) hmore hok

/-- **Reassembly**: where no request is taken up in the middle, every handler gets exactly
the concatenation of all fragments of one request. -/
theorem wholeRequests_of_fresh (config : ModuleProcessConfig) (is : List Input)
    (h : Meets (step config) (TakenFromStart config) {} is) : WholeRequests config is := by
  have hinit : Reassembled [] {} := ⟨fun _ c a ha => by simp at ha, by simp⟩
  exact (run_invariant hinit (fun _ _ _ => reassembled_step) is h).whole

/-- A request in two fragments is handed over whole. -/
theorem wholeRequests_twoFragments :
    WholeRequests oneStage ([] ++ [fragmentPolled 7 [1] true] ++ [fragmentPolled 7 [2] false]) := by
  refine wholeRequests_of_fresh _ _ ((Meets.nil.concat ?_).concat ?_)
  · intro _ _ _ _ _ _ _
    rfl
  · intro e now accepted he _ hl _
    cases he
    exact absurd hl (by decide +kernel)

/-- The first fragment of a request names a wrong stage and is refused; the second is taken
for a request of its own. -/
def suffixRun : List Input := [fragmentPolled 9 [1] true, fragmentPolled 7 [2] false]

/-- The handler is invoked with the second half of the request. -/
theorem suffixRun_not_whole : ¬ WholeRequests oneStage suffixRun := by
  intro h
  have hinvoked : (run (step oneStage) {} suffixRun).invoked = [⟨1, ⟨7, 0, 0⟩, [2]⟩] := by decide +kernel
  obtain ⟨msg, ⟨pre, i, post, hsplit, hi, rfl⟩, hbody⟩ := h ⟨1, ⟨7, 0, 0⟩, [2]⟩ (by simp [hinvoked])
  simp only [suffixRun] at hsplit
  match pre with
  | [] =>
    simp only [List.nil_append, List.cons.injEq] at hsplit
    rw [← hsplit.1] at hi
    exact absurd hi (by decide +kernel)
  | [j] =>
    simp only [List.cons_append, List.nil_append, List.cons.injEq] at hsplit
    rw [← hsplit.1, ← hsplit.2.1] at hbody
    exact absurd hbody (by decide +kernel)
  | _ :: _ :: _ => simp at hsplit

end AimeeMemory.Bus
