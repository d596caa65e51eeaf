import AimeeMemory.Bus.ModuleRuntime

/-!
# Terminal replies

How often a request is answered. A final reply comes from a refused fragment or from a
finished job, and the loop keeps no trace of a refusal: of a refused request it refuses
each later fragment again, or takes one for a new request.

## What is proved

* **`answeredOnce`**: in every run in which a correlation is used by one request
  (`SingleUse`), and no fragment that is refused or completes a request follows a refused
  fragment of its correlation (`NotAfterRefusal`), at most one final reply is sent for each
  correlation.
* **`refusedTwice_not_once`**: without the second condition two are sent.

The count that is kept is `State.owed`: the final replies to a correlation and the job that
will still send one.
-/

namespace AimeeMemory.Bus

open AimeeMemory.Lib

/-- A correlation is used by one request: nothing follows its final fragment. -/
def SingleUse (is : List Input) : Prop :=
  is.Pairwise fun j i => ∀ c more, fragment j = some (c, false) → fragment i ≠ some (c, more)

/-- A fragment that is refused or completes its request. -/
def Verdict.settles : Verdict → Bool
  | .refuse .. => true
  | .hold _ => false
  | .start .. => true

/-- A fragment of `c` was refused in the run. -/
def RefusedIn (config : ModuleProcessConfig) (is : List Input) (c : UInt64) : Prop :=
  ∃ pre e now accepted post more, is = pre ++ .polled e now accepted :: post ∧
    fragment (.polled e now accepted) = some (c, more) ∧
    (judge config (run (step config) {} pre) e now).accepts = false

/-- A fragment that the loop refuses, or completes a request with, follows no refused
fragment of its correlation. -/
def NotAfterRefusal (config : ModuleProcessConfig) (pre : List Input) (s : State) (i : Input) : Prop :=
  ∀ e now accepted more, i = .polled e now accepted → fragment i = some (e.frame.correlationID, more) →
    (judge config s e now).settles → ¬ RefusedIn config pre e.frame.correlationID

/-- At most one final reply for each correlation in the run. -/
def OneReply (config : ModuleProcessConfig) (is : List Input) : Prop :=
  ∀ c, finals c (run (step config) {} is).replies ≤ 1

/-- The final replies sent to `c`, and the one its job will send. -/
def State.owed (s : State) (c : UInt64) : ℕ :=
  finals c s.replies + if (s.jobs.lookup c).isSome then 1 else 0

variable {config : ModuleProcessConfig} {s : State} {pre : List Input} {i : Input} {c : UInt64}

/-- A fragment adds to what is owed only where it settles, and only for its correlation. -/
theorem owed_request (config : ModuleProcessConfig) (s : State) (c : UInt64) (e : Event) (now : UInt64) (accepted : Option ℕ) :
    (s.request config e now accepted).owed c ≤
      s.owed c + if c = e.frame.correlationID ∧ (judge config s e now).settles then 1 else 0 := by
  cases hj : judge config s e now with
  | refuse stageID traceID status =>
    simp only [State.request, hj, State.owed, State.reply_jobs, Verdict.settles, and_true]
    have := State.finals_reply config
      { s with assemblies := s.assemblies.erase e.frame.correlationID } accepted c e.frame.eventKind
      e.frame.correlationID stageID traceID status []
    simp only at this
    omega
  | hold assembly => simp [State.request, hj, State.owed, Verdict.settles]
  | start m body =>
    obtain ⟨-, -, hjob⟩ := judge_start accepted hj
    by_cases hc : c = e.frame.correlationID
    · subst hc
      simp [State.request, hj, State.owed, Verdict.settles, hjob]
    · simp [State.request, hj, State.owed, Verdict.settles, hc, AList.lookup_insert_ne hc]

/-- A cancel marks a job, and neither starts nor ends one. -/
theorem State.cancel_jobs_isSome (c c' : UInt64) :
    ((s.cancel c').jobs.lookup c).isSome = (s.jobs.lookup c).isSome := by
  simp only [State.cancel]
  cases hl : s.jobs.lookup c' with
  | none => rfl
  | some work =>
    by_cases hc : c = c'
    · subst hc
      simp [hl]
    · simp [AList.lookup_insert_ne hc]

/-- An input that is not a fragment adds nothing to what is owed: a job that ends sends the
reply that was counted for it. -/
theorem owed_other (hi : fragment i = none) (c : UInt64) : (step config s i).owed c ≤ s.owed c := by
  by_cases hs : s.stopped
  · simp [step, hs]
  cases i with
  | polled e now accepted =>
    simp only [fragment] at hi
    split_ifs at hi with hcancel hrequest
    · simp only [step, hs, hcancel, if_true, Bool.false_eq_true, if_false, State.owed,
        State.cancel_jobs_isSome]
      exact le_rfl
    · simp [step, hs, hcancel, hrequest]
  | handlerReturned c' response status now =>
    rw [step, if_neg hs]
    cases hl : s.jobs.lookup c' with
    | none => exact le_rfl
    | some work =>
      simp only
      split_ifs
      · by_cases hc : c = c'
        · subst hc
          simp [State.owed, hl]
        · simp [State.owed, AList.lookup_insert_ne hc]
      · exact le_rfl
  | resultReceived c' accepted =>
    rw [step, if_neg hs]
    cases hl : s.jobs.lookup c' with
    | none => exact le_rfl
    | some work =>
      cases hr : work.result with
      | none => simp [hr]
      | some result =>
        simp only [hr, State.owed, State.reply_jobs]
        have := State.finals_reply config { s with jobs := s.jobs.erase c' } accepted c
          work.eventKind c' work.invocation.stageID work.invocation.traceID result.2 result.1
        simp only at this
        by_cases hc : c = c'
        · subst hc
          simp only [AList.lookup_erase, hl, Option.isSome_none, Option.isSome_some, if_true,
            Bool.false_eq_true, if_false] at this ⊢
          omega
        · simp only [AList.lookup_erase_ne hc, hc, if_false] at this ⊢
          omega
  | stop => simp [step, hs, State.owed]

/-- A request that is over for its sender: its final fragment has come, or one was refused. -/
def Closed (config : ModuleProcessConfig) (pre : List Input) (c : UInt64) : Prop :=
  (∃ j ∈ pre, fragment j = some (c, false)) ∨ RefusedIn config pre c

theorem RefusedIn.concat (h : RefusedIn config pre c) (i : Input) : RefusedIn config (pre ++ [i]) c := by
  obtain ⟨p, e, now, accepted, post, more, rfl, hf, hj⟩ := h
  exact ⟨p, e, now, accepted, post ++ [i], more, by simp, hf, hj⟩

theorem Closed.concat (h : Closed config pre c) (i : Input) : Closed config (pre ++ [i]) c := by
  rcases h with ⟨j, hj, hf⟩ | h
  · exact .inl ⟨j, by simp [hj], hf⟩
  · exact .inr (h.concat i)

/-- What holds of the loop after a run: at most one final reply is sent or owed, and only to
a request that is over. -/
structure Answered (config : ModuleProcessConfig) (pre : List Input) (s : State) : Prop where
  reached : s = run (step config) {} pre
  once : ∀ c, s.owed c ≤ 1
  closed : ∀ c, 0 < s.owed c → Closed config pre c

theorem answered_step (h : Answered config pre s)
    (hone : ∀ j ∈ pre, ∀ c more, fragment j = some (c, false) → fragment i ≠ some (c, more))
    (hok : NotAfterRefusal config pre s i) : Answered config (pre ++ [i]) (step config s i) := by
  have hreached : step config s i = run (step config) {} (pre ++ [i]) := by rw [run_concat, h.reached]
  have hkeep (c : UInt64) (hle : (step config s i).owed c ≤ s.owed c) :
      (step config s i).owed c ≤ 1 ∧ (0 < (step config s i).owed c → Closed config (pre ++ [i]) c) :=
    ⟨hle.trans (h.once c), fun hpos => (h.closed c (hpos.trans_le hle)).concat i⟩
  suffices hall : ∀ c, (step config s i).owed c ≤ 1 ∧
      (0 < (step config s i).owed c → Closed config (pre ++ [i]) c) from
    ⟨hreached, fun c => (hall c).1, fun c => (hall c).2⟩
  intro c
  by_cases hs : s.stopped
  · exact hkeep c (by simp [step, hs])
  cases hf : fragment i with
  | none => exact hkeep c (owed_other hf c)
  | some cm =>
    obtain ⟨c', more⟩ := cm
    obtain ⟨e, now, accepted, rfl, rfl, rfl, hstep⟩ := step_fragment config hf (by simpa using hs)
    have howed := owed_request config s c e now accepted
    by_cases hsettles : c = e.frame.correlationID ∧ (judge config s e now).settles
    · obtain ⟨rfl, hset⟩ := hsettles
      -- an open request is owed nothing, so this is its first final reply
      have hopen : ¬ Closed config pre e.frame.correlationID := by
        rintro (⟨j, hj, hfinal⟩ | hrefused)
        · exact hone j hj _ _ hfinal hf
        · exact hok e now accepted _ rfl hf hset hrefused
      have hzero : s.owed e.frame.correlationID = 0 := by
        by_contra hne
        exact hopen (h.closed _ (Nat.pos_of_ne_zero hne))
      rw [hstep]
      refine ⟨by simpa [hzero, hset] using howed, fun _ => ?_⟩
      cases hj : judge config s e now with
      | refuse stageID traceID status =>
        exact .inr ⟨pre, e, now, accepted, [], _, rfl, hf, by rw [← h.reached, hj]; rfl⟩
      | hold assembly => simp [hj, Verdict.settles] at hset
      | start m body =>
        obtain ⟨hfinal, -, -⟩ := judge_start accepted hj
        exact .inl ⟨.polled e now accepted, by simp, by rw [hf, hfinal]⟩
    · exact hkeep c (by simpa [hstep, hsettles] using howed)

/-- **One terminal reply**: where a correlation is used by one request and nothing that
settles follows a refusal, each correlation gets at most one final reply. -/
theorem answeredOnce (config : ModuleProcessConfig) (is : List Input) (hone : SingleUse is)
    (h : Meets (step config) (NotAfterRefusal config) {} is) : OneReply config is := by
  have hinit : Answered config [] {} := ⟨rfl, by simp [State.owed, finals], by simp [State.owed, finals]⟩
  have hprior (pre : List Input) (i : Input) (post : List Input) (hsplit : is = pre ++ i :: post) :
      ∀ j ∈ pre, ∀ c more, fragment j = some (c, false) → fragment i ≠ some (c, more) := fun j hj =>
    (List.pairwise_append.1 (hsplit ▸ hone)).2.2 j hj i (by simp)
  have hmeets : Meets (step config) (fun pre s i =>
      (∀ j ∈ pre, ∀ c more, fragment j = some (c, false) → fragment i ≠ some (c, more)) ∧
        NotAfterRefusal config pre s i) {} is :=
    fun pre i post hsplit => ⟨hprior pre i post hsplit, h pre i post hsplit⟩
  have hrun := run_invariant (I := Answered config) hinit
    (fun _ _ _ hI hok => answered_step hI hok.1 hok.2) is hmeets
  exact fun c => (Nat.le_add_right _ _).trans (hrun.once c)

/-- A request of one fragment that is refused gets one reply. -/
theorem answeredOnce_refused : OneReply oneStage ([] ++ [fragmentPolled 9 [1] false]) := by
  refine answeredOnce _ _ (by simp [SingleUse]) (Meets.nil.concat ?_)
  rintro _ _ _ _ - - - ⟨pre, _, _, _, _, _, hsplit, -⟩
  simp at hsplit

/-- A request in two fragments that both name a wrong stage. -/
def refusedTwice : List Input := [fragmentPolled 9 [1] true, fragmentPolled 9 [2] false]

/-- Each of its fragments is answered with a final `InvalidRequest`. -/
theorem refusedTwice_not_once : SingleUse refusedTwice ∧ ¬ OneReply oneStage refusedTwice := by
  refine ⟨?_, fun h => absurd (h 1) (by decide +kernel)⟩
  have hmore : fragment (fragmentPolled 9 [1] true) = some (1, true) := by decide +kernel
  simp [SingleUse, refusedTwice, hmore]

end AimeeMemory.Bus
