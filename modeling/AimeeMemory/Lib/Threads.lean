import AimeeMemory.Lib.Trace

/-!
# Calls over a shared object

A program is a tree: it performs an operation on the object, goes on with the answer, and in
the end returns. What one call does is a path through the tree; what many calls do together is
a pool in which one of them at a time performs its next operation.

A flag of the object is often a debt: it is set while some call still has to clear it.
`owed_run` is the rule for that.
-/

namespace AimeeMemory.Lib

/-- A program over an object with operations `ω` and answers `β`. -/
inductive Prog (ω β α : Type) where
  | ret (a : α)
  | op (o : ω) (next : β → Prog ω β α)

variable {σ ι ω β α : Type}

/-- A path of a program: its operations with their answers, and what it returns. -/
inductive Path : Prog ω β α → List (ω × β) → α → Prop where
  | ret (a : α) : Path (.ret a) [] a
  | op {o : ω} {next : β → Prog ω β α} {b : β} {trace : List (ω × β)} {a : α} :
      Path (next b) trace a → Path (.op o next) ((o, b) :: trace) a

theorem path_ret {a a' : α} {trace : List (ω × β)} (h : Path (.ret a) trace a') : trace = [] ∧ a' = a := by
  cases h
  exact ⟨rfl, rfl⟩

theorem path_op {o : ω} {next : β → Prog ω β α} {trace : List (ω × β)} {a : α} (h : Path (.op o next) trace a) :
    ∃ b rest, trace = (o, b) :: rest ∧ Path (next b) rest a := by
  cases h with
  | op hrest => exact ⟨_, _, rfl, hrest⟩

/-- The object, and the calls that have not returned. -/
structure Pool (σ ω β α : Type) where
  shared : σ
  threads : List (Prog ω β α) := []

/-- A call begins, or the one at a place makes its next step. -/
inductive Move (ι : Type) where
  | start (call : ι)
  | advance (place : ℕ)

/-- One step of a pool whose calls run `program`. A call that has returned leaves it. -/
def Pool.step (program : ι → Prog ω β α) (perform : σ → ω → β × σ) (pool : Pool σ ω β α) : Move ι → Pool σ ω β α
  | .start call => { pool with threads := pool.threads ++ [program call] }
  | .advance place =>
    match pool.threads[place]? with
    | none => pool
    | some (.ret _) => { pool with threads := pool.threads.eraseIdx place }
    | some (.op o next) =>
      let (b, shared) := perform pool.shared o
      ⟨shared, pool.threads.set place (next b)⟩

variable {program : ι → Prog ω β α} {perform : σ → ω → β × σ} {flag : σ → Prop} {Sound owes : Prog ω β α → Prop}

/-- Every call is sound, and where the flag is set one of them owes its clearing. -/
structure Owed (flag : σ → Prop) (Sound owes : Prog ω β α → Prop) (pool : Pool σ ω β α) : Prop where
  sound : ∀ p ∈ pool.threads, Sound p
  owed : flag pool.shared → ∃ p ∈ pool.threads, owes p

/-- What an operation may do to a debt: the flag it leaves is the caller's own, or another's whose debt it was. -/
structure KeepsDebt (perform : σ → ω → β × σ) (flag : σ → Prop) (Sound owes : Prog ω β α → Prop) : Prop where
  ret : ∀ a, ¬owes (.ret a)
  next : ∀ s o next, Sound (.op o next) → Sound (next (perform s o).1)
  debt : ∀ s o next, Sound (.op o next) → flag (perform s o).2 →
    owes (next (perform s o).1) ∨ flag s ∧ ¬owes (.op o next)

theorem Owed.step (h : KeepsDebt perform flag Sound owes) (hprogram : ∀ call, Sound (program call))
    {pool : Pool σ ω β α} (hpool : Owed flag Sound owes pool) (m : Move ι) :
    Owed flag Sound owes (pool.step program perform m) := by
  cases m with
  | start call =>
    refine ⟨fun p hp => ?_, fun hflag => ?_⟩
    · rcases List.mem_append.1 hp with hp | hp
      · exact hpool.sound p hp
      · obtain rfl := List.mem_singleton.1 hp
        exact hprogram call
    · obtain ⟨p, hp, howes⟩ := hpool.owed hflag
      exact ⟨p, List.mem_append_left _ hp, howes⟩
  | advance place =>
    rw [Pool.step]
    cases hplace : pool.threads[place]? with
    | none => exact hpool
    | some p =>
      have hmem : p ∈ pool.threads := List.mem_of_getElem? hplace
      obtain ⟨hlt, hp⟩ := List.getElem?_eq_some_iff.1 hplace
      -- A call that owes and is not at this place stays in the pool.
      have hother : ∀ q ∈ pool.threads, owes q → ¬owes p → ∃ j, j ≠ place ∧ pool.threads[j]? = some q := by
        intro q hq howes hnot
        obtain ⟨j, hj⟩ := List.getElem?_of_mem hq
        refine ⟨j, ?_, hj⟩
        rintro rfl
        rw [hplace] at hj
        cases hj
        exact hnot howes
      cases p with
      | ret a =>
        refine ⟨fun q hq => hpool.sound q (List.mem_of_mem_eraseIdx hq), fun hflag => ?_⟩
        obtain ⟨q, hq, howes⟩ := hpool.owed hflag
        obtain ⟨j, hne, hj⟩ := hother q hq howes (h.ret a)
        exact ⟨q, List.mem_eraseIdx_iff_getElem?.2 ⟨j, hne, hj⟩, howes⟩
      | op o next =>
        refine ⟨fun q hq => ?_, fun hflag => ?_⟩
        · rcases List.mem_or_eq_of_mem_set hq with hq | rfl
          · exact hpool.sound q hq
          · exact h.next _ _ _ (hpool.sound _ hmem)
        · rcases h.debt _ _ _ (hpool.sound _ hmem) hflag with hown | ⟨hset, hnot⟩
          · exact ⟨_, List.mem_set hlt _, hown⟩
          · obtain ⟨q, hq, howes⟩ := hpool.owed hset
            obtain ⟨j, hne, hj⟩ := hother q hq howes hnot
            refine ⟨q, List.mem_iff_getElem?.2 ⟨j, ?_⟩, howes⟩
            rw [List.getElem?_set_ne hne.symm, hj]

/-- **The debt rule**: over any run of calls, where the flag is set a call that has not returned owes its clearing. -/
theorem owed_run (h : KeepsDebt perform flag Sound owes) (hprogram : ∀ call, Sound (program call)) {s : σ}
    (hs : ¬flag s) (moves : List (Move ι)) :
    Owed flag Sound owes (run (Pool.step program perform) ⟨s, []⟩ moves) := by
  refine run_keeps (I := fun _ => Owed flag Sound owes) ?_ ?_ moves
  · exact ⟨by simp, fun hflag => absurd hflag hs⟩
  · intro _ pool m hpool
    exact hpool.step h hprogram m

end AimeeMemory.Lib
