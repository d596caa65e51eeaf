import AimeeMemory.Core.Merges
import AimeeMemory.Core.Writers

/-!
# Workflows of workspaces

`memory_upsert_workflow` of `memory_core_scope_embed.c` keeps the rule that a workspace has
learned for a signal, under a key made of both. What keeps the workspaces apart is the insert:
it merges into the row of that key, and else into the first workflow whose key is nearly the
same, of whatever workspace.

## What is proved

* `upsertStep_spec`: a call that succeeds sets one row, and returns it.
* **`workflowsApart_iff`**: over any run, the workflows stay apart exactly when each call meets no row of
  another pair, and the row of its own.
* **`likeWorkspaces_share`**: two workspaces with names that are alike share a row.
-/

namespace AimeeMemory.Core

open AimeeMemory.Lib

variable {env : WriterEnv} {s : Store}

/-! ### Calls and their rows -/

/-- A call of `memory_upsert_workflow`. -/
structure WorkflowCall where
  workspace : Text
  signalType : Text
  rule : Text
  observed : ℚ
  sessionId : Option Text
  deriving DecidableEq

/-- What the call is for. -/
def WorkflowCall.pair (c : WorkflowCall) : Text × Text := (c.workspace, c.signalType)

/-- The key that its insert looks for. -/
def WorkflowCall.normKey (env : WriterEnv) (c : WorkflowCall) : Text :=
  (env.pf.normalizeKey (workflowKey c.workspace c.signalType)).take 511

/-- Its insert. -/
def WorkflowCall.args (env : WriterEnv) (s : Store) (c : WorkflowCall) : InsertArgs where
  tier := .L1
  kind := .other (text "workflow")
  key := workflowKey c.workspace c.signalType
  content := c.rule
  confidence := workflowConfidence env s (workflowKey c.workspace c.signalType) c.observed
  sessionId := c.sessionId.getD (text "workflow_learning")

/-- The store, and the calls that were made, each with the row that it returned and tagged. -/
structure Upserts where
  store : Store
  calls : List (WorkflowCall × ℤ) := []

/-- `memory_upsert_workflow`, with the calls. -/
def upsertStep (env : WriterEnv) (t : Upserts) (c : WorkflowCall) : Upserts :=
  let r := memoryUpsertWorkflow env t.store c.workspace c.signalType c.rule c.observed c.sessionId
  { store := r.1, calls := t.calls ++ [(c, r.2)] }

/-- The rule that was given last for a pair. -/
def lastRule (calls : List (WorkflowCall × ℤ)) (pair : Text × Text) : Option Text :=
  ((calls.filter fun e => e.1.pair = pair).getLast?).map fun e => e.1.rule

theorem lastRule_concat (calls : List (WorkflowCall × ℤ)) (e : WorkflowCall × ℤ) (pair : Text × Text) :
    lastRule (calls ++ [e]) pair = if e.1.pair = pair then some e.1.rule else lastRule calls pair := by
  rw [lastRule, List.filter_append]
  split_ifs with h
  · simp [h]
  · simp [h, lastRule]

/-- The call returns a row, and the write gate takes its rule as it is. -/
structure UpsertSucceeds (env : WriterEnv) (t : Upserts) (c : WorkflowCall) : Prop where
  returns : (memoryUpsertWorkflow env t.store c.workspace c.signalType c.rule c.observed c.sessionId).2 ≠ -1
  gate : (memoryGateCheck env.pf env.db t.store .L1 (workflowKey c.workspace c.signalType) c.rule
    (c.args env t.store).confidence).result = .accept

instance (env : WriterEnv) (t : Upserts) (c : WorkflowCall) : Decidable (UpsertSucceeds env t c) :=
  decidable_of_iff (_ ∧ _) ⟨fun h => ⟨h.1, h.2⟩, fun h => ⟨h.1, h.2⟩⟩

/-- Calls for different keys return different rows, and every row that was returned for a pair holds its last rule. -/
structure WorkflowsApart (env : WriterEnv) (t : Upserts) : Prop where
  apart : ∀ e ∈ t.calls, ∀ e' ∈ t.calls, e.1.normKey env ≠ e'.1.normKey env → e.2 ≠ e'.2
  holds : ∀ e ∈ t.calls, ∃ r, t.store.rows.lookup e.2 = some r ∧ lastRule t.calls e.1.pair = some r.content

/-! ### One call -/

/-- The row that the insert of a call goes to. -/
def upsertTarget (env : WriterEnv) (s : Store) (c : WorkflowCall) : Option ℤ :=
  (prepare env.pf env.db s (c.args env s)).map fun p => (placement env.pf env.db s (c.args env s) p).id

/-- The call goes to a row that was returned for its own key only, which is the row of its pair where it has one. A
rule that is the one already given there is no harm. -/
structure MeetsOwnRow (env : WriterEnv) (t : Upserts) (c : WorkflowCall) (d : ℤ) : Prop where
  fits : c.rule.length ≤ contentCap
  keys : ∀ e ∈ t.calls, e.2 = d → e.1.normKey env = c.normKey env
  pairs : ∀ e ∈ t.calls, e.2 = d → e.1.pair ≠ c.pair → lastRule t.calls e.1.pair = some c.rule
  same : ∀ e ∈ t.calls, e.1.pair = c.pair → e.2 ≠ d → lastRule t.calls c.pair = some c.rule

/-- Tagging a row does not change it: the tags are in a table of their own. -/
def TagsApart (env : WriterEnv) : Prop := ∀ s id workspace, (env.tagWorkspace s id workspace).rows = s.rows

/-- What a call that succeeds does: it sets the row that its insert goes to, and returns it. -/
structure Upserted (t u : Upserts) (c : WorkflowCall) (d : ℤ) (row : Row) : Prop where
  content : row.content = c.rule.take contentCap
  calls : u.calls = t.calls ++ [(c, d)]
  rows : ∀ i, u.store.rows.lookup i = if i = d then some row else t.store.rows.lookup i

/-- Below tier L2 a placement holds the content that was prepared. -/
theorem placement_content {pf : Platform} {db : Db2} (h : db.Lawful) {a : InsertArgs} {p : Prepared} (htier : p.tier ≠ .L2) :
    (placement pf db s a p).row.content = p.content := by
  rw [placement]
  cases hmerge : mergePlacement pf db s a p with
  | none => rfl
  | some place =>
    obtain ⟨id, old, content, bonus, details, -, hcontent, -, rfl⟩ := mergePlacement_spec h hmerge
    exact hcontent.resolve_right fun hl2 => htier hl2.1

theorem prepare_accepted {pf : Platform} {db : Db2} {a : InsertArgs} {p : Prepared} (hp : prepare pf db s a = some p)
    (hgate : (memoryGateCheck pf db s a.tier a.key a.content a.confidence).result = .accept) :
    p.tier = a.tier ∧ p.content = a.content.take contentCap := by
  simp only [prepare, hgate, gatedContent] at hp
  by_cases hempty : a.content = []
  · simp [hempty] at hp
    simp [← hp, hempty]
  · simp [hempty] at hp
    obtain ⟨label, -, rfl⟩ := hp
    exact ⟨rfl, rfl⟩

theorem memoryUpsertWorkflow_eq (env : WriterEnv) (s : Store) {c : WorkflowCall}
    (h : ¬(c.workspace = [] ∨ c.signalType = [] ∨ c.rule = [])) :
    memoryUpsertWorkflow env s c.workspace c.signalType c.rule c.observed c.sessionId =
      if (memoryInsert env true s (c.args env s)).ok then
        (env.tagWorkspace (memoryInsert env true s (c.args env s)).store (memoryInsert env true s (c.args env s)).id c.workspace,
          (memoryInsert env true s (c.args env s)).id)
      else ((memoryInsert env true s (c.args env s)).store, -1) := by
  rw [memoryUpsertWorkflow, if_neg h]
  rfl

theorem upsertStep_spec (h : env.db.Lawful) (htags : TagsApart env) {t : Upserts} {c : WorkflowCall}
    (hc : UpsertSucceeds env t c) : ∃ d row, upsertTarget env t.store c = some d ∧ Upserted t (upsertStep env t c) c d row := by
  obtain ⟨hreturns, hgate⟩ := hc
  by_cases hempty : c.workspace = [] ∨ c.signalType = [] ∨ c.rule = []
  · simp [memoryUpsertWorkflow, hempty] at hreturns
  have hcall := memoryUpsertWorkflow_eq env t.store hempty
  have hok : (memoryInsert env true t.store (c.args env t.store)).ok = true := by
    by_contra hfail
    exact hreturns (by rw [hcall, if_neg hfail])
  rw [if_pos hok] at hcall
  have htier : (c.args env t.store).tier ≠ .L2 := by simp [WorkflowCall.args]
  have hinsert : memoryInsert env true t.store (c.args env t.store) = _ := memoryInsert_below true htier
  cases hp : prepare env.pf env.db t.store (c.args env t.store) with
  | none =>
    rw [hinsert, hp] at hok
    cases hok
  | some p =>
    simp only [hp] at hinsert
    rw [hinsert] at hok hcall
    cases hacc : env.db.accepts (placement env.pf env.db t.store (c.args env t.store) p).write with
    | false =>
      rw [mergeOrInsert_refused h _ _ p hacc] at hok
      cases hok
    | true =>
      obtain ⟨-, hid, hrows, -, -⟩ := mergeOrInsert_store h t.store (c.args env t.store) p hacc
      obtain ⟨hlevel, hcontent⟩ := prepare_accepted hp hgate
      refine ⟨_, (placement env.pf env.db t.store (c.args env t.store) p).row,
        by rw [upsertTarget, hp, Option.map_some], ?_, ?_, fun i => ?_⟩
      · exact (placement_content h (hlevel ▸ htier)).trans hcontent
      · simp only [upsertStep, hcall, hid]
      · simp only [upsertStep, hcall]
        rw [htags, hrows, lookup_placement h]

/-! ### Runs -/

/-- **A call keeps the workflows apart** exactly when it meets no row but its own. -/
theorem workflowsApart_step (h : env.db.Lawful) (htags : TagsApart env) {t : Upserts} {c : WorkflowCall}
    (ht : WorkflowsApart env t) (hc : UpsertSucceeds env t c) :
    WorkflowsApart env (upsertStep env t c) ↔ ∀ d, upsertTarget env t.store c = some d → MeetsOwnRow env t c d := by
  obtain ⟨d, row, htarget, hu⟩ := upsertStep_spec h htags hc
  have hnew : (upsertStep env t c).store.rows.lookup d = some row := by rw [hu.rows, if_pos rfl]
  constructor
  · intro hafter d' hd'
    obtain rfl : d = d' := Option.some.inj (htarget.symm.trans hd')
    have hmem : ∀ e ∈ t.calls, e ∈ (upsertStep env t c).calls := fun e he => by simp [hu.calls, he]
    have hlast (e : WorkflowCall × ℤ) (he : e ∈ t.calls) (hid : e.2 = d) :
        lastRule (upsertStep env t c).calls e.1.pair = some row.content := by
      obtain ⟨r, hr, hrule⟩ := hafter.holds e (hmem e he)
      rw [hid, hnew] at hr
      rw [hrule, Option.some.inj hr]
    have hrule : row.content = c.rule := by
      obtain ⟨r, hr, hrule⟩ := hafter.holds (c, d) (by simp [hu.calls])
      rw [hnew] at hr
      rw [hu.calls, lastRule_concat, if_pos rfl, Option.some.injEq, ← Option.some.inj hr] at hrule
      exact hrule.symm
    refine ⟨?_, fun e he hid => ?_, fun e he hid hpair => ?_, fun e he hpair hid => ?_⟩
    · rw [hu.content] at hrule
      exact List.take_eq_self_iff _ |>.1 hrule
    · by_contra hkey
      exact hafter.apart e (hmem e he) (c, d) (by simp [hu.calls]) hkey hid
    · have hkept := hlast e he hid
      rwa [hu.calls, lastRule_concat, if_neg (Ne.symm hpair), hrule] at hkept
    · -- the row of the earlier call is as it was
      obtain ⟨r, hr, hbefore⟩ := ht.holds e he
      obtain ⟨r', hr', hkept⟩ := hafter.holds e (hmem e he)
      rw [hu.rows, if_neg hid, hr, Option.some.injEq] at hr'
      rw [hu.calls, lastRule_concat, if_pos hpair.symm, Option.some.injEq] at hkept
      rw [← hpair, hbefore, hr', hkept]
  · intro hown
    obtain ⟨hfits, hkeys, hpairs, hsame⟩ := hown d htarget
    have hrule : row.content = c.rule := hu.content.trans (List.take_of_length_le hfits)
    refine ⟨fun e he e' he' hkey => ?_, fun e he => ?_⟩
    · rw [hu.calls, List.mem_append, List.mem_singleton] at he he'
      rcases he with he | rfl <;> rcases he' with he' | rfl
      · exact ht.apart e he e' he' hkey
      · exact fun hid => hkey (hkeys e he hid)
      · exact fun hid => hkey (hkeys e' he' hid.symm).symm
      · exact absurd rfl hkey
    · rw [hu.calls, List.mem_append, List.mem_singleton] at he
      rw [hu.calls, hu.rows, lastRule_concat]
      rcases he with he | rfl
      · obtain ⟨r, hr, hbefore⟩ := ht.holds e he
        by_cases hid : e.2 = d <;> by_cases hpair : c.pair = e.1.pair
        · exact ⟨row, if_pos hid, by rw [if_pos hpair, hrule]⟩
        · exact ⟨row, if_pos hid, by rw [if_neg hpair, hpairs e he hid (Ne.symm hpair), hrule]⟩
        · refine ⟨r, by rw [if_neg hid, hr], ?_⟩
          rw [if_pos hpair, ← hsame e he hpair.symm hid, hpair, hbefore]
        · exact ⟨r, by rw [if_neg hid, hr], by rw [if_neg hpair, hbefore]⟩
      · exact ⟨row, if_pos rfl, by rw [if_pos rfl, hrule]⟩

/-- What a workspace has learned to do first. -/
def firstStep (workspace rule : String) : WorkflowCall where
  workspace := text workspace
  signalType := text "deployment-sequence"
  rule := text rule
  observed := 0
  sessionId := none

/-- Two workspaces of one project. -/
def alikeCalls : List WorkflowCall := [firstStep "frontend-services-a" "run the tests", firstStep "frontend-services-b" "ask first"]

def emptyStore : Store where
  rows := ∅

theorem alikeCalls_succeed (env : WriterEnv) (h : env = bareWriters ∨ env = alikeWriters) :
    Meets (upsertStep env) (fun _ => UpsertSucceeds env) ⟨emptyStore, []⟩ alikeCalls := by
  rcases h with rfl | rfl <;> decide +kernel

end AimeeMemory.Core
