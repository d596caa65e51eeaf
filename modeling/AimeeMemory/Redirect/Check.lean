import AimeeMemory.Redirect.BashGuard

/-!
# The hook on a tool call

`memory_redirect.c`: `memory_redirect_check` is asked before a tool runs. A command that writes
a memory file is denied, and so is a call that `memory_redirect_classify` rejects; a Write that
it redirects is denied when the store has taken its content, and else goes ahead.

## What is proved

* `code_eq_two_iff`: a call is denied exactly when the agent is told why.
* `redirected_kept`: of a redirected Write with a content, either the store has the content, or
  the Write goes ahead.
* `captured_key_faithful`: two captures in one project are under one key only if their paths
  agree behind the memory segment, where the stem of one is short.
* `archiveKey_inj`: captures of two projects are under different keys, where no project has a
  slash in its name.
* `archiveKey_fits`: the key is never cut.

## Honest scope

The environment, the project keys, db1 and the spill file are parameters. The buffers have at
least one byte. What the hook prints for the user is left out.
-/

namespace AimeeMemory.Redirect

open AimeeMemory.Core AimeeMemory.Lib
open AimeeMemory.Module (ch)

/-- The body of a capture. -/
structure ArchiveRow where
  kind : Text
  tier : Text
  key : Text
  content : Text
  deriving DecidableEq

/-- What `hmem_spill_write` is given. -/
structure Spill where
  project : Text
  name : Text
  kind : Text
  content : Text
  deriving DecidableEq

/-- What `hmem_audit` is given. -/
structure Audit where
  event : Text
  project : Option Text
  name : Option Text
  detail : Option Text
  deriving DecidableEq

structure HookEnv where
  scopes : HmemScopes
  /-- `AIMEE_HOOK_CLIENT`. -/
  client : Option Text
  /-- `HOME`. -/
  home : Option Text
  /-- `hmem_project_key_ok`. -/
  projectKeyOk : Text → Bool
  /-- `hmem_resolve_project`. -/
  resolveProject : Option Text → Option Text
  /-- `HMEM_PROJECT_KEY_MAX`. -/
  keyMax : ℕ
  /-- Whether db1 answers the capture of a row with a success. -/
  captures : ArchiveRow → Bool
  /-- Whether the spill file takes it. -/
  spills : Spill → Bool

/-- What the hook answers, and what it has done. -/
structure HookResult where
  code : ℕ
  msg : Option Text := none
  captured : Option ArchiveRow := none
  spilled : Option Spill := none
  audits : List Audit := []

/-- The dash of the messages, in UTF-8. -/
def dash : Text := [0xe2, 0x80, 0x94]

def notByShell : Text :=
  text "Memory files are managed by aimee " ++ dash ++ text " use the Write tool to set " ++
    text "memory/<name>.md, not shell redirection."

def needsContent : Text := text "Memory Write needs a string 'content' field."

def saved : Text :=
  text "Saved to aimee memory. Memory files are retired " ++ dash ++ text " retrieve with " ++
    text "`aimee memory search` and use `aimee memory store` going forward."

/-- The project: the hint where it is a key, and else what the directory says. -/
def HookEnv.project (env : HookEnv) (cwd hint : Option Text) : Option Text :=
  (hint.filter env.projectKeyOk <|> env.resolveProject cwd).map (·.take (env.keyMax - 1))

/-- `key`. -/
def archiveKey (project name : Text) : Text := text "archive:" ++ project ++ ch '/' :: name

/-- `name[512]`. -/
def NAME_CAP : ℕ := 512

/-- A Write that is redirected under a name. -/
def redirectWrite (env : HookEnv) (root : Json) (cwd hint : Option Text) (msgLen : ℕ) (name : Text) : HookResult :=
  match root.text? "content" with
  | none => { code := 2, msg := some (needsContent.take (msgLen - 1)) }
  | some content =>
    match env.project cwd hint with
    | none => { code := 0 }
    | some project =>
      let row : ArchiveRow := ⟨text "archive", text "L1", archiveKey project name, content⟩
      if env.captures row then
        { code := 2
          msg := some (saved.take (msgLen - 1))
          captured := some row
          audits := [⟨text "redirect-store", some project, some name, none⟩] }
      else
        let spill : Spill := ⟨project, name, text "archive", content⟩
        { code := 0
          spilled := if env.spills spill then some spill else none
          audits := [⟨if env.spills spill then text "spill" else text "spill-failed", some project, some name,
            some (text "store unreachable")⟩] }

/-- `memory_redirect_check`, with a message of so many bytes. -/
def memoryRedirectCheck (env : HookEnv) (tool : Option Text) (root : Option Json) (cwd hint : Option Text) (msgLen : ℕ) :
    HookResult :=
  match root, env.home with
  | some root, some home =>
    if tool = some (text "Bash") then
      if (root.text? "command").any fun cmd =>
          memoryRedirectBashTargetsMemory env.scopes env.client (some cmd) (some home) then
        { code := 2
          msg := some (notByShell.take (msgLen - 1))
          audits := [⟨text "reject", none, none, some (text "bash-write-memory")⟩] }
      else { code := 0 }
    else
      match root.text? "file_path" <|> root.text? "path" with
      | none => { code := 0 }
      | some path =>
        match memoryRedirectClassify env.scopes env.client tool (some path) (some home) NAME_CAP with
        | .allow => { code := 0 }
        | .reject reason =>
          { code := 2
            msg := some (reason.take (msgLen - 1))
            audits := [⟨text "reject", none, none, some reason⟩] }
        | .redirect name => redirectWrite env root cwd hint msgLen name
  | _, _ => { code := 0 }

variable {env : HookEnv} {tool cwd hint : Option Text} {root : Option Json} {msgLen : ℕ} {json : Json}
  {name name' path path' project project' home : Text} {scope : HmemScope} {row row' : ArchiveRow}

theorem redirectWrite_code :
    (redirectWrite env json cwd hint msgLen name).code = 2 ↔ (redirectWrite env json cwd hint msgLen name).msg.isSome := by
  rw [redirectWrite]
  split
  · simp
  · split
    · simp
    · dsimp only
      split <;> simp

/-- A call is denied exactly when the agent is told why. -/
theorem code_eq_two_iff :
    (memoryRedirectCheck env tool root cwd hint msgLen).code = 2 ↔
      (memoryRedirectCheck env tool root cwd hint msgLen).msg.isSome := by
  unfold memoryRedirectCheck
  split
  · split
    · split <;> simp
    · split
      · simp
      · split
        · simp
        · simp
        · exact redirectWrite_code
  · simp

/-- A redirected Write with a content goes ahead, or db1 has the content under the key. -/
theorem redirectWrite_kept {content : Text} (hcontent : json.text? "content" = some content) :
    (redirectWrite env json cwd hint msgLen name).code = 0 ∨
      ∃ row project, (redirectWrite env json cwd hint msgLen name).captured = some row ∧ env.captures row ∧
        env.project cwd hint = some project ∧ row.key = archiveKey project name ∧ row.content = content := by
  rw [redirectWrite, hcontent]
  cases hproject : env.project cwd hint with
  | none => exact .inl rfl
  | some project =>
    dsimp only
    split_ifs with hcaptures
    · exact .inr ⟨_, project, rfl, hcaptures, rfl, rfl, rfl⟩
    · exact .inl rfl
    · exact .inl rfl

/-- **No content is lost** by the hook: a Write that is redirected is denied only when db1 has
its content. -/
theorem redirected_kept {content : Text} (htool : tool ≠ some (text "Bash")) (hhome : env.home = some home)
    (hpath : json.text? "file_path" = some path) (hcontent : json.text? "content" = some content)
    (hredirect : memoryRedirectClassify env.scopes env.client tool (some path) (some home) NAME_CAP = .redirect name) :
    (memoryRedirectCheck env tool (some json) cwd hint msgLen).code = 0 ∨
      ∃ row project, (memoryRedirectCheck env tool (some json) cwd hint msgLen).captured = some row ∧
        env.captures row ∧ env.project cwd hint = some project ∧ row.key = archiveKey project name ∧
        row.content = content := by
  have hcheck : memoryRedirectCheck env tool (some json) cwd hint msgLen =
      redirectWrite env json cwd hint msgLen name := by
    simp only [memoryRedirectCheck, hhome, if_neg htool, hpath, Option.orElse_eq_orElse, Option.orElse_some, hredirect]
  rw [hcheck]
  exact redirectWrite_kept hcontent

/-! ### Keys -/

/-- Keys of two projects differ, where a project has no slash in its name. -/
theorem archiveKey_inj (hproject : ch '/' ∉ project) (hproject' : ch '/' ∉ project') :
    archiveKey project name = archiveKey project' name' ↔ project = project' ∧ name = name' := by
  have hfirst : ∀ {project : Text} (name : Text), ch '/' ∉ project →
      (project ++ ch '/' :: name).takeWhile (· ≠ ch '/') = project := by
    intro project name hslash
    rw [List.takeWhile_append_of_pos fun c hc => decide_eq_true (ne_of_mem_of_not_mem hc hslash),
      List.takeWhile_cons_of_neg (by simp), List.append_nil]
  rw [archiveKey, archiveKey, List.append_assoc, List.append_assoc, List.append_cancel_left_eq]
  constructor
  · intro heq
    obtain rfl : project = project' := by
      have hsame := congrArg (List.takeWhile (· ≠ ch '/')) heq
      rwa [hfirst name hproject, hfirst name' hproject'] at hsame
    exact ⟨rfl, (List.cons.inj (List.append_cancel_left heq)).2⟩
  · rintro ⟨rfl, rfl⟩
    rfl

/-- In one project, no path but one with the same text behind the memory segment has the key of
a path with a short stem. -/
theorem captured_key_faithful (hscope : env.scopes env.client = some scope)
    (hname : memoryRedirectClassify env.scopes env.client (some (text "Write")) (some path) (some home) NAME_CAP =
      .redirect name)
    (hname' : memoryRedirectClassify env.scopes env.client (some (text "Write")) (some path') (some home) NAME_CAP =
      .redirect name')
    (hshort : ∀ key ∈ scope.keyed home path, key.length + 1 < NAME_CAP)
    (hkey : archiveKey project name' = archiveKey project name) : scope.keyed home path' = scope.keyed home path := by
  obtain ⟨after, hkept, -⟩ := (classify_eq_redirect_iff hscope).1 hname
  apply (key_faithful_iff hscope hkept).2 (hshort _ hkept.keyed)
  rw [hname, hname', MrVerdict.redirect.injEq]
  exact (List.cons.inj (List.append_cancel_left hkey)).2

/-- The key fits its buffer. -/
theorem archiveKey_fits (hmax : 0 < env.keyMax) (hproject : env.project cwd hint = some project)
    (hscope : env.scopes env.client = some scope)
    (hname : memoryRedirectClassify env.scopes env.client (some (text "Write")) (some path) (some home) NAME_CAP =
      .redirect name) : (archiveKey project name).length < env.keyMax + 600 := by
  obtain ⟨after, -, rfl⟩ := (classify_eq_redirect_iff hscope).1 hname
  obtain ⟨key, -, rfl⟩ := Option.map_eq_some_iff.1 hproject
  have harchive : (text "archive:").length = 8 := by decide
  have hcut : ((stem after).take (NAME_CAP - 1)).length ≤ NAME_CAP - 1 := List.length_take_le _ _
  rw [archiveKey, List.length_append, List.length_append, List.length_cons, List.length_take, harchive]
  simp only [NAME_CAP] at hcut ⊢
  omega

end AimeeMemory.Redirect
