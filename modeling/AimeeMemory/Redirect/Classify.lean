import AimeeMemory.Lib.PathWalk
import AimeeMemory.Context.Hint
import AimeeMemory.Core.Transcripts
import AimeeMemory.Module.Extract
import Mathlib.Data.List.DropRight
import Mathlib.Data.List.Infix

/-!
# Which writes are taken over

`memory_redirect.c`: `memory_redirect_classify` says of a tool call on a file whether it is let
through, rejected, or stored as a memory under a name that it derives from the path.

## What is proved

* **`redirect_faithful_iff`**: of a path that is redirected, no other path with the same name
  differs from it behind the memory segment, and it lies under the projects root, exactly
  when what is behind the memory segment, less `.md`, is shorter than the last byte of the
  buffer, and the path comes back down through the levels that it climbs above the root.
* **`redirect_unfaithful`**: two paths with one name, and a path that leaves the root.

## Honest scope

The table of clients is not in the repository, so it is a parameter. Paths are shorter than
2^31 bytes, and the buffer of the name has at least one. Links are not followed: a path is
resolved by its text, a relative one from some directory.
-/

namespace AimeeMemory.Redirect

open AimeeMemory.Core AimeeMemory.Lib
open AimeeMemory.Context (lowered)
open AimeeMemory.Module (ch)

/-- `hmem_scope_t`: where a client keeps its memory files. -/
structure HmemScope where
  projectsRoot : Text
  memorySeg : Text

/-- `hmem_scope_for_client`, which is not in the repository. -/
abbrev HmemScopes := Option Text → Option HmemScope

/-- `mr_verdict_t`, with the reason and the name that go with it. -/
inductive MrVerdict where
  | allow
  | reject (reason : Text)
  | redirect (name : Text)
  deriving DecidableEq, Repr

def PATH_MAX : ℕ := 4096

/-- `is_write_family`. -/
def isWriteFamily (tool : Option Text) : Bool :=
  tool = some (text "Write") ∨ tool = some (text "Edit") ∨ tool = some (text "MultiEdit")

/-- `ends_md_ci`. -/
def endsMdCi (path : Text) : Bool :=
  match path.reverse with
  | d :: m :: dot :: _ => dot = ch '.' ∧ tolower m = ch 'm' ∧ tolower d = ch 'd'
  | _ => false

namespace HmemScope

/-- The projects root of a home directory. -/
def rootDir (scope : HmemScope) (home : Text) : Text := home ++ ch '/' :: scope.projectsRoot

/-- `prefix`, of a buffer of `PATH_MAX` bytes. -/
def rootPrefix (scope : HmemScope) (home : Text) : Option Text :=
  let pfx := scope.rootDir home ++ [ch '/']
  if pfx.length < PATH_MAX then some pfx else none

/-- `memseg`, of a buffer of 80 bytes. -/
def memseg (scope : HmemScope) : Option Text :=
  let seg := ch '/' :: scope.memorySeg ++ [ch '/']
  if seg.length < 80 then some seg else none

/-- What a path has behind the projects root, `path + pn`. -/
def behindRoot (scope : HmemScope) (home path : Text) : Option Text := do
  let pfx ← scope.rootPrefix home
  if pfx <+: path then some (path.drop pfx.length) else none

/-- `after`: what a path under the projects root has behind its first memory segment. -/
def after (scope : HmemScope) (home path : Text) : Option Text := do
  let rest ← scope.behindRoot home path
  let seg ← scope.memseg
  let mem ← strstr rest seg
  some (mem.drop seg.length)

end HmemScope

/-- What follows the last slash. -/
def baseName (path : Text) : Text := path.rtakeWhile (· ≠ ch '/')

/-- Without the three bytes of `.md`. -/
def stem (after : Text) : Text := after.take (after.length - 3)

def autoRendered : Text :=
  text "MEMORY.md is auto-rendered from your memory entries; to " ++
    text "add or change one, Write a file under memory/<name>.md."

def useWrite : Text :=
  text "Memory files are managed by aimee; use Write to replace " ++ text "the whole file rather than Edit."

def noTraversal : Text := text "Invalid memory path (no '..' segments)."

/-- `memory_redirect_classify`, with a buffer of so many bytes for the name. -/
def memoryRedirectClassify (scopes : HmemScopes) (client tool path home : Option Text) (nameCap : ℕ) : MrVerdict :=
  match scopes client, path, home with
  | some scope, some path, some home =>
    if isWriteFamily tool = false ∨ home = [] then .allow
    else
      match scope.after home path with
      | none => .allow
      | some after =>
        if endsMdCi path = false then .allow
        else if lowered (baseName path) = lowered (text "MEMORY.md") then .reject autoRendered
        else if tool ≠ some (text "Write") then .reject useWrite
        else if after.length ≤ 3 ∨ after.head? = some (ch '/') then .allow
        else if (strstr after (text "../")).isSome ∨ (strstr after (text "/..")).isSome then .reject noTraversal
        else .redirect ((stem after).take (nameCap - 1))
  | _, _, _ => .allow

/-! ## Paths as walks -/

/-- The steps of a path: `..` goes up, and `.` and an empty name nowhere. -/
def pathSteps (path : Text) : List (PathStep Text) :=
  (path.splitOn (ch '/')).filterMap fun name =>
    if name = [] ∨ name = text "." then none else if name = text ".." then some .up else some (.down name)

/-- A path with its dot-dot segments resolved, where relative paths are from a directory. -/
def resolved (cwd : List Text) (path : Text) : List Text :=
  walk (if path.head? = some (ch '/') then [] else cwd) (pathSteps path)

/-- What a Write path is redirected under: all that stands behind the memory segment but `.md`. -/
def HmemScope.keyed (scope : HmemScope) (home path : Text) : Option Text := (scope.after home path).map stem

/-- What the claim of the redirect is for a path: no other with its name has another key, and
it lies under the projects root. -/
structure Faithful (scopes : HmemScopes) (client : Option Text) (scope : HmemScope) (home : Text) (nameCap : ℕ)
    (cwd : List Text) (path : Text) : Prop where
  key : ∀ other, memoryRedirectClassify scopes client (some (text "Write")) (some other) (some home) nameCap =
      memoryRedirectClassify scopes client (some (text "Write")) (some path) (some home) nameCap →
    scope.keyed home other = scope.keyed home path
  inside : resolved cwd (scope.rootDir home) <+: resolved cwd path

variable {scopes : HmemScopes} {client : Option Text} {scope : HmemScope} {home path name after : Text} {nameCap : ℕ}
  {cwd : List Text}

/-- A path that a Write is redirected for, with what it has behind its memory segment. -/
structure Kept (scope : HmemScope) (home path after : Text) : Prop where
  anchored : home ≠ []
  found : scope.after home path = some after
  md : endsMdCi path
  base : lowered (baseName path) ≠ lowered (text "MEMORY.md")
  long : 3 < after.length
  head : after.head? ≠ some (ch '/')
  down : ¬text "../" <:+: after
  up : ¬text "/.." <:+: after

theorem classify_eq_redirect_iff (hscope : scopes client = some scope) :
    memoryRedirectClassify scopes client (some (text "Write")) (some path) (some home) nameCap = .redirect name ↔
      ∃ after, Kept scope home path after ∧ name = (stem after).take (nameCap - 1) := by
  have hwrite : isWriteFamily (some (text "Write")) = true := by decide
  simp only [memoryRedirectClassify, hscope, hwrite, strstr_isSome, Bool.true_eq_false, false_or, ne_eq, not_true, if_false]
  constructor
  · intro h
    cases hafter : scope.after home path with
    | none => simp [hafter] at h
    | some after =>
      simp only [hafter] at h
      split_ifs at h with hhome hmd hbase hlong hdots
      rw [not_or] at hlong hdots
      refine ⟨after, ⟨hhome, hafter, by simpa using hmd, hbase, by omega, hlong.2, hdots.1, hdots.2⟩, ?_⟩
      exact (MrVerdict.redirect.inj h).symm
  · rintro ⟨after, hkept, rfl⟩
    have hlong : ¬(after.length ≤ 3 ∨ after.head? = some (ch '/')) := not_or.2 ⟨by have := hkept.long; omega, hkept.head⟩
    simp only [hkept.anchored, hkept.found, hkept.md, hkept.base, hlong, hkept.down, hkept.up, if_false, or_self,
      Bool.true_eq_false]

/-! ## A path with one byte more -/

theorem after_eq_some_iff :
    scope.after home path = some after ↔
      ∃ pfx seg before, scope.rootPrefix home = some pfx ∧ scope.memseg = some seg ∧
        path = pfx ++ (before ++ (seg ++ after)) ∧ strstr (before ++ (seg ++ after)) seg = some (seg ++ after) := by
  simp only [HmemScope.after, HmemScope.behindRoot, Option.bind_eq_bind, Option.bind_eq_some_iff, Option.ite_none_right_eq_some,
    Option.some.injEq]
  constructor
  · rintro ⟨rest, ⟨pfx, hpfx, ⟨tail, rfl⟩, rfl⟩, seg, hseg, mem, hmem, rfl⟩
    rw [List.drop_left] at hmem
    obtain ⟨⟨after, rfl⟩, before, rfl⟩ := of_strstr hmem
    rw [List.drop_left]
    exact ⟨pfx, seg, before, hpfx, hseg, rfl, hmem⟩
  · rintro ⟨pfx, seg, before, hpfx, hseg, rfl, hmem⟩
    refine ⟨_, ⟨pfx, hpfx, List.prefix_append _ _, rfl⟩, seg, hseg, seg ++ after, ?_, List.drop_left⟩
    rw [List.drop_left, hmem]

theorem infix_append_cons_iff {α : Type*} {x : α} {needle : List α} (hx : x ∉ needle) (left right : List α) :
    needle <:+: left ++ x :: right ↔ needle <:+: left ∨ needle <:+: right := by
  constructor
  · intro h
    obtain h | h | ⟨front, back, rfl, hfront, hback⟩ := List.infix_append_iff.1 h
    · exact .inl h
    · obtain h | h := List.infix_cons_iff.1 h
      · cases needle with
        | nil => exact .inl (List.nil_infix)
        | cons y needle =>
          obtain ⟨rfl, -⟩ := List.cons_prefix_cons.1 h
          exact absurd (List.mem_cons_self) hx
      · exact .inr h
    · cases back with
      | nil =>
        rw [List.append_nil]
        exact .inl hfront.isInfix
      | cons y back =>
        obtain ⟨rfl, -⟩ := List.cons_prefix_cons.1 hback
        exact absurd (List.mem_append_right _ List.mem_cons_self) hx
  · rintro (h | h)
    · exact h.trans (List.prefix_append _ _).isInfix
    · exact h.trans ((List.suffix_cons _ _).trans (List.suffix_append _ _)).isInfix

theorem endsMdCi_append {l : Text} (dot m d : UInt8) : endsMdCi (l ++ [dot, m, d]) = endsMdCi [dot, m, d] := by
  rw [endsMdCi, List.reverse_append]
  rfl

theorem baseName_append {l t : Text} (ht : ch '/' ∉ t) : baseName (l ++ t) = baseName l ++ t := by
  rw [baseName, List.rtakeWhile, List.reverse_append, List.takeWhile_append_of_pos, List.reverse_append, List.reverse_reverse]
  · rfl
  · intro c hc
    rw [List.mem_reverse] at hc
    exact decide_eq_true (ne_of_mem_of_not_mem hc ht)

/-- What is kept is a stem and `.md` in some case. -/
theorem Kept.after_eq (h : Kept scope home path after) :
    ∃ m d, after = stem after ++ [ch '.', m, d] ∧ tolower m = ch 'm' ∧ tolower d = ch 'd' := by
  obtain ⟨pfx, seg, before, -, -, hpath, -⟩ := after_eq_some_iff.1 h.found
  have hlong := h.long
  have hthree : (after.drop (after.length - 3)).length = 3 := by
    rw [List.length_drop]
    omega
  obtain ⟨dot, m, d, hext⟩ := List.length_eq_three.1 hthree
  have hafter : after = stem after ++ [dot, m, d] := by
    rw [← hext]
    exact (List.take_append_drop _ _).symm
  have hmd := h.md
  rw [hpath, hafter, ← List.append_assoc, ← List.append_assoc, ← List.append_assoc, endsMdCi_append] at hmd
  obtain ⟨rfl, hm, hd⟩ : dot = ch '.' ∧ tolower m = ch 'm' ∧ tolower d = ch 'd' := by simpa [endsMdCi] using hmd
  exact ⟨m, d, hafter, hm, hd⟩

theorem slash_notMem_grown {m d : UInt8} (hm : tolower m = ch 'm') (hd : tolower d = ch 'd') :
    ch '/' ∉ [ch 'x', ch '.', m, d] := by
  have hm' : ch '/' ≠ m := by
    rintro rfl
    exact absurd hm (by decide)
  have hd' : ch '/' ≠ d := by
    rintro rfl
    exact absurd hd (by decide)
  simp only [List.mem_cons, List.not_mem_nil, hm', hd', or_false, not_or]
  decide

/-- No file whose name ends so is `MEMORY.md`: its fourth byte from the end is no `y`. -/
theorem lowered_grown_ne (front : Text) (m d : UInt8) :
    lowered (front ++ [ch 'x', ch '.', m, d]) ≠ lowered (text "MEMORY.md") := by
  intro heq
  have hfourth := congrArg (fun t : Text => t.reverse[3]?) heq
  simp only [lowered, List.map_append, List.map_cons] at hfourth
  revert hfourth
  simp
  decide

/-- Three bytes without an `x` that do not stand in a name do not stand in it with the `x`. -/
theorem not_infix_grown {needle front : Text} {m d : UInt8} (hlen : needle.length = 3) (hx : ch 'x' ∉ needle)
    (hout : ¬needle <:+: front ++ [ch '.', m, d]) : ¬needle <:+: front ++ [ch 'x', ch '.', m, d] := by
  intro hin
  apply hout
  obtain hin | hin := (infix_append_cons_iff hx _ _).1 hin
  · exact hin.trans (List.prefix_append _ _).isInfix
  · rw [hin.eq_of_length hlen]
    exact (List.suffix_append _ _).isInfix

/-- One byte more before the end of a path that is kept, and it is kept. -/
theorem Kept.grow (h : Kept scope home path after) :
    ∃ other grown, Kept scope home other grown ∧ stem grown = stem after ++ [ch 'x'] := by
  obtain ⟨m, d, hafter, hm, hd⟩ := h.after_eq
  obtain ⟨pfx, seg, before, hpfx, hseg, -, hmem⟩ := after_eq_some_iff.1 h.found
  refine ⟨pfx ++ (before ++ (seg ++ (stem after ++ [ch 'x', ch '.', m, d]))), stem after ++ [ch 'x', ch '.', m, d], ?_, ?_⟩
  · constructor
    case anchored => exact h.anchored
    case found => exact after_eq_some_iff.2 ⟨pfx, seg, before, hpfx, hseg, rfl, strstr_tail _ hmem⟩
    case md =>
      rw [← List.append_assoc, ← List.append_assoc, ← List.append_assoc, List.append_cons, endsMdCi_append]
      simp [endsMdCi, hm, hd]
    case base =>
      rw [← List.append_assoc, ← List.append_assoc, ← List.append_assoc, baseName_append (slash_notMem_grown hm hd)]
      exact lowered_grown_ne _ m d
    case long => simp
    case head =>
      have hne : stem after ≠ [] := by
        have hlong := h.long
        rw [hafter, List.length_append] at hlong
        exact List.length_pos_iff.1 (by simpa using hlong)
      have hhead := h.head
      rw [hafter, List.head?_append_of_ne_nil _ hne] at hhead
      rwa [List.head?_append_of_ne_nil _ hne]
    case down => exact not_infix_grown rfl (by decide) (hafter ▸ h.down)
    case up => exact not_infix_grown rfl (by decide) (hafter ▸ h.up)
  · rw [stem, List.length_append]
    show List.take (_ + 4 - 3) _ = _
    rw [List.append_cons, List.take_left' (by simp)]

/-! ## What a redirect keeps -/

theorem Kept.keyed (h : Kept scope home path after) : scope.keyed home path = some (stem after) := by
  rw [HmemScope.keyed, h.found, Option.map_some]

theorem Kept.classify (hscope : scopes client = some scope) (h : Kept scope home path after) :
    memoryRedirectClassify scopes client (some (text "Write")) (some path) (some home) nameCap =
      .redirect ((stem after).take (nameCap - 1)) :=
  (classify_eq_redirect_iff hscope).2 ⟨after, h, rfl⟩

/-- No other path takes the name of one that is kept, exactly when its stem ends before the
last byte of the buffer. -/
theorem key_faithful_iff (hscope : scopes client = some scope) (h : Kept scope home path after) :
    (∀ other, memoryRedirectClassify scopes client (some (text "Write")) (some other) (some home) nameCap =
        memoryRedirectClassify scopes client (some (text "Write")) (some path) (some home) nameCap →
      scope.keyed home other = scope.keyed home path) ↔ (stem after).length + 1 < nameCap := by
  rw [h.classify hscope, h.keyed]
  constructor
  · intro hall
    by_contra hlong
    obtain ⟨other, grown, hgrown, hstem⟩ := h.grow
    have heq := hall other (by rw [hgrown.classify hscope, hstem, List.take_append_of_le_length (by omega)])
    rw [hgrown.keyed, hstem] at heq
    exact absurd (Option.some.inj heq) (by simp)
  · intro hshort other hother
    obtain ⟨found, hkept, hname⟩ := (classify_eq_redirect_iff hscope).1 hother
    rw [hkept.keyed]
    rw [List.take_of_length_le (by omega)] at hname
    have hcut : (stem found).length ≤ nameCap - 1 := by
      have hlen := congrArg List.length hname
      rw [List.length_take] at hlen
      omega
    rw [hname, List.take_of_length_le hcut]

/-- A path behind the root lies under it exactly when it comes back down to it. -/
theorem inside_iff {rest : Text} (hhome : home ≠ []) (hrest : scope.behindRoot home path = some rest) :
    resolved cwd (scope.rootDir home) <+: resolved cwd path ↔
      Returns (resolved cwd (scope.rootDir home)) (pathSteps rest) := by
  simp only [HmemScope.behindRoot, HmemScope.rootPrefix, Option.bind_eq_bind, Option.bind_eq_some_iff,
    Option.ite_none_right_eq_some, Option.some.injEq] at hrest
  obtain ⟨pfx, ⟨-, rfl⟩, ⟨tail, rfl⟩, rfl⟩ := hrest
  have hsteps : pathSteps (scope.rootDir home ++ [ch '/'] ++ tail) = pathSteps (scope.rootDir home) ++ pathSteps tail := by
    rw [pathSteps, List.append_assoc, List.singleton_append, List.splitOn_append_cons_self, List.filterMap_append]
    rfl
  have hhead : (scope.rootDir home ++ [ch '/'] ++ tail).head? = (scope.rootDir home).head? := by
    cases home with
    | nil => exact absurd rfl hhome
    | cons c home => rfl
  rw [List.drop_left, ← prefix_walk_iff, resolved, resolved, hsteps, hhead, walk_append]

/-- A path without `..` behind the root lies under it. -/
theorem inside_of_down {rest : Text} (hhome : home ≠ []) (hrest : scope.behindRoot home path = some rest)
    (hdown : PathStep.up ∉ pathSteps rest) : resolved cwd (scope.rootDir home) <+: resolved cwd path :=
  (inside_iff hhome hrest).2 (returns_of_down hdown)

/-- **Redirect keys are faithful** exactly for short stems, and inside the root exactly for
paths that come back down to it. -/
theorem redirect_faithful_iff (hscope : scopes client = some scope)
    (h : memoryRedirectClassify scopes client (some (text "Write")) (some path) (some home) nameCap = .redirect name) :
    Faithful scopes client scope home nameCap cwd path ↔
      (∀ key ∈ scope.keyed home path, key.length + 1 < nameCap) ∧
        ∀ rest ∈ scope.behindRoot home path, Returns (resolved cwd (scope.rootDir home)) (pathSteps rest) := by
  obtain ⟨after, hkept, rfl⟩ := (classify_eq_redirect_iff hscope).1 h
  obtain ⟨rest, hrest, -⟩ := Option.bind_eq_some_iff.1 hkept.found
  rw [hkept.keyed, hrest]
  simp only [Option.mem_some_iff, forall_eq']
  rw [← key_faithful_iff hscope hkept, ← inside_iff hkept.anchored hrest]
  exact ⟨fun h => ⟨h.key, h.inside⟩, fun h => ⟨h.1, h.2⟩⟩

/-! ### The registered client -/

/-- The surface that the repository speaks of: `~/.claude/projects/<slug>/memory/<name>.md`. -/
def claudeScope : HmemScope := ⟨text ".claude/projects", text "memory"⟩

def claudeScopes : HmemScopes := fun client => if client = some (text "claude") then some claudeScope else none

def homeU : Text := text "/home/u"

def underProjects (rest : Text) : Text := text "/home/u/.claude/projects/" ++ rest

/-- A Write through the hook, whose buffer has 512 bytes. -/
def claudeWrite (rest : Text) : MrVerdict :=
  memoryRedirectClassify claudeScopes (some (text "claude")) (some (text "Write")) (some (underProjects rest)) (some homeU) 512

theorem redirect_faithful_topics :
    Faithful claudeScopes (some (text "claude")) claudeScope homeU 512 []
      (underProjects (text "proj/memory/topics/auth.md")) := by
  have hname : claudeWrite (text "proj/memory/topics/auth.md") = .redirect (text "topics/auth") := by decide +kernel
  exact (redirect_faithful_iff rfl hname).2 ⟨by decide +kernel, by decide +kernel⟩

/-- A path of the project whose stem does not fit the buffer. -/
def longNote (last : Char) : Text := text "proj/memory/" ++ List.replicate 511 (ch 'a') ++ ch last :: text ".md"

def escaping : Text := text "../../x/memory/f.md"

/-- Two notes are stored under one name, and a file outside the projects is taken for one. -/
theorem redirect_unfaithful :
    claudeWrite (longNote 'b') = .redirect (List.replicate 511 (ch 'a')) ∧
      claudeWrite (longNote 'c') = .redirect (List.replicate 511 (ch 'a')) ∧
      claudeScope.keyed homeU (underProjects (longNote 'b')) ≠ claudeScope.keyed homeU (underProjects (longNote 'c')) ∧
      claudeWrite escaping = .redirect (text "f") ∧
      ¬resolved [] (claudeScope.rootDir homeU) <+: resolved [] (underProjects escaping) := by
  refine ⟨?_, ?_, ?_, ?_, ?_⟩ <;> decide +kernel

end AimeeMemory.Redirect
