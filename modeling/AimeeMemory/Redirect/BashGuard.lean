import AimeeMemory.Lib.Quoting
import AimeeMemory.Redirect.Classify

/-!
# Commands that write memory files

`memory_redirect.c`: `memory_redirect_bash_targets_memory` looks for the paths of memory files
in a shell command, and behind the last separator before each for a sign that the command
writes: a `>` outside of quotes, or one of ten phrases.

## What is proved

* **`bashGuard_iff`**: of a simple command that names a memory file, the guard sees that it
  redirects its output before the file, and lets it pass where it neither redirects nor has a
  word that is a write tool, exactly when the signs that it looks for are there in the one case
  and not in the other.
* **`bashGuard_misses`**: a quoted `;` hides a redirection, so does `>|`, and `committee` is
  taken for `tee`.
* `plain_redirect_seen`, `plain_read_passes`: the guard is right before a path without
  separators, and with no backslash in single quotes, where no phrase stands.

## Honest scope

The shell's reading is that of POSIX, with `&>` and `>&`: quotes of two kinds and the backslash.
A word is taken for its text: what `$`, `~` and wildcards stand for is not known, and reserved
words are not told from others.
-/

namespace AimeeMemory.Redirect

open AimeeMemory.Core AimeeMemory.Lib
open AimeeMemory.Module (ch)

/-! ## The guard -/

def squote : UInt8 := 39

def dquote : UInt8 := 34

def backslash : UInt8 := 92

/-- The first loop of `region_has_write_op`, in single or in double quotes; the byte behind a
backslash is passed over. -/
def regionLoop : Bool → Bool → Bool → Text → Bool
  | _, _, _, [] => false
  | sq, dq, true, _ :: cs => regionLoop sq dq false cs
  | sq, dq, false, c :: cs =>
    if c = backslash ∧ cs ≠ [] then regionLoop sq dq true cs
    else if !dq ∧ c = squote then regionLoop (!sq) dq false cs
    else if !sq ∧ c = dquote then regionLoop sq (!dq) false cs
    else if !sq ∧ !dq ∧ c = ch '>' then true
    else regionLoop sq dq false cs

/-- `kw`. -/
def writeOps : List Text :=
  ["tee", "sed -i", "dd of=", "truncate ", "cp ", "mv ", "install ", "perl -i", "perl -pi", "patch "].map text

/-- `region_has_write_op`. -/
def regionHasWriteOp (region : Text) : Bool :=
  regionLoop false false false region || writeOps.any fun op => op <:+: region

/-- What a path ends at. -/
def terminators : Text := text " \t;|&\n\"'`)<>"

/-- What a simple command is taken to begin behind. -/
def separators : Text := text ";|&\n"

/-- The path that a place of the command begins. -/
def pathToken (found : Text) : Text := found.takeWhile (· ∉ terminators)

/-- `ends_md`. -/
def endsMd (token : Text) : Bool :=
  match token.reverse with
  | d :: m :: dot :: _ => dot = ch '.' ∧ (m = ch 'm' ∨ m = ch 'M') ∧ (d = ch 'd' ∨ d = ch 'D')
  | _ => false

/-- The simple command up to a place: what stands behind the last separator. -/
def regionBefore (before : Text) : Text := before.rtakeWhile (· ∉ separators)

/-- Where the loop goes on behind a path: one byte on where there is none. -/
def behindToken (ts : ℕ) (token : Text) : ℕ := if token = [] then ts + 1 else ts + token.length

/-- The loop of `memory_redirect_bash_targets_memory` from a place on. -/
def targetsLoop (pfx seg command : Text) : ℕ → ℕ → Bool
  | 0, _ => false
  | k + 1, p =>
    match strstr (command.drop p) pfx with
    | none => false
    | some found =>
      let ts := command.length - found.length
      let token := pathToken found
      if seg <:+: token ∧ endsMd token ∧ regionHasWriteOp (regionBefore (command.take ts)) then true
      else targetsLoop pfx seg command k (behindToken ts token)

/-- `memory_redirect_bash_targets_memory`. -/
def memoryRedirectBashTargetsMemory (scopes : HmemScopes) (client command home : Option Text) : Bool :=
  match scopes client, command, home with
  | some scope, some command, some home =>
    if home = [] then false
    else
      match scope.rootPrefix home, scope.memseg with
      | some pfx, some seg => targetsLoop pfx seg command (command.length + 1) 0
      | _, _ => false
  | _, _, _ => false

/-! ## Simple commands -/

/-- How the shell quotes. -/
def shellQuotes : Quotes UInt8 where
  escape := backslash
  single := squote
  double := dquote
  inSingle := false
  inDouble c := c ∈ text "$`\"\\"
  joins c := c = ch '\n'

/-- The bytes that end a word. -/
def endsWord (c : UInt8) : Bool := c ∈ text " \t\n|&;()<>"

/-- Nothing in what is read ends the command, is a comment, or is a command of its own: `|` and
`&` stand in redirections only. -/
def oneCommand : Reading UInt8 → List (Reading UInt8) → Bool
  | _, [] => true
  | last, r :: rs =>
    (match r with
      | .bare c =>
        if c ∈ text ";()`\n" then false
        else if c = ch '|' then last = .bare (ch '>')
        else if c = ch '&' then
          last = .bare (ch '>') ∨ last = .bare (ch '<') ∨ rs.head? = some (.bare (ch '>'))
        else if c = ch '#' then
          match last with
          | .bare b => !endsWord b
          | .soft _ | .quoted _ => true
        else true
      | .soft c => c ≠ ch '`' ∧ ¬(c = ch '(' ∧ last = .soft (ch '$'))
      | .quoted _ => true) &&
    oneCommand r rs

/-- A single simple command. -/
structure SimpleCommand where
  line : Text
  complete : shellQuotes.quoting .bare line = .bare
  single : oneCommand (.bare (ch ' ')) (shellQuotes.readings .bare line) = true

namespace SimpleCommand

def readings (c : SimpleCommand) : List (Reading UInt8) := shellQuotes.readings .bare c.line

def words (c : SimpleCommand) : List (Word UInt8) := Lib.words endsWord 0 none c.readings

end SimpleCommand

/-- A memory file: under the projects root, behind its memory segment, and Markdown. -/
def ManagedFile (scope : HmemScope) (home path : Text) : Prop :=
  scope.rootDir home ++ [ch '/'] <+: path ∧
    (ch '/' :: scope.memorySeg ++ [ch '/']) <:+: path.drop (scope.rootDir home ++ [ch '/']).length ∧ endsMdCi path

instance (scope : HmemScope) (home path : Text) : Decidable (ManagedFile scope home path) :=
  inferInstanceAs (Decidable (_ ∧ _ ∧ _))

/-- The write tools of `kw`. -/
def writeTools : List Text := ["tee", "sed", "dd", "truncate", "cp", "mv", "install", "perl", "patch"].map text

/-- The output is redirected before a word that names a memory file. -/
def Writes (scope : HmemScope) (home : Text) (c : SimpleCommand) : Prop :=
  ∃ w ∈ c.words, ManagedFile scope home w.value ∧ .bare (ch '>') ∈ c.readings.take w.start

/-- A memory file is named, no output is redirected, and no word is a write tool. -/
def Reads (scope : HmemScope) (home : Text) (c : SimpleCommand) : Prop :=
  (∃ w ∈ c.words, ManagedFile scope home w.value) ∧ .bare (ch '>') ∉ c.readings ∧ ∀ w ∈ c.words, w.value ∉ writeTools

/-- What the guard is for. -/
structure Guarded (scopes : HmemScopes) (client : Option Text) (scope : HmemScope) (home : Text) (c : SimpleCommand) :
    Prop where
  writes : Writes scope home c → memoryRedirectBashTargetsMemory scopes client (some c.line) (some home) = true
  reads : Reads scope home c → memoryRedirectBashTargetsMemory scopes client (some c.line) (some home) = false

/-! ## What the guard sees -/

/-- The signs of a command that writes, in a text that is read from its start on with a
backslash that acts in single quotes too. -/
def Shows (region : Text) : Prop :=
  .bare (ch '>') ∈ shellQuotes.coarse.readings .bare region ∨ ∃ op ∈ writeOps, op <:+: region

/-- A path of a memory file that a command spells out at a place: no path with the prefix that
begins earlier reaches over it. -/
structure Spelled (pfx seg command : Text) (i : ℕ) : Prop where
  begins : pfx <+: command.drop i
  first : ∀ j < i, pfx <+: command.drop j → j + (pathToken (command.drop j)).length ≤ i
  segment : seg <:+: pathToken (command.drop i)
  md : endsMd (pathToken (command.drop i))

/-- Some memory file is spelled out behind a sign of a command that writes. -/
def Shown (scope : HmemScope) (home command : Text) : Prop :=
  ∃ pfx ∈ scope.rootPrefix home, ∃ seg ∈ scope.memseg, ∃ i,
    Spelled pfx seg command i ∧ Shows (regionBefore (command.take i))

/-- Where in quotes the loop of `region_has_write_op` is. -/
def loopQuoting : Bool → Bool → Bool → Quoting
  | true, _, false => .single
  | true, _, true => .singleEscaped
  | false, true, false => .double
  | false, true, true => .doubleEscaped
  | false, false, false => .bare
  | false, false, true => .escaped

theorem next_loopQuoting_escaped (sq dq : Bool) (c : UInt8) :
    shellQuotes.coarse.next (loopQuoting sq dq true) c = loopQuoting sq dq false := by
  cases sq <;> cases dq <;> rfl

theorem next_loopQuoting_backslash (sq dq : Bool) :
    shellQuotes.coarse.next (loopQuoting sq dq false) backslash = loopQuoting sq dq true := by
  cases sq <;> cases dq <;> decide

theorem next_loopQuoting_squote (sq : Bool) :
    shellQuotes.coarse.next (loopQuoting sq false false) squote = loopQuoting (!sq) false false := by
  cases sq <;> decide

theorem next_loopQuoting_dquote (dq : Bool) :
    shellQuotes.coarse.next (loopQuoting false dq false) dquote = loopQuoting false (!dq) false := by
  cases dq <;> decide

/-- A byte that changes nothing in the loop is none that quotes where it stands. -/
theorem next_loopQuoting_other {sq dq : Bool} {c : UInt8} (hq : (sq && dq) = false) (hescape : c ≠ backslash)
    (hsingle : ¬((!dq) = true ∧ c = squote)) (hdouble : ¬((!sq) = true ∧ c = dquote)) :
    shellQuotes.coarse.next (loopQuoting sq dq false) c = loopQuoting sq dq false := by
  cases sq with
  | true =>
    obtain rfl : dq = false := by simpa using hq
    have hs : c ≠ squote := fun h => hsingle ⟨rfl, h⟩
    exact (if_neg hs).trans (if_neg fun h => hescape h.2)
  | false =>
    have hd : c ≠ dquote := fun h => hdouble ⟨rfl, h⟩
    cases dq with
    | true => exact (if_neg hd).trans (if_neg hescape)
    | false => exact (if_neg hescape).trans ((if_neg fun h => hsingle ⟨rfl, h⟩).trans (if_neg hd))

/-- **The first loop** finds the bare `>` of the coarse scanner. -/
theorem regionLoop_iff {sq dq skip : Bool} {region : Text} (hq : (sq && dq) = false) :
    regionLoop sq dq skip region ↔
      .bare (ch '>') ∈ shellQuotes.coarse.readings (loopQuoting sq dq skip) region := by
  induction region generalizing sq dq skip with
  | nil => simp [regionLoop, Quotes.readings]
  | cons c cs ih =>
    rw [Quotes.readings, List.mem_cons, eq_comm (a := Reading.bare (ch '>')), Quotes.reading_eq_bare_iff]
    cases skip with
    | true =>
      have hquoted : loopQuoting sq dq true ≠ .bare := by cases sq <;> cases dq <;> simp [loopQuoting]
      rw [regionLoop, ih hq, next_loopQuoting_escaped]
      simp [hquoted]
    | false =>
      -- a byte that quotes is no sign itself
      have hmark : c = backslash ∨ c = squote ∨ c = dquote →
          ¬(loopQuoting sq dq false = .bare ∧ ¬(c = backslash ∨ c = squote ∨ c = dquote) ∧ c = ch '>') :=
        fun h hbare => hbare.2.1 h
      rw [regionLoop]
      split_ifs with hescape hsingle hdouble hout
      · obtain ⟨rfl, -⟩ := hescape
        rw [ih hq, next_loopQuoting_backslash]
        exact (or_iff_right (hmark (.inl rfl))).symm
      · obtain ⟨hdq, rfl⟩ := hsingle
        obtain rfl : dq = false := by simpa using hdq
        rw [ih (by simp), next_loopQuoting_squote]
        exact (or_iff_right (hmark (.inr (.inl rfl)))).symm
      · obtain ⟨hsq, rfl⟩ := hdouble
        obtain rfl : sq = false := by simpa using hsq
        rw [ih rfl, next_loopQuoting_dquote]
        exact (or_iff_right (hmark (.inr (.inr rfl)))).symm
      · obtain ⟨hsq, hdq, rfl⟩ := hout
        obtain rfl : sq = false := by simpa using hsq
        obtain rfl : dq = false := by simpa using hdq
        exact iff_of_true rfl (.inl ⟨rfl, by decide, rfl⟩)
      · have hbare : ¬(loopQuoting sq dq false = .bare ∧ ¬(c = backslash ∨ c = squote ∨ c = dquote) ∧ c = ch '>') := by
          rintro ⟨hbare, -, rfl⟩
          apply hout
          revert hbare
          cases sq <;> cases dq <;> decide
        rw [ih hq]
        refine Iff.trans ?_ (or_iff_right hbare).symm
        by_cases hc : c = backslash
        · -- a backslash at the end quotes nothing
          obtain rfl : cs = [] := by
            by_contra hcs
            exact hescape ⟨hc, hcs⟩
          rfl
        · rw [next_loopQuoting_other hq hc hsingle hdouble]

theorem regionHasWriteOp_iff {region : Text} : regionHasWriteOp region ↔ Shows region := by
  rw [regionHasWriteOp, Bool.or_eq_true, regionLoop_iff rfl, List.any_eq_true, Shows]
  simp only [decide_eq_true_eq]
  rfl

variable {scopes : HmemScopes} {client : Option Text} {scope : HmemScope} {home command pfx seg : Text}

/-- What begins within a path ends where it ends. -/
theorem pathToken_drop {found : Text} {n : ℕ} (hn : n ≤ (pathToken found).length) :
    pathToken (found.drop n) = (pathToken found).drop n := by
  induction found generalizing n with
  | nil => simp [pathToken]
  | cons c found ih =>
    cases n with
    | zero => rfl
    | succ n =>
      by_cases hc : c ∈ terminators
      · simp [pathToken, hc] at hn
      · have htoken : pathToken (c :: found) = c :: pathToken found := by simp [pathToken, hc]
        rw [htoken] at hn ⊢
        exact ih (Nat.le_of_succ_le_succ hn)

theorem behindToken_spec {command : Text} {ts : ℕ} (hin : ts < command.length) :
    ts < behindToken ts (pathToken (command.drop ts)) ∧
      behindToken ts (pathToken (command.drop ts)) ≤ command.length ∧
      ts + (pathToken (command.drop ts)).length ≤ behindToken ts (pathToken (command.drop ts)) ∧
      ∀ i, ts < i → ts + (pathToken (command.drop ts)).length ≤ i → behindToken ts (pathToken (command.drop ts)) ≤ i := by
  have htoken : (pathToken (command.drop ts)).length ≤ command.length - ts := by
    rw [← List.length_drop]
    exact (List.takeWhile_prefix _).length_le
  rw [behindToken]
  split_ifs with hempty
  · rw [hempty, List.length_nil]
    exact ⟨by omega, by omega, by omega, fun i _ _ => by omega⟩
  · have hpos := List.length_pos_iff.2 hempty
    exact ⟨by omega, by omega, by omega, fun i _ _ => by omega⟩

/-- A path that begins before the place behind a token does not reach over it. -/
theorem token_le_behindToken {command : Text} {ts j : ℕ} (hin : ts < command.length) (hj : ts < j)
    (hbefore : j < behindToken ts (pathToken (command.drop ts))) :
    j + (pathToken (command.drop j)).length ≤ behindToken ts (pathToken (command.drop ts)) := by
  obtain ⟨-, -, hreach, hleast⟩ := behindToken_spec hin
  have hwithin : j < ts + (pathToken (command.drop ts)).length := by
    by_contra hout
    exact absurd (hleast j hj (by omega)) (by omega)
  have hdrop : command.drop j = (command.drop ts).drop (j - ts) := by
    rw [List.drop_drop]
    congr 1
    omega
  rw [hdrop, pathToken_drop (by omega), List.length_drop]
  omega

/-- What `strstr` finds from a place on is the first place of the prefix there. -/
theorem strstr_drop {p : ℕ} {found : Text} (hpfx : pfx ≠ []) (h : strstr (command.drop p) pfx = some found) :
    ∃ ts, p ≤ ts ∧ ts < command.length ∧ found = command.drop ts ∧ command.length - found.length = ts ∧
      pfx <+: command.drop ts ∧ ∀ j, p ≤ j → j < ts → ¬pfx <+: command.drop j := by
  obtain ⟨n, -, rfl, hbegins, hfirst⟩ := strstr_first h
  rw [List.drop_drop] at hbegins
  have hin : p + n < command.length := by
    have hlen := hbegins.length_le
    rw [List.length_drop] at hlen
    have hpos := List.length_pos_iff.2 hpfx
    omega
  refine ⟨p + n, by omega, hin, List.drop_drop, ?_, hbegins, fun j hj hjn => ?_⟩
  · rw [List.drop_drop, List.length_drop]
    omega
  · have hnot := hfirst (j - p) (by omega)
    rwa [List.drop_drop, Nat.add_sub_cancel' hj] at hnot

/-- From a place that no path with the prefix reaches over, the loop finds what is spelled
out behind it. -/
theorem targetsLoop_iff (hpfx : pfx ≠ []) {k p : ℕ} (hk : command.length < k + p) (hp : p ≤ command.length)
    (hdone : ∀ j < p, pfx <+: command.drop j → j + (pathToken (command.drop j)).length ≤ p) :
    targetsLoop pfx seg command k p ↔
      ∃ i ≥ p, Spelled pfx seg command i ∧ Shows (regionBefore (command.take i)) := by
  induction k generalizing p with
  | zero => omega
  | succ k ih =>
    rw [targetsLoop]
    cases hfound : strstr (command.drop p) pfx with
    | none =>
      refine iff_of_false (by simp) ?_
      rintro ⟨i, hi, hspelled, -⟩
      apply strstr_eq_none hfound (i - p)
      rw [List.drop_drop, Nat.add_sub_cancel' hi]
      exact hspelled.begins
    | some found =>
      obtain ⟨ts, hpts, hin, rfl, hplace, hbegins, hnone⟩ := strstr_drop hpfx hfound
      have hfirst : ∀ j < ts, pfx <+: command.drop j → j + (pathToken (command.drop j)).length ≤ ts := by
        intro j hj hoccurs
        by_cases hjp : j < p
        · exact (hdone j hjp hoccurs).trans hpts
        · exact absurd hoccurs (hnone j (by omega) hj)
      simp only [hplace]
      split_ifs with hsign
      · exact iff_of_true rfl
          ⟨ts, hpts, ⟨hbegins, hfirst, hsign.1, hsign.2.1⟩, regionHasWriteOp_iff.1 hsign.2.2⟩
      · obtain ⟨hbehind, hinside, hreach, hleast⟩ := behindToken_spec hin
        rw [ih (by omega) hinside]
        · constructor
          · rintro ⟨i, hi, hspelled, hshows⟩
            exact ⟨i, by omega, hspelled, hshows⟩
          · rintro ⟨i, hi, hspelled, hshows⟩
            have hits : ts ≤ i := by
              by_contra hlt
              exact hnone i hi (by omega) hspelled.begins
            have hne : ts ≠ i := by
              rintro rfl
              exact hsign ⟨hspelled.segment, hspelled.md, regionHasWriteOp_iff.2 hshows⟩
            exact ⟨i, hleast i (by omega) (hspelled.first ts (by omega) hbegins), hspelled, hshows⟩
        · intro j hj hoccurs
          obtain hjts | rfl | hjts := Nat.lt_trichotomy j ts
          · exact (hfirst j hjts hoccurs).trans (by omega)
          · exact hreach
          · exact token_le_behindToken hin hjts hj

theorem targetsMemory_iff (hscope : scopes client = some scope) (hhome : home ≠ []) :
    memoryRedirectBashTargetsMemory scopes client (some command) (some home) = true ↔ Shown scope home command := by
  simp only [memoryRedirectBashTargetsMemory, hscope, if_neg hhome]
  cases hpfx : scope.rootPrefix home with
  | none =>
    refine iff_of_false (by simp) ?_
    rintro ⟨pfx, h, -⟩
    rw [hpfx] at h
    cases h
  | some pfx =>
    cases hseg : scope.memseg with
    | none =>
      refine iff_of_false (by simp) ?_
      rintro ⟨_, -, seg, h, -⟩
      rw [hseg] at h
      cases h
    | some seg =>
      have hne : pfx ≠ [] := by
        rintro rfl
        simp [HmemScope.rootPrefix] at hpfx
      show targetsLoop pfx seg command (command.length + 1) 0 = true ↔ _
      rw [targetsLoop_iff hne (by omega) (Nat.zero_le _) fun j hj => absurd hj (Nat.not_lt_zero j)]
      simp only [Shown, hpfx, hseg, Option.mem_some_iff, exists_eq_left', ge_iff_le, Nat.zero_le, true_and]

/-! ## Plain commands -/

theorem regionBefore_plain {before : Text} (h : ∀ c ∈ before, c ∉ separators) : regionBefore before = before :=
  List.rtakeWhile_eq_self_iff.2 fun c hc => decide_eq_true (h c hc)

/-- A redirection is seen before a path that is spelled out, behind no separator and no
backslash in single quotes. -/
theorem plain_redirect_seen (hscope : scopes client = some scope) (hhome : home ≠ []) {i : ℕ}
    (hpfx : scope.rootPrefix home = some pfx) (hseg : scope.memseg = some seg) (hspelled : Spelled pfx seg command i)
    (hplain : ∀ c ∈ command.take i, c ∉ separators) (hescapes : shellQuotes.EscapesOutside .bare (command.take i))
    (hredirect : .bare (ch '>') ∈ (shellQuotes.readings .bare command).take i) :
    memoryRedirectBashTargetsMemory scopes client (some command) (some home) = true := by
  rw [targetsMemory_iff hscope hhome]
  refine ⟨pfx, hpfx, seg, hseg, i, hspelled, .inl ?_⟩
  rw [Quotes.take_readings] at hredirect
  rw [regionBefore_plain hplain]
  exact (Quotes.bare_mem_coarse_iff rfl (by decide) hescapes).2 hredirect

/-- A command passes without separators, with no backslash in single quotes, no redirection and
none of the phrases. -/
theorem plain_read_passes (hscope : scopes client = some scope) (hhome : home ≠ [])
    (hplain : ∀ c ∈ command, c ∉ separators) (hescapes : shellQuotes.EscapesOutside .bare command)
    (hread : .bare (ch '>') ∉ shellQuotes.readings .bare command) (hops : ∀ op ∈ writeOps, ¬op <:+: command) :
    memoryRedirectBashTargetsMemory scopes client (some command) (some home) = false := by
  rw [← Bool.not_eq_true, targetsMemory_iff hscope hhome]
  rintro ⟨pfx, -, seg, -, i, -, hshows⟩
  rw [regionBefore_plain fun c hc => hplain c (List.mem_of_mem_take hc)] at hshows
  obtain hbare | ⟨op, hop, hin⟩ := hshows
  · rw [Quotes.bare_mem_coarse_iff rfl (by decide) (hescapes.take i), ← Quotes.take_readings] at hbare
    exact hread (List.mem_of_mem_take hbare)
  · exact hops op hop (hin.trans (List.take_prefix i command).isInfix)

/-! ## Every simple command -/

/-- **The guard is right** about a simple command exactly when the signs of writing are there
before a memory file that it writes, and not before one that it reads. -/
theorem bashGuard_iff (hscope : scopes client = some scope) (hhome : home ≠ []) (c : SimpleCommand) :
    Guarded scopes client scope home c ↔
      (Writes scope home c → Shown scope home c.line) ∧ (Reads scope home c → ¬Shown scope home c.line) := by
  rw [← targetsMemory_iff hscope hhome, Bool.not_eq_true]
  exact ⟨fun h => ⟨h.writes, h.reads⟩, fun h => ⟨h.1, h.2⟩⟩

/-- A command on a memory file of the test's home. -/
def noteCommand (before : Text) : Text := before ++ underProjects (text "p/memory/n.md")

def echoHi : SimpleCommand := ⟨noteCommand (text "echo hi > "), by decide +kernel, by decide +kernel⟩

theorem bashGuard_echoHi : Guarded claudeScopes (some (text "claude")) claudeScope homeU echoHi := by
  have hshown : Shown claudeScope homeU echoHi.line := by
    have hspelled : Spelled (underProjects []) (text "/memory/") echoHi.line 10 := by constructor <;> decide +kernel
    have hsign : .bare (ch '>') ∈ shellQuotes.coarse.readings .bare (regionBefore (echoHi.line.take 10)) := by
      decide +kernel
    exact ⟨_, by decide +kernel, _, by decide +kernel, 10, hspelled, .inl hsign⟩
  have hredirects : .bare (ch '>') ∈ echoHi.readings := by decide +kernel
  exact (bashGuard_iff rfl (by decide) echoHi).2 ⟨fun _ => hshown, fun hreads => absurd hredirects hreads.2.1⟩

def quotedSeparator : SimpleCommand := ⟨noteCommand (text "echo 'a;b' > "), by decide +kernel, by decide +kernel⟩

def clobbering : SimpleCommand := ⟨noteCommand (text "echo x >| "), by decide +kernel, by decide +kernel⟩

def committee : SimpleCommand := ⟨noteCommand (text "grep committee "), by decide +kernel, by decide +kernel⟩

theorem not_guarded_of_unseen {c : SimpleCommand} (w : Word UInt8) (hword : w ∈ c.words)
    (hmanaged : ManagedFile scope home w.value) (hredirect : .bare (ch '>') ∈ c.readings.take w.start)
    (hpasses : memoryRedirectBashTargetsMemory scopes client (some c.line) (some home) = false) :
    ¬Guarded scopes client scope home c := by
  intro h
  have hseen := h.writes ⟨w, hword, hmanaged, hredirect⟩
  rw [hpasses] at hseen
  cases hseen

theorem not_guarded_of_denied {c : SimpleCommand} (hread : Reads scope home c)
    (hdenied : memoryRedirectBashTargetsMemory scopes client (some c.line) (some home) = true) :
    ¬Guarded scopes client scope home c := by
  intro h
  have hpasses := h.reads hread
  rw [hdenied] at hpasses
  cases hpasses

/-- Two redirections are not seen, and a read is taken for a write. -/
theorem bashGuard_misses :
    ¬Guarded claudeScopes (some (text "claude")) claudeScope homeU quotedSeparator ∧
      ¬Guarded claudeScopes (some (text "claude")) claudeScope homeU clobbering ∧
      ¬Guarded claudeScopes (some (text "claude")) claudeScope homeU committee := by
  have hread : Reads claudeScope homeU committee := by
    refine ⟨⟨⟨15, underProjects (text "p/memory/n.md")⟩, ?_, ?_⟩, ?_, ?_⟩ <;> decide +kernel
  refine ⟨?_, ?_, ?_⟩
  · apply not_guarded_of_unseen ⟨13, underProjects (text "p/memory/n.md")⟩ <;> decide +kernel
  · apply not_guarded_of_unseen ⟨10, underProjects (text "p/memory/n.md")⟩ <;> decide +kernel
  · apply not_guarded_of_denied hread
    decide +kernel

end AimeeMemory.Redirect
