import Mathlib.Data.List.Basic

/-!
# Quoting in commands

A command is read byte by byte: quotes of two kinds and an escape take from a byte what it
would mean to the shell. `Quotes.readings` says of each byte whether it is bare, and what it
stands for; `words` puts what the bytes stand for together between the bare bytes that end a
word. A scanner that lets the escape act where it does not (`Quotes.coarse`) finds the same
bare bytes as long as no escape stands in single quotes (`bare_mem_coarse_iff`).
-/

namespace AimeeMemory.Lib

variable {β : Type*}

/-- The bytes that quote, and what the escape does between quotes. -/
structure Quotes (β : Type*) where
  escape : β
  single : β
  double : β
  /-- Whether the escape acts in single quotes. -/
  inSingle : Bool
  /-- The bytes that the escape quotes in double quotes. -/
  inDouble : β → Bool
  /-- The bytes that nothing is left of behind the escape. -/
  joins : β → Bool

/-- Where in quotes a byte stands. -/
inductive Quoting where
  | bare
  | escaped
  | single
  | singleEscaped
  | double
  | doubleEscaped
  deriving DecidableEq, Repr

/-- How a byte is read: as it is, in double quotes, where expansions still act, or as the
bytes that it stands for. -/
inductive Reading (β : Type*) where
  | bare (c : β)
  | soft (c : β)
  | quoted (value : List β)
  deriving DecidableEq, Repr

def Reading.value : Reading β → List β
  | .bare c => [c]
  | .soft c => [c]
  | .quoted value => value

/-- A word: where it starts, and what it stands for. -/
structure Word (β : Type*) where
  start : ℕ
  value : List β
  deriving DecidableEq, Repr

/-- The words of what is read, from a place on, where one may have begun. -/
def words (ends : β → Bool) : ℕ → Option (Word β) → List (Reading β) → List (Word β)
  | _, word, [] => word.toList
  | i, word, r :: rs =>
    let longer : Word β :=
      match word with
      | some word => { word with value := word.value ++ r.value }
      | none => ⟨i, r.value⟩
    match r with
    | .bare c => if ends c then word.toList ++ words ends (i + 1) none rs else words ends (i + 1) (some longer) rs
    | .soft _ | .quoted _ => words ends (i + 1) (some longer) rs

namespace Quotes

variable [DecidableEq β]

/-- Where the byte stands that follows. -/
def next (m : Quotes β) : Quoting → β → Quoting
  | .bare, c =>
    if c = m.escape then .escaped else if c = m.single then .single else if c = m.double then .double else .bare
  | .escaped, _ => .bare
  | .single, c => if c = m.single then .bare else if m.inSingle ∧ c = m.escape then .singleEscaped else .single
  | .singleEscaped, _ => .single
  | .double, c => if c = m.double then .bare else if c = m.escape then .doubleEscaped else .double
  | .doubleEscaped, _ => .double

def reading (m : Quotes β) : Quoting → β → Reading β
  | .bare, c => if c = m.escape ∨ c = m.single ∨ c = m.double then .quoted [] else .bare c
  | .escaped, c => .quoted (if m.joins c then [] else [c])
  | .single, c => .quoted (if c = m.single ∨ (m.inSingle ∧ c = m.escape) then [] else [c])
  | .singleEscaped, c => .quoted [c]
  | .double, c => if c = m.double ∨ c = m.escape then .quoted [] else .soft c
  | .doubleEscaped, c => .quoted (if m.joins c then [] else if m.inDouble c then [c] else [m.escape, c])

def readings (m : Quotes β) : Quoting → List β → List (Reading β)
  | _, [] => []
  | q, c :: cs => m.reading q c :: m.readings (m.next q c) cs

/-- Where the end of a text stands. -/
def quoting (m : Quotes β) (q : Quoting) (t : List β) : Quoting := t.foldl m.next q

/-- The scanner for which the escape quotes whatever follows it, wherever it stands itself. -/
def coarse (m : Quotes β) : Quotes β := { m with inSingle := true, inDouble := fun _ => true }

/-- No escape stands in single quotes. -/
def EscapesOutside (m : Quotes β) : Quoting → List β → Prop
  | _, [] => True
  | q, c :: cs => (q = .single → c ≠ m.escape) ∧ m.EscapesOutside (m.next q c) cs

variable {m : Quotes β} {q : Quoting} {t : List β} {x : β}

theorem take_readings (m : Quotes β) (q : Quoting) (t : List β) (n : ℕ) :
    (m.readings q t).take n = m.readings q (t.take n) := by
  induction t generalizing q n with
  | nil => rw [List.take_nil, readings, List.take_nil]
  | cons c t ih =>
    cases n with
    | zero => rfl
    | succ n => exact congrArg (m.reading q c :: ·) (ih (m.next q c) n)

theorem EscapesOutside.take (h : m.EscapesOutside q t) (n : ℕ) : m.EscapesOutside q (t.take n) := by
  induction t generalizing q n with
  | nil =>
    rw [List.take_nil]
    trivial
  | cons c t ih =>
    cases n with
    | zero => trivial
    | succ n => exact ⟨h.1, ih h.2 n⟩

/-- Only a byte outside of quotes is read as bare. -/
theorem reading_eq_bare_iff {c : β} :
    m.reading q c = .bare x ↔ q = .bare ∧ ¬(c = m.escape ∨ c = m.single ∨ c = m.double) ∧ c = x := by
  cases q <;> simp only [reading, reduceCtorEq, false_and, true_and, iff_false]
  case bare =>
    split_ifs with h
    · simp [h]
    · simp [h]
  case double => split_ifs <;> simp

theorem next_coarse {c : β} (hm : m.inSingle = false) (hq : q ≠ .singleEscaped) (hc : q = .single → c ≠ m.escape) :
    m.coarse.next q c = m.next q c ∧ m.next q c ≠ .singleEscaped := by
  cases q with
  | bare => exact ⟨rfl, by rw [next]; split_ifs <;> simp⟩
  | escaped => exact ⟨rfl, by simp [next]⟩
  | single =>
    have hc := hc rfl
    simp only [next, coarse, hm, hc, and_false, if_false, true_and]
    split_ifs <;> simp
  | singleEscaped => exact absurd rfl hq
  | double => exact ⟨rfl, by rw [next]; split_ifs <;> simp⟩
  | doubleEscaped => exact ⟨rfl, by simp [next]⟩

/-- **The bare bytes** of the coarse scanner are those of the shell, where no escape stands in
single quotes. -/
theorem bare_mem_coarse_iff (hm : m.inSingle = false) (hq : q ≠ .singleEscaped) (h : m.EscapesOutside q t) :
    .bare x ∈ m.coarse.readings q t ↔ .bare x ∈ m.readings q t := by
  induction t generalizing q with
  | nil => rfl
  | cons c t ih =>
    obtain ⟨hnext, hne⟩ := next_coarse hm hq h.1
    have hread : m.coarse.reading q c = .bare x ↔ m.reading q c = .bare x := by
      rw [reading_eq_bare_iff, reading_eq_bare_iff]
      rfl
    rw [readings, readings, List.mem_cons, List.mem_cons, hnext, ih hne h.2]
    exact or_congr_left (eq_comm.trans (hread.trans eq_comm))

end Quotes

end AimeeMemory.Lib
