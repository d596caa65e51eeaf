import AimeeMemory.Core.Json
import AimeeMemory.Recall.EmbedMemo
import Mathlib.Logic.Function.Basic

/-!
# Embedding in batches

`memory_embed_texts` of `memory_core_helpers_b.c`: all texts are posted in one request, and the
vectors of the reply are copied into the caller's buffer, each number as soon as it is read.

## What is proved

* `copyRows_ok`, `copyRows_entry`: the copy succeeds for a reply of numbers of full width, and leaves its vectors
  in the buffer.
* **`embedTexts_clean_iff`**: a batch that fails leaves the buffer as it was exactly when, of the rows of its reply,
  all are right or already the first cannot be begun.
* **`secondRow_fails`**: a reply whose second row is wrong leaves its first row behind.

## Honest scope

The request, the answer to it and the parser of the answer are the fields of `EmbedHttp`. Allocations do not fail, and
the breaker is not told of a batch.
-/

namespace AimeeMemory.Recall

open AimeeMemory.Core

/-- A float, by its bits. -/
abbrev Float32Bits := UInt32

/-- The embedder as a batch sees it. -/
structure EmbedHttp where
  /-- `memory_embed_http_post_status`: the body of the answer to a list of texts, where there is one. -/
  post : Text → Text → List Text → Option Text
  /-- `cJSON_Parse`. -/
  parse : Text → Option Json
  /-- The float of a number. -/
  toFloat : ℚ → Float32Bits

/-- The caller's buffer. -/
abbrev Buffer := ℕ → Float32Bits

/-- `memory_embed_input_type_name`. -/
def embedInputTypeName : EmbedInputType → Text
  | .query => text "query"
  | .document => text "document"

/-- The numbers of a row are written from an index on, as far as there are numbers. -/
def copyRow (toFloat : ℚ → Float32Bits) : ℕ → List Json → Buffer → Buffer × Bool
  | _, [], out => (out, true)
  | k, .num x :: els, out => copyRow toFloat (k + 1) els (Function.update out k (toFloat x))
  | _, _ :: _, out => (out, false)

/-- The rows are written from row `row` on, as far as they are arrays of full width. -/
def copyRows (toFloat : ℚ → Float32Bits) (dim : ℕ) : ℕ → List Json → Buffer → Buffer × Bool
  | _, [], out => (out, true)
  | row, .arr els :: rows, out =>
    if els.length ≠ dim then (out, false)
    else
      let copied := copyRow toFloat (row * dim) els out
      if copied.2 then copyRows toFloat dim (row + 1) rows copied.1 else copied
  | _, _ :: _, out => (out, false)

variable (e : EmbedHttp)

/-- The reply to a batch, where one is sent and answered by as many items as there are texts. -/
def batchReply (texts : List (Option Text)) (command : Option Text) (inputType : EmbedInputType) (dim : ℤ) : Option (List Json) :=
  match command with
  | none => none
  | some command =>
    if texts = [] ∨ dim ≤ 0 ∨ command = [] ∨ command = text "builtin" ∨ !embedCommandIsHttp command then none
    else if texts.any fun t => t.getD [] = [] then none
    else
      let path := text "/embed_batch?input_type=" ++ embedInputTypeName inputType
      match (e.post command path (texts.map (·.getD []))).bind e.parse with
      | some (.arr rows) => if rows.length = texts.length then some rows else none
      | _ => none

/-- `memory_embed_texts`: the number of the texts embedded, or 0, and the buffer. -/
def memoryEmbedTexts (texts : List (Option Text)) (command : Option Text) (inputType : EmbedInputType) (out : Buffer) (dim : ℤ) :
    ℕ × Buffer :=
  match batchReply e texts command inputType dim with
  | none => (0, out)
  | some rows =>
    let copied := copyRows e.toFloat dim.toNat 0 rows out
    if copied.2 then (texts.length, copied.1) else (0, copied.1)

/-! ### The copy -/

/-- A row of the reply is a vector of full width. -/
def IsVector (dim : ℕ) (v : List ℚ) (row : Json) : Prop := row = .arr (v.map .num) ∧ v.length = dim

/-- A row of which a number is written. -/
def Begins (dim : ℕ) (row : Json) : Prop := ∃ x els, row = .arr (.num x :: els) ∧ els.length + 1 = dim

/-- The vector at a place of the buffer. -/
def entry (out : Buffer) (dim i : ℕ) : List Float32Bits := (List.range dim).map fun k => out (i * dim + k)

variable {toFloat : ℚ → Float32Bits} {dim : ℕ}

theorem copyRow_below (els : List Json) (out : Buffer) {k i : ℕ} (hi : i < k) : (copyRow toFloat k els out).1 i = out i := by
  induction els generalizing k out with
  | nil => rfl
  | cons el els ih =>
    cases el with
    | num x =>
      rw [copyRow, ih _ (by omega), Function.update_of_ne (by omega)]
    | _ => rfl

/-- The numbers of a vector are written one after the other. -/
theorem copyRow_vector (v : List ℚ) (out : Buffer) (k : ℕ) :
    (copyRow toFloat k (v.map .num) out).2 = true ∧
      ∀ j (hj : j < v.length), (copyRow toFloat k (v.map .num) out).1 (k + j) = toFloat v[j] := by
  induction v generalizing k out with
  | nil => exact ⟨rfl, nofun⟩
  | cons x v ih =>
    obtain ⟨hok, hrest⟩ := ih (Function.update out k (toFloat x)) (k + 1)
    refine ⟨hok, fun j hj => ?_⟩
    cases j with
    | zero =>
      simp only [Nat.add_zero, List.map_cons, copyRow]
      rw [copyRow_below _ _ (Nat.lt_add_one k), Function.update_self]
      rfl
    | succ j =>
      have hat := hrest j (Nat.lt_of_succ_lt_succ hj)
      rw [Nat.add_assoc, Nat.add_comm 1] at hat
      exact hat

theorem exists_vector_of_copyRow (els : List Json) (out : Buffer) (k : ℕ) (h : (copyRow toFloat k els out).2 = true) :
    ∃ v : List ℚ, els = v.map .num := by
  induction els generalizing k out with
  | nil => exact ⟨[], rfl⟩
  | cons el els ih =>
    cases el with
    | num x =>
      obtain ⟨v, rfl⟩ := ih _ _ h
      exact ⟨x :: v, rfl⟩
    | _ => cases h

theorem copyRows_below (rows : List Json) (out : Buffer) {row i : ℕ} (hi : i < row * dim) :
    (copyRows toFloat dim row rows out).1 i = out i := by
  induction rows generalizing row out with
  | nil => rfl
  | cons item rows ih =>
    cases item with
    | arr els =>
      rw [copyRows]
      split
      · rfl
      · simp only
        split
        · rw [ih _ (by rw [Nat.succ_mul]; omega), copyRow_below _ _ hi]
        · exact copyRow_below _ _ hi
    | _ => rfl

/-- The copy succeeds exactly for vectors of full width. -/
theorem copyRows_ok (rows : List Json) (out : Buffer) (row : ℕ) :
    (copyRows toFloat dim row rows out).2 = true ↔ ∀ item ∈ rows, ∃ v, IsVector dim v item := by
  induction rows generalizing row out with
  | nil => exact iff_of_true rfl nofun
  | cons item rows ih =>
    rw [List.forall_mem_cons]
    cases item with
    | arr els =>
      rw [copyRows]
      by_cases hwidth : els.length = dim
      · rw [if_neg (not_not.2 hwidth)]
        cases hok : (copyRow toFloat (row * dim) els out).2 with
        | true =>
          obtain ⟨v, rfl⟩ := exists_vector_of_copyRow _ _ _ hok
          simp only [hok, if_true]
          rw [ih]
          refine (and_iff_right ⟨v, rfl, ?_⟩).symm
          rw [← hwidth, List.length_map]
        | false =>
          simp only [hok, Bool.false_eq_true, if_false, false_iff]
          rintro ⟨⟨v, hv, -⟩, -⟩
          obtain rfl := Json.arr.inj hv
          rw [(copyRow_vector v out _).1] at hok
          cases hok
      · rw [if_pos hwidth]
        refine iff_of_false Bool.false_ne_true ?_
        rintro ⟨⟨v, hv, hlength⟩, -⟩
        obtain rfl := Json.arr.inj hv
        rw [List.length_map] at hwidth
        exact hwidth hlength
    | _ =>
      refine iff_of_false Bool.false_ne_true ?_
      rintro ⟨⟨v, hv, -⟩, -⟩
      cases hv

/-- What is copied is there at the end. -/
theorem copyRows_entry (rows : List Json) (out : Buffer) (row : ℕ) (h : ∀ item ∈ rows, ∃ v, IsVector dim v item) :
    ∀ i (hi : i < rows.length), ∃ v, IsVector dim v rows[i] ∧
      entry (copyRows toFloat dim row rows out).1 dim (row + i) = v.map toFloat := by
  induction rows generalizing row out with
  | nil => exact nofun
  | cons item rows ih =>
    obtain ⟨⟨v, rfl, hwidth⟩, hrest⟩ := List.forall_mem_cons.1 h
    have hcopy : copyRows toFloat dim row (.arr (v.map .num) :: rows) out =
        copyRows toFloat dim (row + 1) rows (copyRow toFloat (row * dim) (v.map .num) out).1 := by
      rw [copyRows, if_neg (by simp [hwidth])]
      simp only [(copyRow_vector v out (row * dim)).1, if_true]
    intro i hi
    cases i with
    | zero =>
      refine ⟨v, ⟨rfl, hwidth⟩, ?_⟩
      refine List.ext_getElem (by simp [entry, hwidth]) fun k hk hk' => ?_
      have hlt : k < dim := by simpa [entry] using hk
      simp only [entry, List.getElem_map, List.getElem_range, Nat.add_zero, hcopy]
      rw [copyRows_below _ _ (by rw [Nat.succ_mul]; omega)]
      exact (copyRow_vector v out (row * dim)).2 k (hwidth ▸ hlt)
    | succ i =>
      rw [hcopy, show row + (i + 1) = row + 1 + i by omega]
      exact ih _ (row + 1) hrest i (Nat.lt_of_succ_lt_succ hi)

/-- Nothing is written where the first row cannot be begun. -/
theorem copyRows_unbegun {rows : List Json} (hfirst : ∀ item ∈ rows.head?, ¬ Begins dim item) (hdim : 0 < dim) (out : Buffer) :
    (copyRows toFloat dim 0 rows out).1 = out := by
  cases rows with
  | nil => rfl
  | cons item rows =>
    have hunbegun := hfirst item rfl
    cases item with
    | arr els =>
      rw [copyRows]
      split
      · rfl
      · rename_i hwidth
        have hlength : els.length = dim := not_not.1 hwidth
        cases els with
        | nil => exact absurd hlength (by simp; omega)
        | cons el els =>
          cases el with
          | num x => exact absurd ⟨x, els, rfl, hlength⟩ hunbegun
          | _ => rfl
    | _ => rfl

/-- Where it can, its first number is written. -/
theorem copyRows_begun {rows : List Json} {item : Json} (hitem : item ∈ rows.head?) (hbegins : Begins dim item) :
    ∃ x, ∀ out, (copyRows toFloat dim 0 rows out).1 0 = toFloat x := by
  obtain ⟨x, els, rfl, hwidth⟩ := hbegins
  obtain ⟨rows, rfl⟩ := List.head?_eq_some_iff.1 hitem
  refine ⟨x, fun out => ?_⟩
  have hfirst : (copyRow toFloat 0 (.num x :: els) out).1 0 = toFloat x := by
    rw [copyRow, copyRow_below _ _ (Nat.lt_add_one 0), Function.update_self]
  rw [copyRows, if_neg (by simp [hwidth]), Nat.zero_mul]
  simp only
  split
  · rw [copyRows_below _ _ (by omega), hfirst]
  · exact hfirst

/-! ### A batch -/

/-- A batch that fails leaves the buffer as it was, and one that succeeds has put the vector of each text in the place of
the text. -/
def EmbedsCleanly (texts : List (Option Text)) (command : Option Text) (inputType : EmbedInputType) (dim : ℤ) : Prop :=
  ∀ out, let result := memoryEmbedTexts e texts command inputType out dim
    (result.1 = 0 → result.2 = out) ∧
    (result.1 ≠ 0 → ∃ rows, batchReply e texts command inputType dim = some rows ∧
      ∀ i < texts.length, ∃ v row, rows[i]? = some row ∧ IsVector dim.toNat v row ∧
        entry result.2 dim.toNat i = v.map e.toFloat)

/-- The rows of the reply are all right, or already the first cannot be begun. -/
def FaultFirst (texts : List (Option Text)) (command : Option Text) (inputType : EmbedInputType) (dim : ℤ) : Prop :=
  ∀ rows, batchReply e texts command inputType dim = some rows →
    (∀ item ∈ rows, ∃ v, IsVector dim.toNat v item) ∨ ∀ item ∈ rows.head?, ¬ Begins dim.toNat item

variable {e} {texts : List (Option Text)} {command : Option Text} {inputType : EmbedInputType} {dim : ℤ}

theorem batchReply_eq_some {rows : List Json} (h : batchReply e texts command inputType dim = some rows) :
    rows.length = texts.length ∧ texts ≠ [] ∧ 0 < dim := by
  unfold batchReply at h
  split at h
  · cases h
  · split_ifs at h with hchecks
    push Not at hchecks
    simp only at h
    split at h
    · split_ifs at h with hlength
      cases h
      exact ⟨hlength, hchecks.1, hchecks.2.1⟩
    · cases h

/-- **Batches fail cleanly** exactly if no row of the reply is wrong behind a number that is right. -/
theorem embedTexts_clean_iff (e : EmbedHttp) (texts : List (Option Text)) (command : Option Text) (inputType : EmbedInputType)
    (dim : ℤ) : EmbedsCleanly e texts command inputType dim ↔ FaultFirst e texts command inputType dim := by
  constructor
  · intro hclean rows hreply
    by_contra hfault
    push Not at hfault
    obtain ⟨⟨item, hitem, hwrong⟩, first, hfirst, hbegins⟩ := hfault
    obtain ⟨x, hx⟩ : ∃ x, ∀ out, (copyRows e.toFloat dim.toNat 0 rows out).1 0 = e.toFloat x := copyRows_begun hfirst hbegins
    -- a buffer whose first number is another one
    let out : Buffer := fun _ => e.toFloat x + 1
    have hfails : (copyRows e.toFloat dim.toNat 0 rows out).2 = false := by
      refine Bool.eq_false_iff.2 fun hok => ?_
      obtain ⟨v, hv⟩ := (copyRows_ok rows out 0).1 hok item hitem
      exact hwrong v hv
    have hresult : memoryEmbedTexts e texts command inputType out dim = (0, (copyRows e.toFloat dim.toNat 0 rows out).1) := by
      rw [memoryEmbedTexts, hreply]
      simp only [hfails, Bool.false_eq_true, if_false]
    have huntouched := (hclean out).1
    rw [hresult] at huntouched
    have hzero : (copyRows e.toFloat dim.toNat 0 rows out).1 0 = out 0 := congrFun (huntouched rfl) 0
    rw [hx] at hzero
    exact absurd hzero (by simp [out])
  · intro hfault out
    cases hreply : batchReply e texts command inputType dim with
    | none => simp [memoryEmbedTexts, hreply]
    | some rows =>
      obtain ⟨hlength, hne, hdim⟩ := batchReply_eq_some hreply
      simp only [memoryEmbedTexts, hreply]
      cases hok : (copyRows e.toFloat dim.toNat 0 rows out).2 with
      | true =>
        have hright := (copyRows_ok rows out 0).1 hok
        refine ⟨fun hzero => absurd (List.eq_nil_of_length_eq_zero hzero) hne, fun _ => ⟨rows, rfl, fun i hi => ?_⟩⟩
        obtain ⟨v, hv, hentry⟩ := copyRows_entry rows out 0 hright i (hlength ▸ hi)
        rw [Nat.zero_add] at hentry
        exact ⟨v, _, List.getElem?_eq_getElem _, hv, hentry⟩
      | false =>
        refine ⟨fun _ => ?_, fun h => absurd rfl h⟩
        rcases hfault rows hreply with hright | hfirst
        · rw [(copyRows_ok rows out 0).2 hright] at hok
          cases hok
        · exact copyRows_unbegun hfirst (by omega) out

/-! ### A reply whose second row is wrong -/

/-- An embedder that answers every batch with these rows. -/
def replying (rows : List Json) : EmbedHttp where
  post _ _ _ := some (text "reply")
  parse _ := some (.arr rows)
  toFloat x := if x = 0 then 0 else 1

/-- The first row stays behind. -/
theorem secondRow_fails :
    (memoryEmbedTexts (replying [.arr [.num 1], .other]) [some (text "a"), some (text "b")] (some (text "http://e")) .document
      (fun _ => 0) 1).1 = 0 ∧
    ¬ EmbedsCleanly (replying [.arr [.num 1], .other]) [some (text "a"), some (text "b")] (some (text "http://e")) .document 1 := by
  have hfails : (memoryEmbedTexts (replying [.arr [.num 1], .other]) [some (text "a"), some (text "b")] (some (text "http://e"))
      .document (fun _ => 0) 1).1 = 0 := by decide +kernel
  refine ⟨hfails, fun hclean => ?_⟩
  have huntouched := congrFun ((hclean fun _ => 0).1 hfails) 0
  exact absurd huntouched (by decide +kernel)

end AimeeMemory.Recall
