import Mathlib.Data.List.Nodup

/-!
# A table of answers

A function is asked for many keys, and a table keeps what it has answered, each under the key as it is stored, which
may be a cut of the key. A table is right as long as no key is stored as another one that has another answer; then a
loop that asks the table computes what a loop over the answers computes.
-/

namespace AimeeMemory.Lib

universe u v w

variable {K : Type u} {V : Type v} {T A : Type w}

/-! ## Threading a table through a loop -/

/-- A loop that asks for every key of a list, with the table that the asking changes. -/
def foldAsking (ask : T → K → V × T) (g : A → V → A) (a : A) (t : T) (ks : List K) : A × T :=
  ks.foldl (fun s k => (g s.1 (ask s.2 k).1, (ask s.2 k).2)) (a, t)

variable {ask : T → K → V × T} {I : T → Prop} {ks : List K} {t : T}

theorem foldAsking_keeps (g : A → V → A) (h : ∀ t, I t → ∀ k ∈ ks, I (ask t k).2) (ht : I t) (a : A) :
    I (foldAsking ask g a t ks).2 := by
  induction ks generalizing a t with
  | nil => exact ht
  | cons k ks ih =>
    rw [foldAsking, List.foldl_cons]
    exact ih (fun t ht k hk => h t ht k (List.mem_cons_of_mem _ hk)) (h t ht k List.mem_cons_self) _

/-- Where asking gives the answers of a function, as long as the table stays good, the loop is one over the answers. -/
theorem foldAsking_fst {f : K → V} (g : A → V → A) (h : ∀ t, I t → ∀ k ∈ ks, (ask t k).1 = f k ∧ I (ask t k).2) (ht : I t)
    (a : A) : (foldAsking ask g a t ks).1 = (ks.map f).foldl g a := by
  induction ks generalizing a t with
  | nil => rfl
  | cons k ks ih =>
    obtain ⟨hanswer, hkept⟩ := h t ht k List.mem_cons_self
    rw [foldAsking, List.foldl_cons, List.map_cons, List.foldl_cons, ← hanswer]
    exact ih (fun t ht k hk => h t ht k (List.mem_cons_of_mem _ hk)) hkept _

/-! ## The table -/

variable (stored : K → K) (f : K → V)

/-- The answer for a key, out of the table or of the function. -/
def askMemo [DecidableEq K] (table : List (K × V)) (k : K) : V × List (K × V) :=
  match table.find? fun e => e.1 = k with
  | some e => (e.2, table)
  | none => (f k, table ++ [(stored k, f k)])

/-- A table of answers for keys of a set. -/
def MemoTable (D : K → Prop) (table : List (K × V)) : Prop := ∀ e ∈ table, ∃ k, D k ∧ e = (stored k, f k)

/-- A key that the table has under another name has the same answer. -/
def Distinguishes (D : K → Prop) : Prop := ∀ k l, D k → D l → stored k = l → f k = f l

variable [DecidableEq K] {stored f} {D : K → Prop} {table : List (K × V)} {k : K}

theorem MemoTable.ask_fst (h : MemoTable stored f D table) (hD : Distinguishes stored f D) (hk : D k) :
    (askMemo stored f table k).1 = f k := by
  rw [askMemo]
  split
  · next e hfind =>
    have hkey : e.1 = k := by simpa using List.find?_some hfind
    obtain ⟨l, hl, rfl⟩ := h e (List.mem_of_find?_eq_some hfind)
    exact hD l k hl hk hkey
  · rfl

theorem MemoTable.ask_snd (h : MemoTable stored f D table) (hk : D k) : MemoTable stored f D (askMemo stored f table k).2 := by
  rw [askMemo]
  split
  · exact h
  · intro e he
    rcases List.mem_append.1 he with he | he
    · exact h e he
    · exact ⟨k, hk, List.mem_singleton.1 he⟩

/-- A key that is stored whole is not stored twice. -/
theorem nodup_askMemo (h : (table.map Prod.fst).Nodup) (hkept : stored k = k) :
    ((askMemo stored f table k).2.map Prod.fst).Nodup := by
  rw [askMemo]
  split
  · exact h
  · next hfind =>
    rw [List.map_append, List.map_singleton, hkept]
    refine List.Nodup.append h (List.nodup_singleton k) (List.disjoint_singleton.2 ?_)
    intro hmem
    obtain ⟨e, he, hek⟩ := List.mem_map.1 hmem
    exact List.find?_eq_none.1 hfind e he (decide_eq_true hek)

end AimeeMemory.Lib
