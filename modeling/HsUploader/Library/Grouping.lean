import Mathlib.Data.List.Induction
import HsUploader.Library.Table

/-!
# Collecting items under keys

Items go into a table one after another, each under its key, where it is combined with what stands
there (`collect`).  What stands under a key in the end is made of the items of that key alone, in
their order (`lookup_collect`), so that a statement about a table is one about a filtered list.

## What is here

* `collect` — the fold, for any way to begin an entry and to add an item to it.
* `lookup_collect` — what stands under a key, as the same fold over the key's own items.
* `nodup_collect` and `mem_keys_collect` — the keys of the table are those of the items, each once.
* `foldl_eq_collect` — a loop that does more besides, and treats one of its tables in this way.
-/

set_option autoImplicit false

namespace Grouping

variable {ι κ ν : Type*} [DecidableEq κ] {key : ι → κ} {combine : ι → Option ν → ν}

/-- The table, with the items put into it one after another. -/
def collect (key : ι → κ) (combine : ι → Option ν → ν) (l : List (κ × ν)) (xs : List ι) :
    List (κ × ν) :=
  xs.foldl (fun l x ↦ Table.upsert (key x) (combine x (Table.lookup (key x) l)) l) l

theorem collect_concat (l : List (κ × ν)) (xs : List ι) (x : ι) :
    collect key combine l (xs ++ [x]) =
      Table.upsert (key x) (combine x (Table.lookup (key x) (collect key combine l xs)))
        (collect key combine l xs) := by
  rw [collect, List.foldl_append]
  rfl

/-- An item more that may be left out. -/
theorem collect_filter_concat (p : ι → Bool) (l : List (κ × ν)) (xs : List ι) (x : ι) :
    collect key combine l ((xs ++ [x]).filter p) =
      if p x then
        Table.upsert (key x) (combine x (Table.lookup (key x) (collect key combine l (xs.filter p))))
          (collect key combine l (xs.filter p))
      else collect key combine l (xs.filter p) := by
  rw [List.filter_append, List.filter_singleton]
  cases p x with
  | true => exact collect_concat l _ x
  | false => rw [cond_false, List.append_nil, if_neg Bool.false_ne_true]

/-- A loop that puts some of its items into a table collects those. -/
theorem foldl_eq_collect {γ α : Type*} {step : γ → α → γ} {part : γ → List (κ × ν)}
    {pick : α → Option ι} (h : ∀ g a, part (step g a) = match pick a with
      | some x => Table.upsert (key x) (combine x (Table.lookup (key x) (part g))) (part g)
      | none => part g) (l : List α) (g : γ) :
    part (l.foldl step g) = collect key combine (part g) (l.filterMap pick) := by
  induction l generalizing g with
  | nil => rfl
  | cons a l ih =>
    rw [List.foldl_cons, ih, h, List.filterMap_cons]
    cases pick a with
    | none => rfl
    | some x => rfl

/-- **What stands under a key** is made of the items of that key. -/
theorem lookup_collect (k : κ) (l : List (κ × ν)) (xs : List ι) :
    Table.lookup k (collect key combine l xs) =
      (xs.filter fun x ↦ key x = k).foldl (fun o x ↦ some (combine x o)) (Table.lookup k l) := by
  induction xs using List.reverseRecOn with
  | nil => rfl
  | append_singleton xs x ih =>
    rw [collect_concat, Table.lookup_upsert, List.filter_append, List.foldl_append, ← ih]
    rcases eq_or_ne (key x) k with rfl | hkey
    · simp
    · rw [if_neg hkey.symm, List.filter_cons_of_neg (by simpa using hkey)]
      rfl

theorem nodup_collect {l : List (κ × ν)} (h : (l.map Prod.fst).Nodup) (xs : List ι) :
    ((collect key combine l xs).map Prod.fst).Nodup := by
  induction xs using List.reverseRecOn with
  | nil => exact h
  | append_singleton xs x ih =>
    rw [collect_concat]
    exact Table.nodup_map_fst_upsert ih

/-- The keys are those that stood there and those of the items. -/
theorem mem_keys_collect {k : κ} {l : List (κ × ν)} {xs : List ι} :
    k ∈ (collect key combine l xs).map Prod.fst ↔ k ∈ l.map Prod.fst ∨ ∃ x ∈ xs, key x = k := by
  induction xs using List.reverseRecOn with
  | nil => simp [collect]
  | append_singleton xs x ih =>
    rw [collect_concat, Table.mem_map_fst_upsert, ih]
    simp only [List.mem_append, List.mem_singleton, or_and_right, exists_or, exists_eq_left]
    rw [eq_comm, or_comm, or_assoc]

/-- Where each key stands once, what stands with a key stands under it. -/
theorem lookup_of_mem {l : List (κ × ν)} (h : (l.map Prod.fst).Nodup) {k : κ} {v : ν}
    (hmem : (k, v) ∈ l) : Table.lookup k l = some v := by
  induction l with
  | nil => cases hmem
  | cons p l ih =>
    obtain ⟨k', v'⟩ := p
    rw [List.map_cons, List.nodup_cons] at h
    rw [Table.lookup]
    rcases List.mem_cons.mp hmem with heq | hmem
    · cases heq
      rw [if_pos rfl]
    · have hkey : k ∈ l.map Prod.fst := List.mem_map_of_mem hmem
      rw [if_neg fun hk : k' = k ↦ h.1 (hk ▸ hkey), ih h.2 hmem]

/-- What is combined item by item, where there is an item. -/
theorem foldl_some_cons (x : ι) (xs : List ι) (o : Option ν) :
    (x :: xs).foldl (fun o x ↦ some (combine x o)) o =
      some (xs.foldl (fun v x ↦ combine x (some v)) (combine x o)) := by
  induction xs generalizing x o with
  | nil => rfl
  | cons y xs ih => exact ih y (some (combine x o))

/-- What was collected under a key came of a first item of that key and of those after it. -/
theorem exists_of_mem_collect {xs : List ι} {k : κ} {v : ν}
    (h : (k, v) ∈ collect key combine [] xs) :
    ∃ x rest, xs.filter (fun x ↦ key x = k) = x :: rest ∧
      rest.foldl (fun v x ↦ combine x (some v)) (combine x none) = v := by
  have hnil : (([] : List (κ × ν)).map Prod.fst).Nodup := List.nodup_nil
  have hlookup := lookup_of_mem (nodup_collect hnil xs) h
  rw [lookup_collect] at hlookup
  cases hxs : xs.filter fun x ↦ key x = k with
  | nil =>
    rw [hxs] at hlookup
    cases hlookup
  | cons x rest =>
    rw [hxs, foldl_some_cons] at hlookup
    exact ⟨x, rest, rfl, Option.some.inj hlookup⟩

/-- What is seen of a value that its first item settles is what is seen of that item. -/
theorem map_lookup_collect {σ : Type*} (view : κ → ν → σ) (seen : ι → σ)
    (hfirst : ∀ x, view (key x) (combine x none) = seen x)
    (hlater : ∀ x v, view (key x) (combine x (some v)) = view (key x) v) (k : κ) (xs : List ι) :
    (Table.lookup k (collect key combine [] xs)).map (view k) =
      Table.lookup k (xs.map fun x ↦ (key x, seen x)) := by
  induction xs using List.reverseRecOn with
  | nil => rfl
  | append_singleton xs x ih =>
    rw [collect_concat, Table.lookup_upsert, List.map_append, Table.lookup_append, ← ih,
      List.map_singleton, Table.lookup, Table.lookup_nil]
    rcases eq_or_ne k (key x) with rfl | hkey
    · rw [if_pos rfl, if_pos rfl]
      cases Table.lookup (key x) (collect key combine [] xs) with
      | none => exact congrArg some (hfirst x)
      | some v => exact congrArg some (hlater x v)
    · rw [if_neg hkey, if_neg hkey.symm, Option.or_none]

/-- What is seen of a value that stands with a key is what is seen under the key. -/
theorem exists_mem_iff {σ : Type*} {l : List (κ × ν)} (h : (l.map Prod.fst).Nodup)
    (view : κ → ν → σ) (k : κ) (s : σ) :
    (∃ v, (k, v) ∈ l ∧ view k v = s) ↔ (Table.lookup k l).map (view k) = some s := by
  rw [Option.map_eq_some_iff]
  refine exists_congr fun v ↦ and_congr_left fun _ ↦ ?_
  exact ⟨lookup_of_mem h, Table.mem_of_lookup⟩

end Grouping
