import Mathlib.Data.List.Perm.Subperm

/-!
# Drawing from a pool by label

A pool is a list of objects, several of which may carry one label.  `take` draws the first object
with a given label, `takeAll` one object for each label of a list.  Which of two objects with one
label is drawn depends on the order of the pool, but not whether the draw succeeds, and not what
is left once every object of some kind has been drawn (`takeAll_filter_perm`).

## What is here

* `take` and `takeAll` — one draw, and one after the other; they end with the first that fails.
* `exists_take` and `takeAll_eq_some` — a label some object carries can be drawn; and what was drawn
  has the labels asked for, in their order.
* `takeAll_filter_perm` — a draw of all the labels of a kind draws the objects of that kind, and
  leaves none of them.
-/

set_option autoImplicit false

namespace Pool

variable {α κ : Type*} [DecidableEq κ] {label : α → κ}

/-- Draw the first object with the label. -/
def take (label : α → κ) (k : κ) : List α → Option (α × List α)
  | [] => none
  | a :: pool => if label a = k then some (a, pool) else (take label k pool).map fun r ↦ (r.1, a :: r.2)

/-- Draw one object for each label, in order. -/
def takeAll (label : α → κ) : List κ → List α → Option (List α × List α)
  | [], pool => some ([], pool)
  | k :: ks, pool =>
    match take label k pool with
    | none => none
    | some (a, pool) => (takeAll label ks pool).map fun r ↦ (a :: r.1, r.2)

variable {k : κ} {ks : List κ} {pool rest as : List α} {a : α}

theorem take_eq_some (h : take label k pool = some (a, rest)) :
    label a = k ∧ pool.Perm (a :: rest) := by
  induction pool generalizing rest with
  | nil => cases h
  | cons b pool ih =>
    rw [take] at h
    split at h
    · rename_i hb
      cases h
      exact ⟨hb, .refl _⟩
    · obtain ⟨⟨c, rest'⟩, hc, hr⟩ := Option.map_eq_some_iff.mp h
      cases hr
      obtain ⟨hk, hp⟩ := ih hc
      exact ⟨hk, (hp.cons b).trans (.swap c b rest')⟩

theorem take_eq_none : take label k pool = none ↔ ∀ a ∈ pool, label a ≠ k := by
  induction pool with
  | nil => simp [take]
  | cons b pool ih =>
    rw [take]
    split
    · rename_i hb
      simp [hb]
    · rename_i hb
      rw [Option.map_eq_none_iff, ih, List.forall_mem_cons]
      exact ⟨fun h ↦ ⟨hb, h⟩, fun h ↦ h.2⟩

/-- A label some object of the pool carries can be drawn. -/
theorem exists_take (h : k ∈ pool.map label) : ∃ a rest, take label k pool = some (a, rest) := by
  cases ht : take label k pool with
  | some r => exact ⟨r.1, r.2, rfl⟩
  | none =>
    obtain ⟨a, ha, rfl⟩ := List.mem_map.mp h
    exact absurd rfl (take_eq_none.mp ht a ha)

theorem takeAll_eq_some (h : takeAll label ks pool = some (as, rest)) :
    as.map label = ks ∧ pool.Perm (as ++ rest) := by
  induction ks generalizing pool as rest with
  | nil =>
    cases h
    exact ⟨rfl, .refl _⟩
  | cons k ks ih =>
    rw [takeAll] at h
    split at h
    · cases h
    · rename_i a pool' ht
      obtain ⟨⟨as', rest'⟩, ha, hr⟩ := Option.map_eq_some_iff.mp h
      cases hr
      obtain ⟨hk, hp⟩ := take_eq_some ht
      obtain ⟨hks, hp'⟩ := ih ha
      exact ⟨by rw [List.map_cons, hk, hks], hp.trans (hp'.cons a)⟩

/-- **A draw of every object of a kind draws exactly these**: when the labels asked for are those of
the pool's objects of the kind, the objects drawn are these objects, in some order. -/
theorem takeAll_filter_perm {q : κ → Bool}
    (h : takeAll label ks pool = some (as, rest))
    (hks : ks.Perm ((pool.filter fun a ↦ q (label a)).map label)) :
    as.Perm (pool.filter fun a ↦ q (label a)) ∧ ∀ a ∈ rest, q (label a) = false := by
  obtain ⟨hlabel, hp⟩ := takeAll_eq_some h
  have hkind : ∀ a ∈ as, q (label a) = true := fun a ha ↦ by
    have hmem : label a ∈ ks := by
      rw [← hlabel]
      exact List.mem_map_of_mem ha
    obtain ⟨b, hb, hab⟩ := List.mem_map.mp (hks.subset hmem)
    rw [← hab]
    exact (List.mem_filter.mp hb).2
  have hall : as.filter (fun a ↦ q (label a)) = as := List.filter_eq_self.mpr hkind
  have hsplit := hp.filter fun a ↦ q (label a)
  rw [List.filter_append, hall] at hsplit
  have hlen : (rest.filter fun a ↦ q (label a)).length = 0 := by
    have h₁ := hsplit.length_eq
    have h₂ := hks.length_eq
    rw [List.length_append] at h₁
    rw [← hlabel, List.length_map, List.length_map] at h₂
    omega
  have hnil := List.length_eq_zero_iff.mp hlen
  rw [hnil, List.append_nil] at hsplit
  exact ⟨hsplit.symm, fun a ha ↦ by simpa using List.filter_eq_nil_iff.mp hnil a ha⟩

end Pool
