import Mathlib.Data.List.Sort
import Mathlib.Order.Basic

/-!
# Tables as lists

Two things one does with a table of rows: keep one row for each key (`upsert`, `lookup`), and read
the rows in the order of a key, some at a time, remembering how far one got.

The second is the interesting one.  The rows are a list whose keys strictly increase.  A reader
takes a prefix of the rows that pass its filter and remembers the key of the last row it took; the
next read starts past that key.  `prefix_eq_filter_le` says what such a prefix is without speaking
of prefixes: all rows up to the remembered key.  That is the form in which it survives the table
growing at its end and being thinned out in between.

## What is here

* `lookup` and `upsert` — one row for each key; an update keeps the row's place.
* `Increasing` — along a list, for any key.
* `prefix_eq_filter_le` — the prefix that was read, by the key that is remembered.
* `window` — the rows between two keys, and how windows put together are one window.
* A walk up to the first item that fails, which the gated listing of cycles is.
-/

set_option autoImplicit false

namespace Table

variable {κ ν α β : Type*}

/-! ## One row for each key -/

section upsert

variable [DecidableEq κ]

/-- Replace the value stored under `k`, or append it. -/
def upsert (k : κ) (v : ν) : List (κ × ν) → List (κ × ν)
  | [] => [(k, v)]
  | (k', v') :: l => if k' = k then (k, v) :: l else (k', v') :: upsert k v l

/-- The value stored under `k`. -/
def lookup (k : κ) : List (κ × ν) → Option ν
  | [] => none
  | (k', v') :: l => if k' = k then some v' else lookup k l

@[simp] theorem lookup_nil (k : κ) : lookup k ([] : List (κ × ν)) = none := rfl

/-- What is found in two tables is found in the first, or else in the second. -/
theorem lookup_append (k : κ) (l l' : List (κ × ν)) :
    lookup k (l ++ l') = (lookup k l).or (lookup k l') := by
  induction l with
  | nil => rfl
  | cons p l ih =>
    obtain ⟨k', v⟩ := p
    rw [List.cons_append, lookup, lookup, ih]
    split_ifs
    · rfl
    · rfl

/-- What is found among the pairs of one kind is found under the keys of that kind. -/
theorem lookup_filterMap {κ' ι : Type*} [DecidableEq κ'] {c : κ → κ'}
    (hc : Function.Injective c) {pick : ι → Option (κ × ν)} {all : ι → Option (κ' × ν)}
    (h : ∀ x k v, all x = some (c k, v) ↔ pick x = some (k, v)) (k : κ) (xs : List ι) :
    lookup (c k) (xs.filterMap all) = lookup k (xs.filterMap pick) := by
  induction xs with
  | nil => rfl
  | cons x xs ih =>
    rw [List.filterMap_cons, List.filterMap_cons]
    cases hpick : pick x with
    | some p =>
      obtain ⟨k', v⟩ := p
      rw [(h x k' v).mpr hpick]
      simp only [lookup, ih, hc.eq_iff]
    | none =>
      cases hall : all x with
      | none => exact ih
      | some p =>
        obtain ⟨k', v⟩ := p
        have hne : k' ≠ c k := by
          rintro rfl
          rw [(h x k v).mp hall] at hpick
          cases hpick
        dsimp only
        rw [lookup, if_neg hne, ih]

/-- A pair at the end is found when its key is new. -/
theorem lookup_append_of_none {k k' : κ} {v : ν} {l : List (κ × ν)} (hk : lookup k l = none) :
    lookup k' (l ++ [(k, v)]) = if k = k' then some v else lookup k' l := by
  induction l with
  | nil => simp [lookup]
  | cons m l ih =>
    obtain ⟨m₁, m₂⟩ := m
    rw [lookup] at hk
    split at hk
    · cases hk
    · rename_i hne
      rw [List.cons_append, lookup, lookup, ih hk]
      split
      · rename_i hm
        rw [if_neg fun hkk ↦ hne (hm.trans hkk.symm)]
      · rfl

@[simp] theorem lookup_upsert_self (k : κ) (v : ν) (l : List (κ × ν)) :
    lookup k (upsert k v l) = some v := by
  induction l with
  | nil => simp [upsert, lookup]
  | cons p l ih =>
    obtain ⟨k', v'⟩ := p
    rw [upsert]
    split
    · simp [lookup]
    · rename_i h
      rw [lookup, if_neg h, ih]

theorem lookup_upsert_of_ne {k k₀ : κ} (v : ν) (l : List (κ × ν)) (h : k₀ ≠ k) :
    lookup k₀ (upsert k v l) = lookup k₀ l := by
  induction l with
  | nil => simp [upsert, lookup, h.symm]
  | cons p l ih =>
    obtain ⟨k', v'⟩ := p
    rw [upsert]
    split
    · rename_i hk
      subst hk
      rw [lookup, lookup, if_neg h.symm, if_neg h.symm]
    · rw [lookup, lookup, ih]

theorem lookup_upsert (k k₀ : κ) (v : ν) (l : List (κ × ν)) :
    lookup k₀ (upsert k v l) = if k₀ = k then some v else lookup k₀ l := by
  split
  · rename_i h
    rw [h, lookup_upsert_self]
  · rename_i h
    exact lookup_upsert_of_ne v l h

/-- Storing what is stored changes nothing. -/
theorem upsert_of_lookup {k : κ} {v : ν} {l : List (κ × ν)} (h : lookup k l = some v) :
    upsert k v l = l := by
  induction l with
  | nil => cases h
  | cons p l ih =>
    obtain ⟨k', v'⟩ := p
    rw [lookup] at h
    rw [upsert]
    split_ifs at h ⊢ with hk
    · obtain rfl := Option.some.inj h
      rw [hk]
    · rw [ih h]

theorem eq_or_mem_of_mem_upsert {k : κ} {v : ν} {l : List (κ × ν)} {x : κ × ν}
    (h : x ∈ upsert k v l) : x = (k, v) ∨ x ∈ l := by
  induction l with
  | nil => exact .inl (List.mem_singleton.mp h)
  | cons p l ih =>
    rw [upsert] at h
    split at h
    · exact (List.mem_cons.mp h).imp_right (List.mem_cons_of_mem p)
    · rcases List.mem_cons.mp h with rfl | h
      · exact .inr List.mem_cons_self
      · exact (ih h).imp_right (List.mem_cons_of_mem p)

theorem mem_map_fst_upsert {k k₀ : κ} {v : ν} {l : List (κ × ν)} :
    k₀ ∈ (upsert k v l).map Prod.fst ↔ k₀ = k ∨ k₀ ∈ l.map Prod.fst := by
  induction l with
  | nil => simp [upsert]
  | cons p l ih =>
    obtain ⟨k', v'⟩ := p
    rw [upsert]
    split
    · rename_i hk
      subst hk
      simp
    · rw [List.map_cons, List.mem_cons, ih, List.map_cons, List.mem_cons, or_left_comm]

/-- Each key stands once. -/
theorem nodup_map_fst_upsert {k : κ} {v : ν} {l : List (κ × ν)} (h : (l.map Prod.fst).Nodup) :
    ((upsert k v l).map Prod.fst).Nodup := by
  induction l with
  | nil => simp [upsert]
  | cons p l ih =>
    obtain ⟨k', v'⟩ := p
    rw [List.map_cons, List.nodup_cons] at h
    rw [upsert]
    split
    · rename_i hk
      subst hk
      exact List.nodup_cons.mpr h
    · rename_i hk
      rw [List.map_cons, List.nodup_cons, mem_map_fst_upsert]
      exact ⟨fun hmem ↦ hmem.elim hk h.1, ih h.2⟩

theorem lookup_eq_none_of_not_mem {k : κ} {l : List (κ × ν)} (h : k ∉ l.map Prod.fst) :
    lookup k l = none := by
  induction l with
  | nil => rfl
  | cons p l ih =>
    obtain ⟨k', v'⟩ := p
    rw [List.map_cons, List.mem_cons, not_or] at h
    rw [lookup, if_neg (Ne.symm h.1), ih h.2]

theorem mem_of_lookup {k : κ} {v : ν} {l : List (κ × ν)} (h : lookup k l = some v) :
    (k, v) ∈ l := by
  induction l with
  | nil => cases h
  | cons p l ih =>
    obtain ⟨k', v'⟩ := p
    rw [lookup] at h
    split at h
    · rename_i hk
      cases h
      rw [hk]
      exact List.mem_cons_self
    · exact List.mem_cons_of_mem _ (ih h)

theorem isSome_lookup {k : κ} {l : List (κ × ν)} :
    (lookup k l).isSome ↔ k ∈ l.map Prod.fst := by
  constructor
  · intro h
    obtain ⟨v, hv⟩ := Option.isSome_iff_exists.mp h
    exact List.mem_map_of_mem (mem_of_lookup hv)
  · intro h
    induction l with
    | nil => cases h
    | cons p l ih =>
      obtain ⟨k', v'⟩ := p
      rw [lookup]
      split
      · rfl
      · rename_i hk
        exact ih ((List.mem_cons.mp h).resolve_left (Ne.symm hk))

end upsert

/-! ## Reading in key order -/

section scan

variable [LinearOrder κ] {key : α → κ}

/-- The keys strictly increase along the list. -/
def Increasing (key : α → κ) (l : List α) : Prop := l.Pairwise fun a b ↦ key a < key b

theorem Increasing.sublist {l l' : List α} (h : Increasing key l) (hs : l'.Sublist l) :
    Increasing key l' :=
  List.Pairwise.sublist hs h

theorem Increasing.filter {l : List α} (h : Increasing key l) (p : α → Bool) :
    Increasing key (l.filter p) :=
  h.sublist List.filter_sublist

theorem Increasing.append {l l' : List α} (h : Increasing key l) (h' : Increasing key l')
    (hlt : ∀ a ∈ l, ∀ b ∈ l', key a < key b) : Increasing key (l ++ l') :=
  List.pairwise_append.mpr ⟨h, h', hlt⟩

/-- Rows of an increasing list are told apart by their keys. -/
theorem Increasing.eq_of_key_eq {l : List α} (h : Increasing key l) {a b : α} (ha : a ∈ l)
    (hb : b ∈ l) (hk : key a = key b) : a = b := by
  induction l with
  | nil => cases ha
  | cons x l ih =>
    obtain ⟨hx, hl⟩ := List.pairwise_cons.mp h
    rcases List.mem_cons.mp ha with rfl | ha' <;> rcases List.mem_cons.mp hb with rfl | hb'
    · rfl
    · exact absurd hk (hx b hb').ne
    · exact absurd hk (hx a ha').ne'
    · exact ih hl ha' hb'

/-- Two increasing lists with the same elements are the same list. -/
theorem Increasing.eq_of_mem_iff {l l' : List α} (h : Increasing key l) (h' : Increasing key l')
    (hmem : ∀ a, a ∈ l ↔ a ∈ l') : l = l' := by
  have hn : l.Nodup := h.imp fun hab he ↦ by subst he; exact lt_irrefl _ hab
  have hn' : l'.Nodup := h'.imp fun hab he ↦ by subst he; exact lt_irrefl _ hab
  refine List.Perm.eq_of_pairwise (fun a b ha hb hab hba ↦ ?_) h h'
    ((List.perm_ext_iff_of_nodup hn hn').mpr hmem)
  exact absurd hab (lt_asymm hba)

/-- The last key of an increasing list bounds all of them. -/
theorem Increasing.le_getLast {l : List α} (h : Increasing key l) {x a : α}
    (hx : l.getLast? = some x) (ha : a ∈ l) : key a ≤ key x := by
  induction l with
  | nil => cases ha
  | cons y l ih =>
    obtain ⟨hy, hl⟩ := List.pairwise_cons.mp h
    cases l with
    | nil =>
      obtain rfl : y = x := by simpa using hx
      rw [List.mem_singleton.mp ha]
    | cons z l =>
      rw [List.getLast?_cons_cons] at hx
      rcases List.mem_cons.mp ha with rfl | ha
      · exact (hy x (List.mem_of_getLast? hx)).le
      · exact ih hl hx ha

/-- **What was read is what lies up to the remembered key.**  A prefix of an increasing list is all
of the list's rows up to the key of the prefix's last row. -/
theorem prefix_eq_filter_le {l out : List α} (h : Increasing key l) (hp : out <+: l) {x : α}
    (hx : out.getLast? = some x) : out = l.filter fun a ↦ decide (key a ≤ key x) := by
  obtain ⟨rest, rfl⟩ := hp
  obtain ⟨-, -, hlt⟩ := List.pairwise_append.mp h
  have hout : Increasing key out := h.sublist (List.sublist_append_left out rest)
  have h₁ : out.filter (fun a ↦ decide (key a ≤ key x)) = out :=
    List.filter_eq_self.mpr fun a ha ↦
      decide_eq_true (hout.le_getLast hx ha)
  have h₂ : rest.filter (fun a ↦ decide (key a ≤ key x)) = [] :=
    List.filter_eq_nil_iff.mpr fun a ha ↦ by
      simpa using hlt x (List.mem_of_getLast? hx) a ha
  rw [List.filter_append, h₁, h₂, List.append_nil]

/-- The rows with a key in the half-open window from `c` to `e`. -/
def window (key : α → κ) (c e : κ) (l : List α) : List α :=
  l.filter fun a ↦ decide (c < key a ∧ key a ≤ e)

theorem mem_window {c e : κ} {l : List α} {a : α} :
    a ∈ window key c e l ↔ a ∈ l ∧ c < key a ∧ key a ≤ e := by
  simp [window]

/-- A window from `c` to `e`, and the one from there to `e'`. -/
theorem window_append_window {l : List α} (h : Increasing key l) {c e e' : κ} (hce : c ≤ e)
    (hee : e ≤ e') : window key c e' l = window key c e l ++ window key e e' l := by
  refine (h.filter _).eq_of_mem_iff ((h.filter _).append (h.filter _) ?_) fun a ↦ ?_
  · intro a ha b hb
    exact (mem_window.mp ha).2.2.trans_lt (mem_window.mp hb).2.1
  · change a ∈ window key c e' l ↔ a ∈ window key c e l ++ window key e e' l
    rw [List.mem_append, mem_window, mem_window, mem_window]
    constructor
    · rintro ⟨hl, hc, he⟩
      rcases le_or_gt (key a) e with hle | hlt
      · exact .inl ⟨hl, hc, hle⟩
      · exact .inr ⟨hl, hlt, he⟩
    · rintro (⟨hl, hc, he⟩ | ⟨hl, hc, he⟩)
      · exact ⟨hl, hc, he.trans hee⟩
      · exact ⟨hl, hce.trans_lt hc, he⟩

/-! ### Walking up to the first that fails -/

/-- What `takeWhile` keeps of a sorted list: the elements up to which everything passes. -/
theorem mem_takeWhile_iff {p : κ → Bool} {l : List κ} (h : Increasing id l) {x : κ} :
    x ∈ l.takeWhile p ↔ x ∈ l ∧ ∀ y ∈ l, y ≤ x → p y := by
  induction l with
  | nil => simp
  | cons z l ih =>
    obtain ⟨hz, hl⟩ := List.pairwise_cons.mp h
    rw [List.takeWhile_cons]
    constructor
    · intro hx
      split at hx
      · rename_i hp
        rcases List.mem_cons.mp hx with rfl | hx
        · refine ⟨List.mem_cons_self, fun y hy hle ↦ ?_⟩
          rcases List.mem_cons.mp hy with rfl | hy
          · exact hp
          · exact absurd hle (not_le.mpr (hz y hy))
        · obtain ⟨hmem, hall⟩ := (ih hl).mp hx
          refine ⟨List.mem_cons_of_mem z hmem, fun y hy hle ↦ ?_⟩
          rcases List.mem_cons.mp hy with rfl | hy
          · exact hp
          · exact hall y hy hle
      · cases hx
    · rintro ⟨hx, hall⟩
      have hle : z ≤ x := by
        rcases List.mem_cons.mp hx with rfl | hx
        · exact le_rfl
        · exact (hz x hx).le
      rw [if_pos (hall z List.mem_cons_self hle)]
      rcases List.mem_cons.mp hx with rfl | hx
      · exact List.mem_cons_self
      · refine List.mem_cons_of_mem z ((ih hl).mpr ⟨hx, fun y hy hyx ↦ ?_⟩)
        exact hall y (List.mem_cons_of_mem z hy) hyx

/-- The last element of a sorted list is its largest. -/
theorem getLast?_eq_some_iff {l : List κ} (h : Increasing id l) {x : κ} :
    l.getLast? = some x ↔ x ∈ l ∧ ∀ y ∈ l, y ≤ x := by
  constructor
  · exact fun hx ↦ ⟨List.mem_of_getLast? hx, fun y hy ↦ h.le_getLast hx hy⟩
  · rintro ⟨hx, hmax⟩
    have hy := List.getLast?_eq_getLast_of_ne_nil (List.ne_nil_of_mem hx)
    generalize l.getLast _ = y at hy
    rw [hy, le_antisymm (hmax y (List.mem_of_getLast? hy)) (h.le_getLast hy hx)]

end scan

end Table
