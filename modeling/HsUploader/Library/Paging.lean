import Mathlib.Data.List.Sort
import Mathlib.Data.List.Nodup
import Mathlib.Order.Basic

/-!
# Reading in pages past the largest key read

A reader that remembers one key takes, at each step, the first `limit` items with a larger key, in
some order of the keys, and remembers the largest key among them.  Items that share a key can lie on
both sides of the end of a page, and those beyond it are then never read: the reader reads every
item exactly when no two items next to each other across the end of a page share their key
(`Walk.complete_iff`).  It reads none twice (`Walk.unique`).

## What is here

* `Listing` — an order of the items past a key; which one is left open where items share a key.
* `Walk` — step after step: the key remembered, the page, and the key after it.
* `Apart` — the condition, on the keys alone.
* `Walk.unique` and `Walk.complete_iff` — no item twice, and every item exactly when the keys are
  apart.
-/

set_option autoImplicit false

namespace Paging

variable {α κ : Type} [LinearOrder κ] (key : α → κ)

/-- `L` lists the items past `c`, in an order of their keys. -/
structure Listing (S : List α) (c : κ) (L : List α) : Prop where
  perm : L.Perm (S.filter fun a ↦ c < key a)
  sorted : L.Pairwise fun a b ↦ key a ≤ key b

/-- The keys past `c`, in order. -/
def keys (S : List α) (c : κ) : List κ :=
  ((S.filter fun a ↦ c < key a).map key).mergeSort fun a b ↦ a ≤ b

/-- The keys before and after the end of each page differ. -/
def Apart (limit : ℕ) (T : List κ) : Prop :=
  ∀ k, 0 < k → ∀ a b, T[k * limit - 1]? = some a → T[k * limit]? = some b → a ≠ b

/-- The key that is remembered before each step, and the page of each step. -/
structure Walk (S : List α) (limit : ℕ) (cur : ℕ → κ) (page : ℕ → List α) : Prop where
  listed : ∀ n, ∃ L, Listing key S (cur n) L ∧ page n = L.take limit
  idle : ∀ n, page n = [] → cur (n + 1) = cur n
  le : ∀ n, ∀ a ∈ page n, key a ≤ cur (n + 1)
  mem : ∀ n, page n ≠ [] → ∃ a ∈ page n, key a = cur (n + 1)

variable {key} {S L : List α} {c c' : κ} {limit : ℕ} {cur : ℕ → κ} {page : ℕ → List α}

/-! ## One page -/

theorem Listing.mem_iff (h : Listing key S c L) {a : α} : a ∈ L ↔ a ∈ S ∧ c < key a := by
  rw [h.perm.mem_iff, List.mem_filter, decide_eq_true_eq]

theorem pairwise_keys (S : List α) (c : κ) : (keys key S c).Pairwise (· ≤ ·) := by
  have htrans : ∀ a b c : κ, decide (a ≤ b) = true → decide (b ≤ c) = true →
      decide (a ≤ c) = true := fun a b c hab hbc ↦
    decide_eq_true (le_trans (of_decide_eq_true hab) (of_decide_eq_true hbc))
  have htotal : ∀ a b : κ, (decide (a ≤ b) || decide (b ≤ a)) = true := fun a b ↦ by
    simpa using le_total a b
  have h := List.pairwise_mergeSort htrans htotal ((S.filter fun a ↦ c < key a).map key)
  exact h.imp fun hab ↦ of_decide_eq_true hab

/-- The keys of a listing do not depend on its order among equal keys. -/
theorem Listing.keys_eq (h : Listing key S c L) : L.map key = keys key S c := by
  have hperm : (L.map key).Perm (keys key S c) :=
    (h.perm.map key).trans (List.mergeSort_perm _ _).symm
  have hsorted : (L.map key).Pairwise (· ≤ ·) := List.pairwise_map.mpr h.sorted
  exact hperm.eq_of_pairwise (fun a b _ _ hab hba ↦ le_antisymm hab hba) hsorted
    (pairwise_keys S c)

/-- What lies beyond the page when its largest key is `c'`. -/
theorem Listing.le_drop (h : Listing key S c L) (hmem : ∃ a ∈ L.take limit, key a = c') :
    ∀ b ∈ L.drop limit, c' ≤ key b := by
  obtain ⟨a, ha, rfl⟩ := hmem
  intro b hb
  have hsorted := h.sorted
  rw [← List.take_append_drop limit L, List.pairwise_append] at hsorted
  exact hsorted.2.2 a ha b hb

/-- The keys next to the end of the page differ exactly when nothing beyond it has the key that is
remembered. -/
theorem Listing.apart_iff (h : Listing key S c L) (hlimit : 1 ≤ limit)
    (hle : ∀ a ∈ L.take limit, key a ≤ c') (hmem : ∃ a ∈ L.take limit, key a = c') :
    (∀ a b, (L.map key)[limit - 1]? = some a → (L.map key)[limit]? = some b → a ≠ b) ↔
      ∀ b ∈ L.drop limit, c' < key b := by
  have hdrop := h.le_drop hmem
  by_cases hlong : limit < L.length
  · have hlast : key L[limit - 1] = c' := by
      have hin : L[limit - 1] ∈ L.take limit :=
        List.mem_take_iff_getElem.mpr ⟨limit - 1, by omega, rfl⟩
      obtain ⟨a, ha, rfl⟩ := hmem
      refine le_antisymm (hle _ hin) ?_
      obtain ⟨i, hi, rfl⟩ := List.mem_take_iff_getElem.mp ha
      rcases Nat.lt_or_ge i (limit - 1) with hlt | hge
      · exact List.pairwise_iff_getElem.mp h.sorted i (limit - 1) (by omega) (by omega) hlt
      · have heq : i = limit - 1 := by omega
        subst heq
        exact le_rfl
    have hnext : L[limit] ∈ L.drop limit := by
      rw [List.mem_drop_iff_getElem]
      exact ⟨0, by omega, by simp⟩
    have hleast : ∀ b ∈ L.drop limit, key L[limit] ≤ key b := by
      intro b hb
      obtain ⟨i, hi, rfl⟩ := List.mem_drop_iff_getElem.mp hb
      rcases Nat.eq_zero_or_pos i with rfl | hpos
      · simp
      · exact List.pairwise_iff_getElem.mp h.sorted limit (limit + i) (by omega) (by omega)
          (by omega)
    have hfst : (L.map key)[limit - 1]? = some (key L[limit - 1]) := by
      rw [List.getElem?_map, List.getElem?_eq_getElem (by omega), Option.map_some]
    have hsnd : (L.map key)[limit]? = some (key L[limit]) := by
      rw [List.getElem?_map, List.getElem?_eq_getElem hlong, Option.map_some]
    rw [hfst, hsnd, hlast]
    constructor
    · intro hne b hb
      exact lt_of_lt_of_le (lt_of_le_of_ne (hdrop _ hnext) (hne _ _ rfl rfl)) (hleast b hb)
    · intro hlt a b ha hb
      cases ha
      cases hb
      exact ne_of_lt (hlt _ hnext)
  · have hnil : L.drop limit = [] := List.drop_eq_nil_of_le (by omega)
    have hnone : (L.map key)[limit]? = none := by
      rw [List.getElem?_eq_none_iff, List.length_map]
      omega
    rw [hnil, hnone]
    exact iff_of_true (fun a b _ hb ↦ by cases hb) fun b hb ↦ absurd hb List.not_mem_nil

/-- Where nothing is passed over, the next page starts where this one ends. -/
theorem Listing.drop (h : Listing key S c L) (hle : ∀ a ∈ L.take limit, key a ≤ c')
    (hmem : ∃ a ∈ L.take limit, key a = c') (hlt : ∀ b ∈ L.drop limit, c' < key b) :
    Listing key S c' (L.drop limit) := by
  have hc : c ≤ c' := by
    obtain ⟨a, ha, rfl⟩ := hmem
    exact le_of_lt (h.mem_iff.mp (List.mem_of_mem_take ha)).2
  refine ⟨?_, h.sorted.sublist (List.drop_sublist limit L)⟩
  have hfilter : L.filter (fun a ↦ c' < key a) = L.drop limit := by
    conv_lhs => rw [← List.take_append_drop limit L]
    rw [List.filter_append,
      List.filter_eq_nil_iff.mpr fun a ha ↦ by simpa using hle a ha,
      List.filter_eq_self.mpr fun b hb ↦ by simpa using hlt b hb, List.nil_append]
  have hperm := h.perm.filter fun a ↦ c' < key a
  rw [hfilter, List.filter_filter] at hperm
  refine hperm.trans (List.Perm.of_eq (List.filter_congr fun a _ ↦ ?_))
  by_cases ha : c' < key a
  · simp [ha, lt_of_le_of_lt hc ha]
  · simp [ha]

omit [LinearOrder κ] in
theorem apart_nil : Apart limit ([] : List κ) := fun k _ a b _ hb ↦ by
  rw [List.getElem?_nil] at hb
  cases hb

omit [LinearOrder κ] in
/-- The end of the first page, and those of the pages that follow. -/
theorem apart_iff_drop (T : List κ) : Apart limit T ↔
    (∀ a b, T[limit - 1]? = some a → T[limit]? = some b → a ≠ b) ∧ Apart limit (T.drop limit) := by
  have hshift : ∀ k, 0 < k → 1 ≤ limit →
      (T.drop limit)[k * limit - 1]? = T[(k + 1) * limit - 1]? ∧
      (T.drop limit)[k * limit]? = T[(k + 1) * limit]? := by
    intro k hk hlimit
    have hpos : 1 ≤ k * limit := Nat.mul_pos hk hlimit
    have hsucc : (k + 1) * limit = limit + k * limit := by rw [Nat.succ_mul, Nat.add_comm]
    rw [List.getElem?_drop, List.getElem?_drop, hsucc]
    exact ⟨congrArg _ (by omega), rfl⟩
  rcases Nat.eq_zero_or_pos limit with rfl | hlimit
  · simp only [Apart, Nat.mul_zero, List.drop_zero]
    exact ⟨fun h ↦ ⟨h 1 Nat.one_pos, h⟩, And.right⟩
  · constructor
    · intro h
      refine ⟨by simpa using h 1 Nat.one_pos, fun k hk a b ha hb ↦ ?_⟩
      rw [(hshift k hk hlimit).1] at ha
      rw [(hshift k hk hlimit).2] at hb
      exact h (k + 1) (Nat.succ_pos k) a b ha hb
    · rintro ⟨hfirst, hrest⟩ k hk a b ha hb
      obtain ⟨k, rfl⟩ : ∃ j, k = j + 1 := ⟨k - 1, by omega⟩
      rcases Nat.eq_zero_or_pos k with rfl | hpos
      · exact hfirst a b (by simpa using ha) (by simpa using hb)
      · rw [← (hshift k hpos hlimit).1] at ha
        rw [← (hshift k hpos hlimit).2] at hb
        exact hrest k hpos a b ha hb

/-! ## A walk -/

namespace Walk

theorem mono (h : Walk key S limit cur page) (n : ℕ) : cur n ≤ cur (n + 1) := by
  by_cases hnil : page n = []
  · exact le_of_eq (h.idle n hnil).symm
  · obtain ⟨a, ha, heq⟩ := h.mem n hnil
    obtain ⟨L, hL, hpage⟩ := h.listed n
    rw [hpage] at ha
    rw [← heq]
    exact le_of_lt (hL.mem_iff.mp (List.mem_of_mem_take ha)).2

theorem cur_mono (h : Walk key S limit cur page) : Monotone cur := monotone_nat_of_le_succ h.mono

theorem lt_of_mem (h : Walk key S limit cur page) {n : ℕ} {a : α} (ha : a ∈ page n) :
    a ∈ S ∧ cur n < key a := by
  obtain ⟨L, hL, hpage⟩ := h.listed n
  rw [hpage] at ha
  exact hL.mem_iff.mp (List.mem_of_mem_take ha)

/-- **No item is read twice.** -/
theorem unique (h : Walk key S limit cur page) {n m : ℕ} {a : α} (hn : a ∈ page n)
    (hm : a ∈ page m) : n = m := by
  have hlt : ∀ {i j : ℕ}, a ∈ page i → a ∈ page j → ¬ i < j := by
    intro i j hi hj hij
    exact absurd (h.lt_of_mem hj).2 (not_lt.mpr ((h.le i a hi).trans (h.cur_mono hij)))
  rcases Nat.lt_trichotomy n m with hnm | rfl | hnm
  · exact absurd hnm (hlt hn hm)
  · rfl
  · exact absurd hnm (hlt hm hn)

theorem shift (h : Walk key S limit cur page) :
    Walk key S limit (fun n ↦ cur (n + 1)) fun n ↦ page (n + 1) where
  listed n := h.listed (n + 1)
  idle n := h.idle (n + 1)
  le n := h.le (n + 1)
  mem n := h.mem (n + 1)

/-- **Every item past the first key is read exactly when the keys are apart at the end of each
page.** -/
theorem complete_iff (hlimit : 1 ≤ limit) (hS : S.Nodup) (h : Walk key S limit cur page) :
    (∀ a ∈ S, cur 0 < key a → ∃ n, a ∈ page n) ↔ Apart limit (keys key S (cur 0)) := by
  obtain ⟨len, hlen⟩ : ∃ len, (keys key S (cur 0)).length ≤ len := ⟨_, le_rfl⟩
  induction len generalizing cur page with
  | zero =>
    obtain ⟨L, hL, -⟩ := h.listed 0
    have hnil : L = [] := by
      rw [← hL.keys_eq, List.length_map] at hlen
      exact List.eq_nil_of_length_eq_zero (Nat.le_zero.mp hlen)
    rw [List.eq_nil_of_length_eq_zero (Nat.le_zero.mp hlen)]
    refine iff_of_true (fun a ha hlt ↦ ?_) apart_nil
    have hmem := hL.mem_iff.mpr ⟨ha, hlt⟩
    rw [hnil] at hmem
    cases hmem
  | succ len ih =>
    obtain ⟨L, hL, hpage⟩ := h.listed 0
    rcases List.eq_nil_or_concat L with rfl | ⟨_, _, hconcat⟩
    · rw [← hL.keys_eq]
      refine iff_of_true (fun a ha hlt ↦ ?_) apart_nil
      exact absurd (hL.mem_iff.mpr ⟨ha, hlt⟩) List.not_mem_nil
    · have hne : page 0 ≠ [] := by
        rw [hpage]
        intro hnil
        have hlength := congrArg List.length hnil
        rw [hconcat] at hlength
        simp at hlength
        omega
      have hle : ∀ a ∈ L.take limit, key a ≤ cur 1 := by
        rw [← hpage]
        exact h.le 0
      have hmem : ∃ a ∈ L.take limit, key a = cur 1 := by
        rw [← hpage]
        exact h.mem 0 hne
      have hnodup : L.Nodup := hL.perm.nodup_iff.mpr (hS.filter _)
      rw [apart_iff_drop, ← hL.keys_eq, hL.apart_iff hlimit hle hmem]
      have hnext : (∀ b ∈ L.drop limit, cur 1 < key b) →
          ((∀ a ∈ S, cur 1 < key a → ∃ n, a ∈ page (n + 1)) ↔
            Apart limit ((L.map key).drop limit)) := by
        intro hlt
        have hlisting := hL.drop hle hmem hlt
        have hkeys : keys key S (cur 1) = (L.map key).drop limit := by
          rw [← hlisting.keys_eq, List.map_drop]
        rw [← hkeys]
        refine ih h.shift ?_
        rw [hkeys, List.length_drop, List.length_map]
        rw [← hL.keys_eq, List.length_map] at hlen
        omega
      constructor
      · intro hall
        have hlt : ∀ b ∈ L.drop limit, cur 1 < key b := by
          intro b hb
          refine lt_of_le_of_ne (hL.le_drop hmem b hb) fun heq ↦ ?_
          obtain ⟨hbS, hbc⟩ := hL.mem_iff.mp (List.mem_of_mem_drop hb)
          obtain ⟨n, hn⟩ := hall b hbS hbc
          rcases Nat.eq_zero_or_pos n with rfl | hpos
          · rw [hpage] at hn
            exact List.disjoint_take_drop hnodup le_rfl hn hb
          · have hlate := (h.lt_of_mem hn).2
            rw [← heq] at hlate
            exact absurd hlate (not_lt.mpr (h.cur_mono hpos))
        refine ⟨hlt, (hnext hlt).mp fun a ha hac ↦ ?_⟩
        obtain ⟨n, hn⟩ := hall a ha (lt_of_le_of_lt (h.mono 0) hac)
        rcases Nat.eq_zero_or_pos n with rfl | hpos
        · exact absurd hac (not_lt.mpr (h.le 0 a hn))
        · exact ⟨n - 1, by rwa [Nat.sub_add_cancel hpos]⟩
      · rintro ⟨hlt, hrest⟩ a ha hac
        have hin : a ∈ L := hL.mem_iff.mpr ⟨ha, hac⟩
        rw [← List.take_append_drop limit L, List.mem_append] at hin
        rcases hin with hin | hin
        · exact ⟨0, by rwa [hpage]⟩
        · obtain ⟨n, hn⟩ := (hnext hlt).mpr hrest a ha (hlt a hin)
          exact ⟨n + 1, hn⟩

end Walk

end Paging
