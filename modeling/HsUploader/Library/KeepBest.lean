import HsUploader.Library.Table

/-!
# One item for each key

A scan over a list that keeps, for each key, the best item of that key seen so far, with its
position, beside the items without a key; at the end all of it is put in the order of the positions.
`kept_eq_filter` says what that is without the scan: the items that win among those of their key.

`standing` is the scan for a single key: it moves on to an item only when that is strictly better.
Where the scores are ordered it is the best item, and among ties the first (`standing_beats`).

The other order one can put the winners in is that of the first item of each key (`inPlace`).  The
two lists have the same members, and they are the same list exactly when the winners in place have
increasing positions (`kept_eq_inPlace_iff`).

## What is here

* `scan` and `kept` — the program: a fold over the list, and the sort that puts what is left in the
  order of the positions.
* `standing` — the fold for one key, and `champion` what it comes to for the key of an item.
* `Wins` and `Opens` — which items stay, and which open a place.
* `kept_eq_filter` and `mem_inPlace` — what is kept, and that both orders hold the same items.
* `kept_eq_self` — on a list where no two items share a key nothing changes, so that a second scan
  changes nothing either.
* `kept_eq_inPlace_of_values` — the same for the values without their positions, where copies of one
  item may stand in the list.
-/

set_option autoImplicit false

namespace KeepBest

variable {α κ σ : Type} [DecidableEq κ]

/-- An item with its position. -/
abbrev Placed (α : Type) : Type := ℕ × α

/-! ## The scan -/

section

variable (gt : σ → σ → Bool) (view : Placed α → Option (κ × σ))

/-- The best item of a key after one more. -/
def better (old : Option (Placed α × σ)) (new : Placed α × σ) : Placed α × σ :=
  match old with
  | none => new
  | some p => if gt new.2 p.2 then new else p

/-- The scan: the best items so far and the items without a key. -/
def scan : List (Placed α) → List (κ × (Placed α × σ)) × List (Placed α) →
    List (κ × (Placed α × σ)) × List (Placed α)
  | [], st => st
  | e :: es, (best, pass) =>
    match view e with
    | none => scan es (best, pass ++ [e])
    | some (k, s) => scan es (Table.upsert k (better gt (Table.lookup k best) (e, s)) best, pass)

/-- Everything that was kept, in the order of the positions. -/
def kept (l : List (Placed α)) : List (Placed α) :=
  let st := scan gt view l ([], [])
  (st.1.map (·.2.1) ++ st.2).mergeSort fun a b ↦ a.1 ≤ b.1

/-- The item that a scan for one key ends with. -/
def standing (k : κ) : List (Placed α) → Option (Placed α × σ) → Option (Placed α × σ)
  | [], old => old
  | e :: es, old =>
    match view e with
    | some (k', s) => if k' = k then standing k es (some (better gt old (e, s)))
      else standing k es old
    | none => standing k es old

/-- The item stays: it has no key, or it is what the scan for its key ends with. -/
def Wins (l : List (Placed α)) (e : Placed α) : Prop :=
  match view e with
  | none => True
  | some (k, _) => (standing gt view k l none).map (·.1.1) = some e.1

instance (l : List (Placed α)) : DecidablePred (Wins gt view l) := fun e ↦ by
  unfold Wins
  split <;> infer_instance

/-- The item has no key, or is the first of its key. -/
def Opens (l : List (Placed α)) (e : Placed α) : Prop :=
  match view e with
  | none => True
  | some (k, _) => ∀ x ∈ l, (view x).map Prod.fst = some k → e.1 ≤ x.1

instance (l : List (Placed α)) : DecidablePred (Opens view l) := fun e ↦ by
  unfold Opens
  split <;> infer_instance

/-- The item that stands for the item's key, itself when it has none. -/
def champion (l : List (Placed α)) (e : Placed α) : Placed α :=
  match view e with
  | none => e
  | some (k, _) => ((standing gt view k l none).map (·.1)).getD e

/-- What stands for each key, at the place of the key's first item. -/
def inPlace (l : List (Placed α)) : List (Placed α) :=
  (l.filter fun e ↦ Opens view l e).map (champion gt view l)

end

section

variable {gt : σ → σ → Bool} {view : Placed α → Option (κ × σ)}

theorem lookup_scan (k : κ) (l : List (Placed α)) (best : List (κ × (Placed α × σ)))
    (pass : List (Placed α)) :
    Table.lookup k (scan gt view l (best, pass)).1 =
      standing gt view k l (Table.lookup k best) := by
  induction l generalizing best pass with
  | nil => rfl
  | cons e es ih =>
    rw [scan, standing]
    cases hv : view e with
    | none => exact ih _ _
    | some ks =>
      obtain ⟨k', s⟩ := ks
      dsimp only
      rw [ih, Table.lookup_upsert]
      by_cases hk : k' = k
      · rw [if_pos hk.symm, if_pos hk, hk]
      · rw [if_neg (Ne.symm hk), if_neg hk]

theorem scan_pass (l : List (Placed α)) (best : List (κ × (Placed α × σ)))
    (pass : List (Placed α)) :
    (scan gt view l (best, pass)).2 = pass ++ l.filter fun e ↦ (view e).isNone := by
  induction l generalizing best pass with
  | nil => rw [scan, List.filter_nil, List.append_nil]
  | cons e es ih =>
    rw [scan]
    cases hv : view e with
    | none =>
      dsimp only
      rw [ih, List.filter_cons_of_pos (by rw [hv]; rfl), List.append_assoc, List.singleton_append]
    | some ks =>
      dsimp only
      rw [ih, List.filter_cons_of_neg (by rw [hv]; exact Bool.false_ne_true)]

theorem nodup_scan {l : List (Placed α)} {best : List (κ × (Placed α × σ))}
    {pass : List (Placed α)} (h : (best.map Prod.fst).Nodup) :
    ((scan gt view l (best, pass)).1.map Prod.fst).Nodup := by
  induction l generalizing best pass with
  | nil => exact h
  | cons e es ih =>
    rw [scan]
    cases hv : view e with
    | none => exact ih h
    | some ks => exact ih (Table.nodup_map_fst_upsert h)

/-- What stands for a key is an item of that key. -/
theorem standing_mem {k : κ} {l : List (Placed α)} {old : Option (Placed α × σ)}
    {w : Placed α × σ} (h : standing gt view k l old = some w) :
    old = some w ∨ (w.1 ∈ l ∧ view w.1 = some (k, w.2)) := by
  induction l generalizing old with
  | nil => exact .inl h
  | cons e es ih =>
    rw [standing] at h
    have hrest : ∀ {old' : Option (Placed α × σ)}, standing gt view k es old' = some w →
        old' = some w ∨ (w.1 ∈ e :: es ∧ view w.1 = some (k, w.2)) := fun h' ↦
      (ih h').imp id fun hw ↦ ⟨List.mem_cons_of_mem _ hw.1, hw.2⟩
    cases hv : view e with
    | none =>
      rw [hv] at h
      exact hrest h
    | some ks =>
      obtain ⟨k', s⟩ := ks
      rw [hv] at h
      dsimp only at h
      split_ifs at h with hk
      · rcases hrest h with hw | hw
        · have hnew : view e = some (k, s) := by rw [hv, hk]
          cases old with
          | none =>
            obtain rfl := Option.some.inj hw
            exact .inr ⟨List.mem_cons_self, hnew⟩
          | some p =>
            rw [better] at hw
            split_ifs at hw
            · obtain rfl := Option.some.inj hw
              exact .inr ⟨List.mem_cons_self, hnew⟩
            · exact .inl hw
        · exact .inr hw
      · exact hrest h

theorem standing_isSome {k : κ} {l : List (Placed α)} {old : Option (Placed α × σ)} :
    (standing gt view k l old).isSome ↔ old.isSome ∨ ∃ e ∈ l, ∃ s, view e = some (k, s) := by
  induction l generalizing old with
  | nil => simp [standing]
  | cons e es ih =>
    rw [standing]
    cases hv : view e with
    | none => simp [ih, hv]
    | some ks =>
      obtain ⟨k', s⟩ := ks
      dsimp only
      split_ifs with hk
      · simp [ih, hv, hk]
      · simp [ih, hv, hk]

/-- An item that stands for a key has that key. -/
theorem view_of_standing {k : κ} {l : List (Placed α)} {w : Placed α × σ}
    (h : standing gt view k l none = some w) : w.1 ∈ l ∧ view w.1 = some (k, w.2) :=
  (standing_mem h).resolve_left (Option.some_ne_none _).symm

theorem nodup_scan_nil (l : List (Placed α)) :
    ((scan gt view l ([], [])).1.map Prod.fst).Nodup :=
  nodup_scan (List.nodup_nil : (List.map Prod.fst ([] : List (κ × (Placed α × σ)))).Nodup)

theorem standing_of_mem_scan {l : List (Placed α)} {p : κ × (Placed α × σ)}
    (h : p ∈ (scan gt view l ([], [])).1) : standing gt view p.1 l none = some p.2 := by
  have hk : p.1 ∈ (scan gt view l ([], [])).1.map Prod.fst := List.mem_map_of_mem h
  obtain ⟨w, hw⟩ := Option.isSome_iff_exists.mp (Table.isSome_lookup.mpr hk)
  have heq : p = (p.1, w) :=
    List.inj_on_of_nodup_map (nodup_scan_nil l) h (Table.mem_of_lookup hw) rfl
  rw [lookup_scan] at hw
  rw [congrArg Prod.snd heq]
  exact hw

theorem mem_kept {l : List (Placed α)} {e : Placed α} :
    e ∈ kept gt view l ↔
      (e ∈ l ∧ view e = none) ∨ ∃ k s, standing gt view k l none = some (e, s) := by
  rw [kept, List.mem_mergeSort, List.mem_append, scan_pass, List.nil_append, List.mem_filter,
    Option.isNone_iff_eq_none, or_comm]
  refine or_congr_right ?_
  rw [List.mem_map]
  constructor
  · rintro ⟨p, hmem, rfl⟩
    exact ⟨p.1, p.2.2, standing_of_mem_scan hmem⟩
  · rintro ⟨k, s, h⟩
    have hlookup : Table.lookup k (scan gt view l ([], [])).1 = some (e, s) := by
      rw [lookup_scan]
      exact h
    exact ⟨_, Table.mem_of_lookup hlookup, rfl⟩

/-! ## Positions that increase -/

theorem wins_iff {l : List (Placed α)} (hl : Table.Increasing Prod.fst l) {e : Placed α}
    (he : e ∈ l) :
    Wins gt view l e ↔ view e = none ∨ ∃ k s, standing gt view k l none = some (e, s) := by
  rw [Wins]
  cases hv : view e with
  | none => exact iff_of_true trivial (.inl rfl)
  | some ks =>
    obtain ⟨k, s⟩ := ks
    simp only [Option.map_eq_some_iff, reduceCtorEq, false_or]
    constructor
    · rintro ⟨w, hw, hpos⟩
      refine ⟨k, w.2, ?_⟩
      rw [hw, ← hl.eq_of_key_eq (view_of_standing hw).1 he hpos]
    · rintro ⟨k', s', h⟩
      have hkey : (k, s) = (k', s') := Option.some.inj (hv.symm.trans (view_of_standing h).2)
      obtain ⟨rfl, rfl⟩ := Prod.mk.inj hkey
      exact ⟨_, h, rfl⟩

/-- Of each key one item is kept. -/
theorem eq_of_mem_kept {l : List (Placed α)} {a b : Placed α} (ha : a ∈ kept gt view l)
    (hb : b ∈ kept gt view l) {k : κ} {s t : σ} (hva : view a = some (k, s))
    (hvb : view b = some (k, t)) : a = b := by
  have hstand : ∀ {e : Placed α} {u : σ}, view e = some (k, u) → e ∈ kept gt view l →
      standing gt view k l none = some (e, u) := by
    intro e u hv he
    rcases mem_kept.mp he with ⟨-, hnone⟩ | ⟨k', s', h⟩
    · rw [hv] at hnone
      cases hnone
    · obtain ⟨rfl, rfl⟩ := Prod.mk.inj (Option.some.inj (hv.symm.trans (view_of_standing h).2))
      exact h
  exact (Prod.mk.inj (Option.some.inj ((hstand hva ha).symm.trans (hstand hvb hb)))).1

theorem nodup_kept {l : List (Placed α)} (hl : Table.Increasing Prod.fst l) :
    (kept gt view l).Nodup := by
  rw [kept, (List.mergeSort_perm _ _).nodup_iff, List.nodup_append', scan_pass, List.nil_append]
  refine ⟨?_, ?_, ?_⟩
  · refine List.Nodup.map_on ?_ (List.Nodup.of_map _ (nodup_scan_nil l))
    intro p hp q hq hpq
    have hp' := (view_of_standing (standing_of_mem_scan hp)).2
    have hq' := (view_of_standing (standing_of_mem_scan hq)).2
    rw [hpq] at hp'
    obtain ⟨hk, hs⟩ := Prod.mk.inj (Option.some.inj (hp'.symm.trans hq'))
    exact Prod.ext hk (Prod.ext hpq hs)
  · exact List.Nodup.filter _ (hl.imp fun {a b} hab heq ↦ by
      subst heq
      exact lt_irrefl _ hab)
  · intro e he hpass
    obtain ⟨p, hp, rfl⟩ := List.mem_map.mp he
    rw [List.mem_filter, (view_of_standing (standing_of_mem_scan hp)).2] at hpass
    exact Bool.false_ne_true hpass.2

theorem mem_of_mem_kept {l : List (Placed α)} {e : Placed α} (h : e ∈ kept gt view l) : e ∈ l :=
  (mem_kept.mp h).elim And.left fun ⟨_, _, h⟩ ↦ (view_of_standing h).1

theorem kept_increasing {l : List (Placed α)} (hl : Table.Increasing Prod.fst l) :
    Table.Increasing Prod.fst (kept gt view l) := by
  have htrans : ∀ a b c : Placed α, decide (a.1 ≤ b.1) = true → decide (b.1 ≤ c.1) = true →
      decide (a.1 ≤ c.1) = true := fun a b c hab hbc ↦
    decide_eq_true ((of_decide_eq_true hab).trans (of_decide_eq_true hbc))
  have htotal : ∀ a b : Placed α, (decide (a.1 ≤ b.1) || decide (b.1 ≤ a.1)) = true := fun a b ↦ by
    rw [Bool.or_eq_true, decide_eq_true_eq, decide_eq_true_eq]
    exact le_total a.1 b.1
  have hsorted : (kept gt view l).Pairwise fun a b ↦ a.1 ≤ b.1 :=
    (List.pairwise_mergeSort htrans htotal _).imp fun hab ↦ of_decide_eq_true hab
  refine List.Pairwise.imp_of_mem ?_ (hsorted.and (nodup_kept hl))
  rintro a b ha hb ⟨hle, hne⟩
  exact lt_of_le_of_ne hle fun heq ↦
    hne (hl.eq_of_key_eq (mem_of_mem_kept ha) (mem_of_mem_kept hb) heq)

/-- **What is kept is what wins.** -/
theorem kept_eq_filter {l : List (Placed α)} (hl : Table.Increasing Prod.fst l) :
    kept gt view l = l.filter fun e ↦ Wins gt view l e := by
  refine (kept_increasing hl).eq_of_mem_iff (hl.filter _) fun e ↦ ?_
  rw [mem_kept, List.mem_filter, decide_eq_true_eq]
  constructor
  · rintro (⟨he, hv⟩ | ⟨k, s, h⟩)
    · exact ⟨he, (wins_iff hl he).mpr (.inl hv)⟩
    · exact ⟨(view_of_standing h).1, (wins_iff hl (view_of_standing h).1).mpr (.inr ⟨k, s, h⟩)⟩
  · rintro ⟨he, hw⟩
    exact ((wins_iff hl he).mp hw).imp (fun hv ↦ ⟨he, hv⟩) id

/-- An item that shares its key with no other stands for it. -/
theorem standing_of_alone {l : List (Placed α)} {e : Placed α} {k : κ} {s : σ} (he : e ∈ l)
    (hv : view e = some (k, s)) (halone : ∀ x ∈ l, ∀ t, view x = some (k, t) → x = e) :
    standing gt view k l none = some (e, s) := by
  obtain ⟨w, hw⟩ := Option.isSome_iff_exists.mp
    (standing_isSome.mpr (.inr ⟨e, he, s, hv⟩) : (standing gt view k l none).isSome)
  obtain ⟨hmem, hview⟩ := view_of_standing hw
  have heq := halone w.1 hmem w.2 hview
  have hs : (k, w.2) = (k, s) := Option.some.inj (hview.symm.trans (heq ▸ hv))
  rw [hw, ← heq, ← (Prod.mk.inj hs).2]

/-- Where no two items share a key everything is kept. -/
theorem kept_eq_self {l : List (Placed α)} (hl : Table.Increasing Prod.fst l)
    (halone : ∀ e ∈ l, ∀ x ∈ l, ∀ k s t, view e = some (k, s) → view x = some (k, t) → x = e) :
    kept gt view l = l := by
  rw [kept_eq_filter hl, List.filter_eq_self]
  intro e he
  rw [decide_eq_true_eq, wins_iff hl he]
  cases hv : view e with
  | none => exact .inl rfl
  | some ks =>
    exact .inr ⟨ks.1, ks.2, standing_of_alone he hv fun x hx t hxt ↦
      halone e he x hx ks.1 ks.2 t hv hxt⟩

/-! ## The winners in place -/

/-- **What is in place and what is kept are the same items.** -/
theorem mem_inPlace {l : List (Placed α)} (hl : Table.Increasing Prod.fst l) {e : Placed α} :
    e ∈ inPlace gt view l ↔ e ∈ kept gt view l := by
  rw [inPlace, mem_kept, List.mem_map]
  constructor
  · rintro ⟨x, hx, rfl⟩
    have hmem : x ∈ l := (List.mem_filter.mp hx).1
    rw [champion]
    cases hv : view x with
    | none => exact .inl ⟨hmem, hv⟩
    | some ks =>
      obtain ⟨w, hw⟩ := Option.isSome_iff_exists.mp
        ((standing_isSome (k := ks.1)).mpr (.inr ⟨x, hmem, ks.2, hv⟩) :
          (standing gt view ks.1 l none).isSome)
      refine .inr ⟨ks.1, w.2, ?_⟩
      simp only [hw, Option.map_some, Option.getD_some]
  · rintro (⟨he, hv⟩ | ⟨k, s, h⟩)
    · refine ⟨e, List.mem_filter.mpr ⟨he, ?_⟩, ?_⟩
      · rw [decide_eq_true_eq, Opens, hv]
        trivial
      · rw [champion, hv]
    · obtain ⟨hmem, hv⟩ := view_of_standing h
      -- the first item of the key opens it
      obtain ⟨x, hx⟩ := Option.isSome_iff_exists.mp
        (List.find?_isSome.mpr ⟨e, hmem, decide_eq_true (congrArg (Option.map Prod.fst) hv)⟩ :
          (l.find? fun x ↦ decide ((view x).map Prod.fst = some k)).isSome)
      obtain ⟨hkey, before, after, rfl, hbefore⟩ := List.find?_eq_some_iff_append.mp hx
      rw [decide_eq_true_eq, Option.map_eq_some_iff] at hkey
      obtain ⟨⟨k', t⟩, hxv, rfl⟩ := hkey
      refine ⟨x, List.mem_filter.mpr ⟨List.mem_append_right _ List.mem_cons_self, ?_⟩, ?_⟩
      · rw [decide_eq_true_eq, Opens, hxv]
        intro y hy hyk
        rcases List.mem_append.mp hy with hy | hy
        · exact absurd (decide_eq_true hyk) (by simpa using hbefore y hy)
        · rcases List.mem_cons.mp hy with rfl | hy
          · exact le_rfl
          · exact le_of_lt ((List.pairwise_cons.mp (List.pairwise_append.mp hl).2.1).1 y hy)
      · rw [champion, hxv]
        simp only [h, Option.map_some, Option.getD_some]

/-- The winners in place are what is kept exactly when their positions increase. -/
theorem kept_eq_inPlace_iff {l : List (Placed α)} (hl : Table.Increasing Prod.fst l) :
    kept gt view l = inPlace gt view l ↔ Table.Increasing Prod.fst (inPlace gt view l) := by
  constructor
  · intro h
    rw [← h]
    exact kept_increasing hl
  · intro h
    exact (kept_increasing hl).eq_of_mem_iff h fun e ↦ (mem_inPlace hl).symm

/-- Two lists of items are the same list when they have the same values, where some items are told
apart by their values and the others are the same in both lists. -/
theorem eq_of_map_snd {A B : List (Placed α)} (hval : A.map Prod.snd = B.map Prod.snd)
    (told : α → Bool) (htold : ∀ a ∈ A, ∀ b ∈ B, a.2 = b.2 → told a.2 = true → a = b)
    (hrest : (A.filter fun e ↦ !told e.2) = B.filter fun e ↦ !told e.2) : A = B := by
  induction A generalizing B with
  | nil => exact (List.map_eq_nil_iff.mp hval.symm).symm
  | cons a A ih =>
    cases B with
    | nil => cases hval
    | cons b B =>
      obtain ⟨hab, hval⟩ := List.cons.inj hval
      have ih' := fun hrest ↦ ih hval (fun a ha b hb ↦
        htold a (List.mem_cons_of_mem _ ha) b (List.mem_cons_of_mem _ hb)) hrest
      cases ht : told a.2 with
      | true =>
        have heq := htold a List.mem_cons_self b List.mem_cons_self hab ht
        subst heq
        rw [List.filter_cons_of_neg (by simp [ht]), List.filter_cons_of_neg (by simp [ht])] at hrest
        rw [ih' hrest]
      | false =>
        have htb : told b.2 = false := by rw [← hab, ht]
        rw [List.filter_cons_of_pos (by simp [ht]),
          List.filter_cons_of_pos (by simp [htb])] at hrest
        obtain ⟨rfl, hrest'⟩ := List.cons.inj hrest
        rw [ih' hrest']

/-- Where the values tell the items apart that can have copies, the winners in place have the values
of what is kept only if the two are the same list. -/
theorem kept_eq_inPlace_of_values {l : List (Placed α)} (hl : Table.Increasing Prod.fst l)
    (told : α → Bool)
    (hkey : ∀ a ∈ l, ∀ b ∈ l, a.2 = b.2 → told a.2 = true →
      ∃ k, (view a).map Prod.fst = some k ∧ (view b).map Prod.fst = some k)
    (halone : ∀ e ∈ l, told e.2 = false → ∀ x ∈ l, ∀ k s t, view e = some (k, s) →
      view x = some (k, t) → x = e)
    (hval : (kept gt view l).map Prod.snd = (inPlace gt view l).map Prod.snd) :
    kept gt view l = inPlace gt view l := by
  -- an item that is alone in its key opens it, stands for it and is what stands in its place
  have hstands : ∀ e ∈ l, told e.2 = false →
      Opens view l e ∧ Wins gt view l e ∧ champion gt view l e = e := by
    intro e he ht
    rw [wins_iff hl he, Opens, champion]
    cases hv : view e with
    | none => exact ⟨trivial, .inl rfl, rfl⟩
    | some ks =>
      have h : standing gt view ks.1 l none = some (e, ks.2) :=
        standing_of_alone he hv fun x hx t hxt ↦ halone e he ht x hx ks.1 ks.2 t hv hxt
      refine ⟨fun x hx hxk ↦ ?_, .inr ⟨ks.1, ks.2, h⟩, ?_⟩
      · obtain ⟨⟨k, t⟩, hxt, rfl⟩ := Option.map_eq_some_iff.mp hxk
        rw [halone e he ht x hx ks.1 ks.2 t hv hxt]
      · simp only [h, Option.map_some, Option.getD_some]
  have hchampion : ∀ e ∈ l, told e.2 = true → told (champion gt view l e).2 = true := by
    intro e he ht
    by_contra hne
    rw [Bool.not_eq_true] at hne
    rw [champion] at hne
    cases hv : view e with
    | none =>
      obtain ⟨k, hk, -⟩ := hkey e he e he rfl ht
      rw [hv] at hk
      cases hk
    | some ks =>
      rw [hv] at hne
      dsimp only at hne
      cases hw : standing gt view ks.1 l none with
      | none =>
        rw [hw, Option.map_none, Option.getD_none, ht] at hne
        cases hne
      | some w =>
        rw [hw, Option.map_some, Option.getD_some] at hne
        obtain ⟨hmem, hview⟩ := view_of_standing hw
        rw [← halone w.1 hmem hne e he ks.1 w.2 ks.2 hview hv, ht] at hne
        cases hne
  refine eq_of_map_snd hval told ?_ ?_
  · intro a ha b hb hab ht
    rw [mem_inPlace hl] at hb
    obtain ⟨k, hka, hkb⟩ := hkey a (mem_of_mem_kept ha) b (mem_of_mem_kept hb) hab ht
    obtain ⟨⟨_, s⟩, hva, rfl⟩ := Option.map_eq_some_iff.mp hka
    obtain ⟨⟨k, t⟩, hvb, hk⟩ := Option.map_eq_some_iff.mp hkb
    obtain rfl : k = _ := hk
    exact eq_of_mem_kept ha hb hva hvb
  · rw [kept_eq_filter hl, List.filter_filter, inPlace, List.filter_map, List.filter_filter]
    have hleft : (l.filter fun e ↦ !told e.2 && decide (Wins gt view l e)) =
        l.filter fun e ↦ !told e.2 := List.filter_congr fun e he ↦ by
      cases ht : told e.2 with
      | true => rfl
      | false => simp [(hstands e he ht).2.1]
    have hright : (l.filter fun e ↦ ((fun e ↦ !told e.2) ∘ champion gt view l) e &&
        decide (Opens view l e)) = l.filter fun e ↦ !told e.2 := List.filter_congr fun e he ↦ by
      cases ht : told e.2 with
      | true => simp [hchampion e he ht]
      | false => simp [(hstands e he ht).1, (hstands e he ht).2.2, ht]
    have hsame : (l.filter fun e ↦ !told e.2).map (champion gt view l) =
        l.filter fun e ↦ !told e.2 := by
      refine (List.map_congr_left fun e he ↦ ?_).trans (List.map_id _)
      obtain ⟨he, ht⟩ := List.mem_filter.mp he
      exact (hstands e he (by simpa using ht)).2.2
    rw [hleft, hright, hsame]

/-! ## The order of the scores -/

section

variable {ρ : Type} [LinearOrder ρ] {rank : σ → ρ} {ranked : σ → Prop}

/-- The item comes before the other among the items of their key: its score is larger, or as large
and the item is not later. -/
def Beats (rank : σ → ρ) (w x : Placed α × σ) : Prop :=
  rank x.2 < rank w.2 ∨ (rank x.2 = rank w.2 ∧ w.1.1 ≤ x.1.1)

theorem Beats.refl (w : Placed α × σ) : Beats rank w w := .inr ⟨rfl, le_rfl⟩

theorem Beats.trans {w x y : Placed α × σ} (h : Beats rank w x) (h' : Beats rank x y) :
    Beats rank w y := by
  rcases h with h | ⟨h, hpos⟩ <;> rcases h' with h' | ⟨h', hpos'⟩
  · exact .inl (h'.trans h)
  · exact .inl (h' ▸ h)
  · exact .inl (h ▸ h')
  · exact .inr ⟨h'.trans h, hpos.trans hpos'⟩

/-- **What stands for a key beats every item of it.** -/
theorem standing_beats (hgt : ∀ s t, ranked s → ranked t → (gt s t = true ↔ rank t < rank s))
    {k : κ} {l : List (Placed α)} (hl : Table.Increasing Prod.fst l)
    (hr : ∀ e ∈ l, ∀ s, view e = some (k, s) → ranked s) {old : Option (Placed α × σ)}
    (hold : ∀ p, old = some p → ranked p.2 ∧ ∀ e ∈ l, p.1.1 < e.1) {w : Placed α × σ}
    (h : standing gt view k l old = some w) :
    (∀ p, old = some p → Beats rank w p) ∧
      ∀ e ∈ l, ∀ s, view e = some (k, s) → Beats rank w (e, s) := by
  induction l generalizing old with
  | nil =>
    obtain rfl : old = some w := h
    exact ⟨fun p hp ↦ Option.some.inj hp ▸ .refl _, fun e he ↦ absurd he List.not_mem_nil⟩
  | cons e es ih =>
    obtain ⟨he, hes⟩ := List.pairwise_cons.mp hl
    have ih' := @ih hes fun x hx ↦ hr x (List.mem_cons_of_mem _ hx)
    rw [standing] at h
    by_cases hk : ∃ s, view e = some (k, s)
    · obtain ⟨s, hv⟩ := hk
      have hrank := hr e List.mem_cons_self s hv
      rw [hv] at h
      dsimp only at h
      rw [if_pos rfl] at h
      -- the better of the two beats both
      have hbetter : ranked (better gt old (e, s)).2 ∧
          (∀ x ∈ es, (better gt old (e, s)).1.1 < x.1) ∧
          Beats rank (better gt old (e, s)) (e, s) ∧
          ∀ p, old = some p → Beats rank (better gt old (e, s)) p := by
        cases old with
        | none => exact ⟨hrank, he, .refl _, fun p hp ↦ by cases hp⟩
        | some p =>
          obtain ⟨hp, hpos⟩ := hold p rfl
          rw [better]
          split_ifs with hgt'
          · refine ⟨hrank, he, .refl _, fun q hq ↦ ?_⟩
            obtain rfl := Option.some.inj hq
            exact .inl ((hgt s p.2 hrank hp).mp hgt')
          · refine ⟨hp, fun x hx ↦ hpos x (List.mem_cons_of_mem _ hx), ?_, fun q hq ↦ ?_⟩
            · have hle : rank s ≤ rank p.2 :=
                not_lt.mp fun hlt ↦ hgt' ((hgt s p.2 hrank hp).mpr hlt)
              exact hle.lt_or_eq.imp id fun heq ↦ ⟨heq, (hpos e List.mem_cons_self).le⟩
            · obtain rfl := Option.some.inj hq
              exact .refl _
      obtain ⟨hb, hbpos, hbe, hbold⟩ := hbetter
      obtain ⟨hw, hrest⟩ := ih' (fun p hp ↦ by
        obtain rfl := Option.some.inj hp
        exact ⟨hb, hbpos⟩) h
      refine ⟨fun p hp ↦ (hw _ rfl).trans (hbold p hp), fun x hx t hxt ↦ ?_⟩
      rcases List.mem_cons.mp hx with rfl | hx
      · have ht : t = s := (Prod.mk.inj (Option.some.inj (hxt.symm.trans hv))).2
        rw [ht]
        exact (hw _ rfl).trans hbe
      · exact hrest x hx t hxt
    · have hskip : standing gt view k es old = some w := by
        cases hv : view e with
        | none =>
          rw [hv] at h
          exact h
        | some ks =>
          rw [hv] at h
          dsimp only at h
          rwa [if_neg fun hks ↦ hk ⟨ks.2, by rw [hv, ← hks]⟩] at h
      obtain ⟨hw, hrest⟩ := ih' (fun p hp ↦
        ⟨(hold p hp).1, fun x hx ↦ (hold p hp).2 x (List.mem_cons_of_mem _ hx)⟩) hskip
      refine ⟨hw, fun x hx t hxt ↦ ?_⟩
      rcases List.mem_cons.mp hx with rfl | hx
      · exact absurd ⟨t, hxt⟩ hk
      · exact hrest x hx t hxt

end

end

end KeepBest
