import HsUploader.Backlog.Summarize
import HsUploader.Library.Except
import HsUploader.Library.Grouping
import Mathlib.Data.List.Dedup
import Mathlib.Data.List.Pairwise

/-!
# What the backlog summary counts, and when it raises

The counts are tables collected from the rows (`Grouping.collect`), so each of them is a filtered
list's length.  What raises is a comparison of two values of two kinds, and there are three places
that compare: the newest time of a pipeline's dead letters, what superseded a cursor, and the names.
`summarize_honest_iff` says that the summary is answered, and counts right, where each of the three
finds values of one kind, and is raised over otherwise.

## What is here

* `Comparable`, `exists_sorted` and `pairwise_of_sorted` — values are sorted exactly where any two
  of them can be compared, as Python compares texts with texts and blobs with blobs.
* `Tallied` and `tally_iff` — the loop over the dead letters: what its dicts hold after any number
  of rows, and when it ends.
* `countedBy` and `setsBy` — the counts as lists that were filtered, which is what is read of them.
* `counted_pipelineReport` and `orphaned_eq` — the entries of the answer, and the dead letters that
  belong to no pipeline.
* `Reading.Sortable` — the three places where values are compared.

A file that cannot be opened or queried is reported as such and raises nothing: the errors of SQLite
are caught, and the comparisons are made after the last of them.
-/

set_option autoImplicit false

namespace HsUploader
namespace Backlog

/-! ## Comparing -/

/-- Whether a value is a text or a blob; NULL is neither. -/
def kind : Option Cell → Option Bool
  | none => none
  | some (.text _) => some true
  | some (.blob _) => some false

/-- Python compares the two. -/
def Comparable (x y : Option Cell) : Prop := kind x = kind y ∧ kind x ≠ none

instance : DecidableRel Comparable := fun x y ↦
  inferInstanceAs (Decidable (kind x = kind y ∧ kind x ≠ none))

theorem Comparable.symm {x y : Option Cell} (h : Comparable x y) : Comparable y x :=
  ⟨h.1.symm, h.1 ▸ h.2⟩

instance : Std.Symm Comparable := ⟨fun _ _ h ↦ h.symm⟩

theorem Comparable.trans {x y z : Option Cell} (h : Comparable x y) (h' : Comparable y z) :
    Comparable x z :=
  ⟨h.1.trans h'.1, h.2⟩

theorem comparable_some {c c' : Cell} :
    Comparable (some c) (some c') ↔ kind (some c) = kind (some c') := by
  refine and_iff_left ?_
  cases c <;> exact Option.some_ne_none _

theorem exists_less {x y : Option Cell} : (∃ b, less x y = .ok b) ↔ Comparable x y := by
  rcases x with _ | (_ | _) <;> rcases y with _ | (_ | _) <;> simp [less, Comparable, kind]

/-! ## Sorting -/

theorem exists_place {x : Option Cell} {ys : List (Option Cell)} (h : ∀ y ∈ ys, Comparable x y) :
    ∃ zs, place x ys = .ok zs ∧ zs.Perm (x :: ys) := by
  induction ys with
  | nil => exact ⟨_, rfl, .refl _⟩
  | cons y ys ih =>
    obtain ⟨b, hb⟩ := exists_less.mpr (h y List.mem_cons_self)
    obtain ⟨zs, hzs, hperm⟩ := ih fun z hz ↦ h z (List.mem_cons_of_mem y hz)
    rw [place, hb]
    cases b with
    | true => exact ⟨_, rfl, .refl _⟩
    | false =>
      refine ⟨y :: zs, ?_, (hperm.cons y).trans (.swap x y ys)⟩
      change (do
        let zs ← place x ys
        pure (y :: zs) : Except Exn _) = _
      rw [hzs]
      rfl

/-- A value that was placed was compared with the first one that stood there. -/
theorem comparable_of_place {x y : Option Cell} {ys zs : List (Option Cell)}
    (h : place x (y :: ys) = .ok zs) : Comparable x y := by
  refine exists_less.mp ?_
  rw [place] at h
  obtain ⟨b, hb, -⟩ := Except.bind_eq_ok.mp h
  exact ⟨b, hb⟩

/-- **Values are sorted where any two of them can be compared.** -/
theorem exists_sorted {xs : List (Option Cell)} (h : xs.Pairwise Comparable) :
    ∃ ys, sorted xs = .ok ys ∧ ys.Perm xs := by
  induction xs with
  | nil => exact ⟨[], rfl, .refl _⟩
  | cons x xs ih =>
    obtain ⟨hx, hxs⟩ := List.pairwise_cons.mp h
    obtain ⟨ys, hys, hperm⟩ := ih hxs
    obtain ⟨zs, hzs, hperm'⟩ := exists_place fun y hy ↦ hx y (hperm.mem_iff.mp hy)
    refine ⟨zs, ?_, hperm'.trans (hperm.cons x)⟩
    rw [sorted, hys]
    exact hzs

/-- **And only there.** -/
theorem pairwise_of_sorted {xs ys : List (Option Cell)} (h : sorted xs = .ok ys) :
    xs.Pairwise Comparable ∧ ys.Perm xs := by
  induction xs generalizing ys with
  | nil =>
    cases h
    exact ⟨.nil, .refl _⟩
  | cons x xs ih =>
    rw [sorted] at h
    obtain ⟨ws, hws, h⟩ := Except.bind_eq_ok.mp h
    obtain ⟨hxs, hperm⟩ := ih hws
    have hx : ∀ y ∈ xs, Comparable x y := by
      cases ws with
      | nil =>
        rw [hperm.symm.eq_nil]
        exact fun _ hy ↦ nomatch hy
      | cons w ws =>
        have hw := comparable_of_place h
        intro y hy
        rcases List.mem_cons.mp (hperm.mem_iff.mpr hy) with rfl | hmem
        · exact hw
        · have hsorted := (hperm.pairwise_iff fun h ↦ h.symm).mpr hxs
          exact hw.trans ((List.pairwise_cons.mp hsorted).1 y hmem)
    obtain ⟨zs, hzs, hperm'⟩ := exists_place fun y hy ↦ hx y (hperm.mem_iff.mp hy)
    cases h.symm.trans hzs
    exact ⟨List.pairwise_cons.mpr ⟨hx, hxs⟩, hperm'.trans (hperm.cons x)⟩

theorem exists_sorted_iff {xs : List (Option Cell)} :
    (∃ ys, sorted xs = .ok ys) ↔ xs.Pairwise Comparable := by
  constructor
  · rintro ⟨ys, hys⟩
    exact (pairwise_of_sorted hys).1
  · intro h
    obtain ⟨ys, hys, -⟩ := exists_sorted h
    exact ⟨ys, hys⟩

/-! ## Counting -/

section counting

variable {α β ι : Type} [DecidableEq α] [DecidableEq β]

/-- The items of each key, counted. -/
def countedBy (key : ι → α) (xs : List ι) : List (α × ℕ) :=
  Grouping.collect key (fun _ o ↦ o.getD 0 + 1) [] xs

/-- What is seen of the items of each key, as a set. -/
def setsBy (key : ι → α) (seen : ι → β) (xs : List ι) : List (α × List β) :=
  Grouping.collect key (fun x o ↦ (o.getD []).insert (seen x)) [] xs

theorem lookup_countedBy (key : ι → α) (xs : List ι) (k : α) :
    (Table.lookup k (countedBy key xs)).getD 0 = (xs.filter fun x ↦ key x = k).length := by
  rw [countedBy, Grouping.lookup_collect]
  induction xs.filter (fun x ↦ key x = k) using List.reverseRecOn with
  | nil => rfl
  | append_singleton xs x ih =>
    rw [List.foldl_append, List.length_append, ← ih]
    rfl

/-- The set of a key has each thing once that is seen of its items. -/
theorem mem_setsBy (key : ι → α) (seen : ι → β) (xs : List ι) (k : α) :
    ((Table.lookup k (setsBy key seen xs)).getD []).Nodup ∧
      ∀ b, b ∈ (Table.lookup k (setsBy key seen xs)).getD [] ↔
        b ∈ (xs.filter fun x ↦ key x = k).map seen := by
  rw [setsBy, Grouping.lookup_collect]
  induction xs.filter (fun x ↦ key x = k) using List.reverseRecOn with
  | nil => simp
  | append_singleton xs x ih =>
    obtain ⟨hnodup, hmem⟩ := ih
    rw [List.foldl_append]
    refine ⟨hnodup.insert, fun b ↦ ?_⟩
    rw [List.map_append, List.mem_append, ← hmem, List.map_singleton, List.mem_singleton]
    exact List.mem_insert_iff.trans or_comm

theorem length_setsBy (key : ι → α) (seen : ι → β) (xs : List ι) (k : α) :
    ((Table.lookup k (setsBy key seen xs)).getD []).length =
      ((xs.filter fun x ↦ key x = k).map seen).dedup.length := by
  obtain ⟨hnodup, hmem⟩ := mem_setsBy key seen xs k
  refine List.Perm.length_eq ((List.perm_ext_iff_of_nodup hnodup (List.nodup_dedup _)).mpr fun b ↦ ?_)
  rw [hmem, List.mem_dedup]

/-- Two ways of seeing that tell the same items apart see equally many things. -/
theorem length_dedup_map {γ : Type} [DecidableEq γ] {f : ι → β} {g : ι → γ} {xs : List ι}
    (h : ∀ x ∈ xs, ∀ y ∈ xs, f x = f y ↔ g x = g y) :
    (xs.map f).dedup.length = (xs.map g).dedup.length := by
  induction xs with
  | nil => rfl
  | cons x xs ih =>
    have hxs := ih fun y hy z hz ↦ h y (List.mem_cons_of_mem x hy) z (List.mem_cons_of_mem x hz)
    have hx : f x ∈ xs.map f ↔ g x ∈ xs.map g := by
      simp only [List.mem_map]
      refine exists_congr fun y ↦ and_congr_right fun hy ↦ ?_
      exact h y (List.mem_cons_of_mem x hy) x List.mem_cons_self
    rw [List.map_cons, List.map_cons]
    by_cases hmem : f x ∈ xs.map f
    · rw [List.dedup_cons_of_mem hmem, List.dedup_cons_of_mem (hx.mp hmem), hxs]
    · rw [List.dedup_cons_of_notMem hmem, List.dedup_cons_of_notMem fun hg ↦ hmem (hx.mpr hg),
        List.length_cons, List.length_cons, hxs]

/-- A value stored in the place of another changes a sum by the difference. -/
theorem sum_upsert (p : α → Bool) (k : α) (v : ℕ) (l : List (α × ℕ)) :
    (((Table.upsert k v l).filter fun x ↦ p x.1).map Prod.snd).sum +
        (if p k then (Table.lookup k l).getD 0 else 0) =
      ((l.filter fun x ↦ p x.1).map Prod.snd).sum + (if p k then v else 0) := by
  induction l with
  | nil => cases hp : p k <;> simp [Table.upsert, hp]
  | cons x l ih =>
    obtain ⟨k', v'⟩ := x
    rw [Table.upsert, Table.lookup]
    by_cases hk : k' = k
    · subst hk
      rw [if_pos rfl, if_pos rfl]
      cases hp : p k' <;> simp [hp]
      omega
    · rw [if_neg hk, if_neg hk]
      cases hp : p k'
      · simpa [hp] using ih
      · simp only [List.filter_cons, hp, if_true, List.map_cons, List.sum_cons]
        omega

/-- The counts of some of the keys add up to the number of their items. -/
theorem sum_countedBy (p : α → Bool) (key : ι → α) (xs : List ι) :
    (((countedBy key xs).filter fun x ↦ p x.1).map Prod.snd).sum =
      (xs.filter fun x ↦ p (key x)).length := by
  induction xs using List.reverseRecOn with
  | nil => rfl
  | append_singleton xs x ih =>
    have hsum := sum_upsert p (key x) ((Table.lookup (key x) (countedBy key xs)).getD 0 + 1)
      (countedBy key xs)
    rw [countedBy, Grouping.collect_concat, List.filter_append, List.length_append, ← ih]
    rw [countedBy] at hsum ⊢
    cases hp : p (key x) <;> simp [hp] at hsum ⊢ <;> omega

end counting

/-! ## The loop over the dead letters -/

section tally

variable (fromisoformat : String → Option Datetime) (cutoff : ℤ)

/-- The row counts as recent. -/
def DeadRow.recent (row : DeadRow) : Bool := isRecent fromisoformat row.ts cutoff

/-- What the dicts hold after these rows. -/
structure Tallied (rows : List DeadRow) (t : Tally) : Prop where
  counts : t.counts = countedBy DeadRow.pipeline rows
  sets : t.sets = setsBy DeadRow.pipeline DeadRow.datasetId rows
  recent : t.recent = countedBy DeadRow.pipeline (rows.filter (DeadRow.recent fromisoformat cutoff))
  setsRecent : t.setsRecent =
    setsBy DeadRow.pipeline DeadRow.datasetId (rows.filter (DeadRow.recent fromisoformat cutoff))
  newest_none : ∀ p, Table.lookup p t.newest = none → ∀ r ∈ rows, r.pipeline ≠ p
  newest_some : ∀ p ts, Table.lookup p t.newest = some ts → ∃ r ∈ rows, r.pipeline = p ∧ r.ts = ts

/-- The times of each pipeline's dead letters are all texts or all blobs. -/
def OneKind (rows : List DeadRow) : Prop :=
  ∀ r ∈ rows, ∀ r' ∈ rows, r.pipeline = r'.pipeline → kind (some r.ts) = kind (some r'.ts)

variable {fromisoformat cutoff}

theorem Tallied.nil : Tallied fromisoformat cutoff [] {} where
  counts := rfl
  sets := rfl
  recent := rfl
  setsRecent := rfl
  newest_none _ _ _ hr := nomatch hr
  newest_some _ _ h := nomatch h

/-- **One round of the loop keeps what the dicts hold.** -/
theorem Tallied.step {rows : List DeadRow} {t t' : Tally} {row : DeadRow}
    (h : Tallied fromisoformat cutoff rows t) (ht : tally fromisoformat cutoff t row = .ok t') :
    Tallied fromisoformat cutoff (rows ++ [row]) t' := by
  rw [tally] at ht
  obtain ⟨newest, hnewest, ht⟩ := Except.bind_eq_ok.mp ht
  obtain rfl := Except.pure_eq_ok.mp ht
  have hlookup (p : Cell) :
      Table.lookup p (if newest then Table.upsert row.pipeline row.ts t.newest else t.newest) =
        if newest = true ∧ p = row.pipeline then some row.ts else Table.lookup p t.newest := by
    cases newest with
    | true => simp only [if_true, Table.lookup_upsert, true_and]
    | false => simp only [Bool.false_eq_true, if_false, false_and]
  refine ⟨?_, ?_, ?_, ?_, fun p hp r hr ↦ ?_, fun p ts hp ↦ ?_⟩
  · rw [countedBy, Grouping.collect_concat, ← countedBy, ← h.counts]
    rfl
  · rw [setsBy, Grouping.collect_concat, ← setsBy, ← h.sets]
    rfl
  · rw [countedBy, Grouping.collect_filter_concat, ← countedBy, ← h.recent]
    rfl
  · rw [setsBy, Grouping.collect_filter_concat, ← setsBy, ← h.setsRecent]
    rfl
  · rw [hlookup] at hp
    split at hp
    · cases hp
    next hrow =>
      rcases List.mem_append.mp hr with hr | hr
      · exact h.newest_none p hp r hr
      · rw [List.mem_singleton.mp hr]
        rintro rfl
        rw [isNewest, hp] at hnewest
        cases hnewest
        exact hrow ⟨rfl, rfl⟩
  · rw [hlookup] at hp
    split at hp
    next hrow => exact ⟨row, by simp, hrow.2.symm, Option.some.inj hp⟩
    · obtain ⟨r, hr, hpipe, hts⟩ := h.newest_some p ts hp
      exact ⟨r, List.mem_append_left _ hr, hpipe, hts⟩

/-- The newest time so far is compared with the row's, and it is of one kind with all of the
pipeline's. -/
theorem Tallied.exists_tally {rows : List DeadRow} {t : Tally} {row : DeadRow}
    (h : Tallied fromisoformat cutoff rows t) (hrows : OneKind rows) :
    (∃ t', tally fromisoformat cutoff t row = .ok t') ↔ OneKind (rows ++ [row]) := by
  have hnewest : (∃ b, isNewest t.newest row = .ok b) ↔
      ∀ r ∈ rows, r.pipeline = row.pipeline → kind (some r.ts) = kind (some row.ts) := by
    rw [isNewest]
    cases hts : Table.lookup row.pipeline t.newest with
    | none =>
      exact iff_of_true ⟨true, rfl⟩ fun r hr he ↦ absurd he (h.newest_none _ hts r hr)
    | some ts =>
      obtain ⟨r, hr, hpipe, rfl⟩ := h.newest_some _ _ hts
      rw [exists_less, comparable_some]
      exact ⟨fun hk r' hr' he ↦ (hrows r' hr' r hr (he.trans hpipe.symm)).trans hk,
        fun hk ↦ hk r hr hpipe⟩
  have htally : (∃ t', tally fromisoformat cutoff t row = .ok t') ↔
      ∃ b, isNewest t.newest row = .ok b := by
    constructor
    · rintro ⟨t', ht⟩
      rw [tally] at ht
      obtain ⟨b, hb, -⟩ := Except.bind_eq_ok.mp ht
      exact ⟨b, hb⟩
    · rintro ⟨b, hb⟩
      rw [tally, hb]
      exact ⟨_, rfl⟩
  rw [htally, hnewest]
  constructor
  · intro hrow r hr r' hr' he
    rcases List.mem_append.mp hr with hr | hr <;> rcases List.mem_append.mp hr' with hr' | hr'
    · exact hrows r hr r' hr' he
    · rw [List.mem_singleton.mp hr'] at he ⊢
      exact hrow r hr he
    · rw [List.mem_singleton.mp hr] at he ⊢
      exact (hrow r' hr' he.symm).symm
    · rw [List.mem_singleton.mp hr, List.mem_singleton.mp hr']
  · exact fun hall r hr he ↦ hall r (List.mem_append_left _ hr) row (by simp) he

/-- **The loop ends where each pipeline's times are of one kind**, with the dicts as they should
be. -/
theorem tally_iff (rows : List DeadRow) :
    ((∃ t, rows.foldlM (tally fromisoformat cutoff) {} = .ok t) ↔ OneKind rows) ∧
      ∀ t, rows.foldlM (tally fromisoformat cutoff) {} = .ok t →
        Tallied fromisoformat cutoff rows t := by
  induction rows using List.reverseRecOn with
  | nil =>
    refine ⟨iff_of_true ⟨_, rfl⟩ fun _ hr ↦ (nomatch hr), fun t ht ↦ ?_⟩
    cases ht
    exact Tallied.nil
  | append_singleton rows row ih =>
    obtain ⟨hends, htallied⟩ := ih
    have hlast (t' : Tally) : (rows ++ [row]).foldlM (tally fromisoformat cutoff) {} = .ok t' ↔
        ∃ t, rows.foldlM (tally fromisoformat cutoff) {} = .ok t ∧
          tally fromisoformat cutoff t row = .ok t' := by
      rw [List.foldlM_append, Except.bind_eq_ok]
      simp only [List.foldlM_cons, List.foldlM_nil, bind_pure]
    refine ⟨⟨fun ⟨t', ht'⟩ ↦ ?_, fun hall ↦ ?_⟩, fun t' ht' ↦ ?_⟩
    · obtain ⟨t, ht, hrow⟩ := (hlast t').mp ht'
      exact ((htallied t ht).exists_tally (hends.mp ⟨t, ht⟩)).mp ⟨t', hrow⟩
    · have hrows : OneKind rows := fun r hr r' hr' ↦
        hall r (List.mem_append_left _ hr) r' (List.mem_append_left _ hr')
      obtain ⟨t, ht⟩ := hends.mpr hrows
      obtain ⟨t', hrow⟩ := ((htallied t ht).exists_tally hrows).mpr hall
      exact ⟨t', (hlast t').mpr ⟨t, ht, hrow⟩⟩
    · obtain ⟨t, ht, hrow⟩ := (hlast t').mp ht'
      exact (htallied t ht).step hrow

end tally

/-! ## Datasets -/

theorem DeadLetterRow.same_iff {d d' : DeadLetterRow} :
    d.same d' = true ↔ d.pipeline = d'.pipeline ∧ d.payload.compared = d'.payload.compared := by
  rw [DeadLetterRow.same, Bool.and_eq_true, decide_eq_true_iff, decide_eq_true_iff]

/-- A dataset's id is the id of a row with its pipeline and its payload. -/
theorem exists_of_datasetId {t : RowTable DeadLetterRow} {d : ℕ × DeadLetterRow}
    (h : d ∈ t.rows) : ∃ d₀ ∈ t.rows, d₀.2.same d.2 ∧ d₀.1 = datasetId t d ∧
      ((t.rows.filter fun d' ↦ d'.2.same d.2).map Prod.fst).min? = some (datasetId t d) := by
  cases hmin : ((t.rows.filter fun d' ↦ d'.2.same d.2).map Prod.fst).min? with
  | none =>
    have hempty := List.map_eq_nil_iff.mp (List.min?_eq_none_iff.mp hmin)
    have hself := List.filter_eq_nil_iff.mp hempty d h
    exact absurd (DeadLetterRow.same_iff.mpr ⟨rfl, rfl⟩) hself
  | some id =>
    have hid : datasetId t d = id := by rw [datasetId, hmin, Option.getD_some]
    obtain ⟨d₀, hd₀, rfl⟩ := List.mem_map.mp (List.min?_mem hmin)
    obtain ⟨hd₀, hsame⟩ := List.mem_filter.mp hd₀
    exact ⟨d₀, hd₀, hsame, hid.symm, by rw [hid]⟩

/-- **Within a pipeline, the dataset's id stands for the payload.** -/
theorem datasetId_eq_iff {t : RowTable DeadLetterRow} {d d' : ℕ × DeadLetterRow} (h : d ∈ t.rows)
    (h' : d' ∈ t.rows) (hpipe : d.2.pipeline = d'.2.pipeline) :
    datasetId t d = datasetId t d' ↔ d.2.payload.compared = d'.2.payload.compared := by
  obtain ⟨d₀, hd₀, hsame, hid, hmin⟩ := exists_of_datasetId h
  obtain ⟨d₁, hd₁, hsame', hid', hmin'⟩ := exists_of_datasetId h'
  rw [DeadLetterRow.same_iff] at hsame hsame'
  constructor
  · intro heq
    have hrow : d₀ = d₁ :=
      List.inj_on_of_nodup_map t.nodup_ids hd₀ hd₁ (hid.trans (heq.trans hid'.symm))
    rw [← hsame.2, hrow, hsame'.2]
  · intro heq
    have hrows : (fun x : ℕ × DeadLetterRow ↦ x.2.same d.2) = fun x ↦ x.2.same d'.2 := by
      funext x
      rw [DeadLetterRow.same, DeadLetterRow.same, hpipe, heq]
    rw [hrows, hmin'] at hmin
    exact (Option.some.inj hmin).symm

/-- How many payloads dead letters have. -/
def payloads (ds : List DeadLetterRow) : ℕ := (ds.map fun d ↦ d.payload.compared).dedup.length

theorem payloads_mono {ds ds' : List DeadLetterRow} (h : ds.Sublist ds') :
    payloads ds ≤ payloads ds' := by
  refine (List.subperm_of_subset (List.nodup_dedup _) fun c hc ↦ ?_).length_le
  rw [List.mem_dedup] at hc ⊢
  exact (h.map _).subset hc

/-- Dead letters of one pipeline have as many dataset ids as payloads. -/
theorem length_datasets {t : RowTable DeadLetterRow} {q : DeadLetterRow → Bool}
    (hq : ∀ d d', q d → q d' → d.pipeline = d'.pipeline) :
    ((t.rows.filter fun d ↦ q d.2).map (datasetId t)).dedup.length =
      payloads (t.contents.filter q) := by
  rw [payloads, RowTable.contents, List.filter_map, List.map_map]
  refine length_dedup_map fun d hd d' hd' ↦ ?_
  obtain ⟨hd, hqd⟩ := List.mem_filter.mp hd
  obtain ⟨hd', hqd'⟩ := List.mem_filter.mp hd'
  exact datasetId_eq_iff hd hd' (hq _ _ hqd hqd')

/-! ## The counts of a pipeline -/

/-- The dead letters of a pipeline. -/
def letters (r : Reading) (name : Option Cell) : List DeadLetterRow :=
  r.dead.contents.filter fun d ↦ some d.pipeline = name

/-- The rows of the query whose dead letters are such. -/
def rowsOf (t : RowTable DeadLetterRow) (q : DeadLetterRow → Bool) : List DeadRow :=
  (t.rows.filter fun d ↦ q d.2).map fun d ↦ ⟨d.2.pipeline, d.2.ts, datasetId t d⟩

theorem filter_rowsOf (t : RowTable DeadLetterRow) (q : DeadLetterRow → Bool) (p : Cell) :
    ((rowsOf t q).filter fun row ↦ row.pipeline = p) =
      rowsOf t fun d ↦ decide (some d.pipeline = some p) && q d := by
  rw [rowsOf, List.filter_map, List.filter_filter, rowsOf]
  simp only [Function.comp_def, Option.some.injEq]

theorem filter_letters (r : Reading) (q : DeadLetterRow → Bool) (name : Option Cell) :
    (letters r name).filter q =
      r.dead.contents.filter fun d ↦ decide (some d.pipeline = name) && q d := by
  rw [letters, List.filter_filter]
  simp only [Bool.and_comm]

/-- The rows of a pipeline are counted by their dead letters. -/
theorem getCount_countedBy (r : Reading) (q : DeadLetterRow → Bool) (name : Option Cell) :
    getCount id (countedBy DeadRow.pipeline (rowsOf r.dead q)) name =
      ((letters r name).filter q).length := by
  cases name with
  | none => simp [getCount, letters]
  | some p =>
    rw [getCount, Option.map_id, id, lookup_countedBy, filter_rowsOf, filter_letters, rowsOf,
      List.length_map, RowTable.contents, List.filter_map, List.length_map]
    rfl

/-- And the dataset ids by the payloads. -/
theorem getCount_setsBy (r : Reading) (q : DeadLetterRow → Bool) (name : Option Cell) :
    getCount List.length (setsBy DeadRow.pipeline DeadRow.datasetId (rowsOf r.dead q)) name =
      payloads ((letters r name).filter q) := by
  cases name with
  | none => simp [getCount, letters, payloads]
  | some p =>
    have hlen (o : Option (List ℕ)) : (o.map List.length).getD 0 = (o.getD []).length := by
      cases o <;> rfl
    rw [getCount, hlen, length_setsBy, filter_rowsOf, filter_letters, rowsOf, List.map_map]
    refine length_datasets (t := r.dead)
      (q := fun d ↦ decide (some d.pipeline = some p) && q d) fun d d' hd hd' ↦ ?_
    rw [Bool.and_eq_true, decide_eq_true_iff, Option.some.injEq] at hd hd'
    exact hd.1.trans hd'.1.symm

section report

variable (fromisoformat : String → Option Datetime) (cutoff : ℤ)

/-- Younger than the window, or of an age that cannot be read. -/
def Young (ts : Cell) : Prop :=
  ∀ s, ts = .text s → ∀ t, fromisoformat s = some t → cutoff ≤ t.instant

theorem isRecent_iff {ts : Cell} :
    isRecent fromisoformat ts cutoff = true ↔ Young fromisoformat cutoff ts := by
  rw [Young]
  cases ts with
  | blob b => simp [isRecent]
  | text s => cases h : fromisoformat s <;> simp [isRecent, h]

instance (ts : Cell) : Decidable (Young fromisoformat cutoff ts) :=
  decidable_of_iff _ (isRecent_iff fromisoformat cutoff)

/-- The young dead letters of a pipeline. -/
def young (r : Reading) (name : Option Cell) : List DeadLetterRow :=
  (letters r name).filter fun d ↦ Young fromisoformat cutoff d.ts

/-- What a pipeline's entry says of its dead letters is so. -/
structure PipelineReport.Counted (r : Reading) (p : PipelineReport) : Prop where
  deadLetters : p.deadLetterCount = (letters r p.name).length
  datasets : p.deadLetterDatasets = payloads (letters r p.name)
  recent : p.deadLetterRecentCount = (young fromisoformat cutoff r p.name).length
  recentDatasets : p.deadLetterRecentDatasets = payloads (young fromisoformat cutoff r p.name)
  recent_le : p.deadLetterRecentCount ≤ p.deadLetterCount
  recentDatasets_le : p.deadLetterRecentDatasets ≤ p.deadLetterDatasets

variable {fromisoformat cutoff} {r : Reading} {t : Tally}

theorem deadRows_eq : deadRows r.dead = rowsOf r.dead fun _ ↦ true := by
  rw [rowsOf, List.filter_true, deadRows]

theorem filter_deadRows : (deadRows r.dead).filter (DeadRow.recent fromisoformat cutoff) =
    rowsOf r.dead fun d ↦ Young fromisoformat cutoff d.ts := by
  rw [deadRows, List.filter_map, rowsOf]
  congr 1
  refine List.filter_congr fun d _ ↦ ?_
  rw [Function.comp_apply, DeadRow.recent, Bool.eq_iff_iff, isRecent_iff, decide_eq_true_iff]

/-- **Each entry counts what its pipeline has.** -/
theorem counted_pipelineReport (h : Tallied fromisoformat cutoff (deadRows r.dead) t)
    (name : Option Cell) : (pipelineReport r t name).Counted fromisoformat cutoff r := by
  have hcounts : getCount id t.counts name = (letters r name).length := by
    rw [h.counts, deadRows_eq, getCount_countedBy, List.filter_true]
  have hsets : getCount List.length t.sets name = payloads (letters r name) := by
    rw [h.sets, deadRows_eq, getCount_setsBy, List.filter_true]
  have hrecent : getCount id t.recent name = (young fromisoformat cutoff r name).length := by
    rw [h.recent, filter_deadRows, getCount_countedBy, young]
  have hsetsRecent :
      getCount List.length t.setsRecent name = payloads (young fromisoformat cutoff r name) := by
    rw [h.setsRecent, filter_deadRows, getCount_setsBy, young]
  refine ⟨hcounts, hsets, hrecent, hsetsRecent, ?_, ?_⟩
  · exact (hrecent.trans_le (List.length_filter_le _ _)).trans_eq hcounts.symm
  · exact (hsetsRecent.trans_le (payloads_mono List.filter_sublist)).trans_eq hsets.symm

/-- **The orphans are the dead letters whose pipeline has no row.** -/
theorem orphaned_eq (h : Tallied fromisoformat cutoff (deadRows r.dead) t) (hrows : r.states ≠ []) :
    orphaned r t =
      (r.dead.contents.filter fun d ↦ ∀ s ∈ r.states, s.name ≠ some d.pipeline).length := by
  rw [orphaned, if_neg (by simpa using hrows), h.counts,
    sum_countedBy (fun p ↦ (known r.states (some p)).isNone), deadRows, List.filter_map,
    List.length_map, RowTable.contents, List.filter_map, List.length_map]
  congr 1
  refine List.filter_congr fun d _ ↦ ?_
  rw [Function.comp_apply, Function.comp_apply, Bool.eq_iff_iff, Option.isNone_iff_eq_none, known,
    List.find?_eq_none, decide_eq_true_iff]
  simp only [List.mem_reverse, decide_eq_true_eq, ne_eq]

end report

/-! ## When it raises -/

/-- The file can be read, and this stands in it. -/
structure File.Holds (f : File) (r : Reading) : Prop where
  connect : f.connect = .ok ()
  watermarks : f.watermarks = .ok r.cursors
  deliverables : f.deliverables = .ok r.deliverables
  deadLetter : f.deadLetter = .ok r.dead
  superseded : optionalRows f.superseded = .ok r.superseded
  states : optionalRows f.states = .ok r.states
  lastSend : optionalRows f.lastSend = .ok r.lastSend
  close : f.close = .ok ()

theorem read_eq_ok {f : File} {r : Reading} : read f = .ok r ↔ f.Holds r := by
  constructor
  · intro h
    obtain ⟨⟨⟩, hconnect, h⟩ := Except.bind_eq_ok.mp h
    obtain ⟨⟨⟩, hclose, h⟩ := Except.bind_eq_ok.mp h
    obtain ⟨cursors, hcursors, h⟩ := Except.bind_eq_ok.mp h
    obtain ⟨deliverables, hdeliverables, h⟩ := Except.bind_eq_ok.mp h
    obtain ⟨dead, hdead, h⟩ := Except.bind_eq_ok.mp h
    obtain ⟨superseded, hsuperseded, h⟩ := Except.bind_eq_ok.mp h
    obtain ⟨states, hstates, h⟩ := Except.bind_eq_ok.mp h
    obtain ⟨lastSend, hlastSend, h⟩ := Except.bind_eq_ok.mp h
    obtain rfl := Except.pure_eq_ok.mp h
    exact ⟨hconnect, hcursors, hdeliverables, hdead, hsuperseded, hstates, hlastSend, hclose⟩
  · intro h
    rw [read, h.connect, queries, h.watermarks, h.deliverables, h.deadLetter, h.superseded,
      h.states, h.lastSend, h.close]
    rfl

/-- The names the answer lists. -/
def Reading.Names (r : Reading) (name : Option Cell) : Prop :=
  (∃ p ∈ r.deliverables, some p = name) ∨ (∃ d ∈ r.dead.contents, some d.pipeline = name) ∨
    ∃ s ∈ r.states, s.name = name

/-- What is compared is of one kind. -/
structure Reading.Sortable (r : Reading) : Prop where
  ages : ∀ d ∈ r.dead.contents, ∀ d' ∈ r.dead.contents, d.pipeline = d'.pipeline →
    Comparable (some d.ts) (some d'.ts)
  successors : ∀ c ∈ r.cursors, ∀ s ∈ r.superseded, ∀ s' ∈ r.superseded,
    (s.oldSourceId, s.oldDestId, s.oldTable) = (c.sourceId, c.destId, c.tableName) →
    (s'.oldSourceId, s'.oldDestId, s'.oldTable) = (c.sourceId, c.destId, c.tableName) →
    Comparable (some s.newSourceId) (some s'.newSourceId)
  names : ∀ n n', r.Names n → r.Names n' → n ≠ n' → Comparable n n'

theorem oneKind_iff {r : Reading} : OneKind (deadRows r.dead) ↔
    ∀ d ∈ r.dead.contents, ∀ d' ∈ r.dead.contents, d.pipeline = d'.pipeline →
      Comparable (some d.ts) (some d'.ts) := by
  simp only [OneKind, deadRows, RowTable.contents, List.forall_mem_map, comparable_some]

/-- What superseded a key. -/
theorem mem_successors {rows : List SupersededRow} {k : Cell × Cell × Cell} {c : Cell} :
    c ∈ (Table.lookup k (Backlog.successors rows)).getD [] ↔
      ∃ s ∈ rows, (s.oldSourceId, s.oldDestId, s.oldTable) = k ∧ s.newSourceId = c := by
  refine ((mem_setsBy (fun s : SupersededRow ↦ (s.oldSourceId, s.oldDestId, s.oldTable))
    SupersededRow.newSourceId rows k).2 c).trans ?_
  simp only [List.mem_map, List.mem_filter, decide_eq_true_eq, and_assoc]

/-- A cursor is reported where what superseded it can be sorted. -/
theorem exists_cursorReport {r : Reading} {c : CursorRow} :
    (∃ x, cursorReport (successors r.superseded) c = .ok x) ↔
      ∀ s ∈ r.superseded, ∀ s' ∈ r.superseded,
        (s.oldSourceId, s.oldDestId, s.oldTable) = (c.sourceId, c.destId, c.tableName) →
        (s'.oldSourceId, s'.oldDestId, s'.oldTable) = (c.sourceId, c.destId, c.tableName) →
        Comparable (some s.newSourceId) (some s'.newSourceId) := by
  have hreport : (∃ x, cursorReport (successors r.superseded) c = .ok x) ↔
      ∃ ys, sorted (((Table.lookup (c.sourceId, c.destId, c.tableName)
        (successors r.superseded)).getD []).map some) = .ok ys := by
    constructor
    · rintro ⟨x, hx⟩
      obtain ⟨ys, hys, -⟩ := Except.bind_eq_ok.mp hx
      exact ⟨ys, hys⟩
    · rintro ⟨ys, hys⟩
      rw [cursorReport, hys]
      exact ⟨_, rfl⟩
  rw [hreport, exists_sorted_iff, List.pairwise_map]
  constructor
  · intro h s hs s' hs' hkey hkey'
    have hall := (List.pairwise_map.mpr h).forall_of_forall fun x hx ↦ by
      obtain ⟨c, -, rfl⟩ := List.mem_map.mp hx
      exact comparable_some.mpr rfl
    exact hall (List.mem_map_of_mem (mem_successors.mpr ⟨s, hs, hkey, rfl⟩))
      (List.mem_map_of_mem (mem_successors.mpr ⟨s', hs', hkey', rfl⟩))
  · refine fun h ↦ List.pairwise_of_forall_mem_list fun n hn n' hn' ↦ ?_
    obtain ⟨s, hs, hkey, rfl⟩ := mem_successors.mp hn
    obtain ⟨s', hs', hkey', rfl⟩ := mem_successors.mp hn'
    exact h s hs s' hs' hkey hkey'

theorem mem_pipelineNames {fromisoformat : String → Option Datetime} {cutoff : ℤ} {r : Reading}
    {t : Tally} (h : Tallied fromisoformat cutoff (deadRows r.dead) t) {name : Option Cell} :
    name ∈ pipelineNames r t ↔ r.Names name := by
  have hdeliverables : name ∈ (deliverableCounts r.deliverables).map (some ·.1) ↔
      ∃ p ∈ r.deliverables, some p = name := by
    simp [deliverableCounts]
  have hcounts : name ∈ t.counts.map (some ·.1) ↔ ∃ d ∈ r.dead.contents, some d.pipeline = name := by
    have hkeys (p : Cell) : p ∈ t.counts.map Prod.fst ↔ ∃ d ∈ r.dead.contents, d.pipeline = p := by
      rw [h.counts, countedBy, Grouping.mem_keys_collect]
      simp only [deadRows, RowTable.contents, List.mem_map, exists_exists_and_eq_and, List.map_nil,
        List.not_mem_nil, false_or]
    constructor
    · intro hname
      obtain ⟨c, hc, rfl⟩ := List.mem_map.mp hname
      obtain ⟨d, hd, hpipe⟩ := (hkeys c.1).mp (List.mem_map_of_mem hc)
      exact ⟨d, hd, congrArg some hpipe⟩
    · rintro ⟨d, hd, rfl⟩
      obtain ⟨c, hc, hpipe⟩ := List.mem_map.mp ((hkeys d.pipeline).mpr ⟨d, hd, rfl⟩)
      exact List.mem_map.mpr ⟨c, hc, congrArg some hpipe⟩
  rw [pipelineNames, List.mem_dedup, List.mem_append, List.mem_append, hdeliverables, hcounts,
    List.mem_map, Reading.Names, or_assoc]

section honest

variable (fromisoformat : String → Option Datetime) (cutoff : ℤ)

/-- The answer counts what was read. -/
structure Counted (r : Reading) (pipelines : List PipelineReport) (orphaned : ℕ) : Prop where
  each : ∀ p ∈ pipelines, p.Counted fromisoformat cutoff r
  listed : ∀ d ∈ r.dead.contents, ∃ p ∈ pipelines, p.name = some d.pipeline
  orphaned : r.states ≠ [] →
    orphaned = (r.dead.contents.filter fun d ↦ ∀ s ∈ r.states, s.name ≠ some d.pipeline).length

/-- A dict is answered, and one that says the file is readable counts what stands there. -/
def Honest (f : File) : Prop :=
  ∃ s, summarize fromisoformat cutoff f = .ok s ∧
    ∀ pipelines cursors orphaned lastSend, s = .readable pipelines cursors orphaned lastSend →
      ∃ r, f.Holds r ∧ Counted fromisoformat cutoff r pipelines orphaned

variable {fromisoformat cutoff}

/-- **The counting raises unless what is compared is of one kind.** -/
theorem assemble_iff (r : Reading) :
    ((∃ s, assemble fromisoformat cutoff r = .ok s) ↔ r.Sortable) ∧
      ∀ s, assemble fromisoformat cutoff r = .ok s →
        ∃ pipelines cursors orphaned, s = .readable pipelines cursors orphaned r.lastSend ∧
          Counted fromisoformat cutoff r pipelines orphaned := by
  obtain ⟨hends, htallied⟩ := @tally_iff fromisoformat cutoff (deadRows r.dead)
  have hnames {t : Tally} (ht : Tallied fromisoformat cutoff (deadRows r.dead) t) :
      (pipelineNames r t).Pairwise Comparable ↔
        ∀ n n', r.Names n → r.Names n' → n ≠ n' → Comparable n n' := by
    simp only [← mem_pipelineNames ht]
    exact ⟨fun h n n' hn hn' hne ↦ h.forall hn hn' hne,
      fun h ↦ (List.nodup_dedup _).pairwise_of_forall_ne fun n hn n' hn' ↦ h n n' hn hn'⟩
  refine ⟨⟨fun ⟨s, hs⟩ ↦ ?_, fun h ↦ ?_⟩, fun s hs ↦ ?_⟩
  · obtain ⟨t, ht, hs⟩ := Except.bind_eq_ok.mp hs
    obtain ⟨cursors, hcursors, hs⟩ := Except.bind_eq_ok.mp hs
    obtain ⟨names, hsorted, -⟩ := Except.bind_eq_ok.mp hs
    refine ⟨oneKind_iff.mp (hends.mp ⟨t, ht⟩), fun c hc ↦ ?_, ?_⟩
    · exact exists_cursorReport.mp (Except.mapM_ok_iff.mp ⟨cursors, hcursors⟩ c hc)
    · exact (hnames (htallied t ht)).mp (exists_sorted_iff.mp ⟨names, hsorted⟩)
  · obtain ⟨t, ht⟩ := hends.mpr (oneKind_iff.mpr h.ages)
    obtain ⟨cursors, hcursors⟩ := Except.mapM_ok_iff.mpr fun c hc ↦
      exists_cursorReport.mpr (h.successors c hc)
    obtain ⟨names, hsorted⟩ := exists_sorted_iff.mpr ((hnames (htallied t ht)).mpr h.names)
    rw [assemble, ht, Except.ok_bind, hcursors, Except.ok_bind, hsorted]
    exact ⟨_, rfl⟩
  · obtain ⟨t, ht, hs⟩ := Except.bind_eq_ok.mp hs
    obtain ⟨cursors, hcursors, hs⟩ := Except.bind_eq_ok.mp hs
    obtain ⟨names, hsorted, hs⟩ := Except.bind_eq_ok.mp hs
    refine ⟨_, _, _, (Except.pure_eq_ok.mp hs).symm, ?_, fun d hd ↦ ?_,
      orphaned_eq (htallied t ht)⟩
    · rw [List.forall_mem_map]
      exact fun name _ ↦ counted_pipelineReport (htallied t ht) name
    · have hname := (mem_pipelineNames (htallied t ht)).mpr (.inr (.inl ⟨d, hd, rfl⟩))
      exact ⟨_, List.mem_map_of_mem ((pairwise_of_sorted hsorted).2.mem_iff.mpr hname), rfl⟩

/-- **The summary is answered, and counts right, where each thing that is compared finds values of
one kind, and is raised over otherwise.** -/
theorem summarize_honest_iff (f : File) :
    Honest fromisoformat cutoff f ↔ ∀ r, f.Holds r → r.Sortable := by
  constructor
  · rintro ⟨s, hs, -⟩ r hr
    rw [summarize, read_eq_ok.mpr hr] at hs
    exact (assemble_iff r).1.mp ⟨s, hs⟩
  · intro h
    cases hread : read f with
    | error e =>
      refine ⟨.unreadable e, by rw [summarize, hread], ?_⟩
      rintro _ _ _ _ ⟨⟩
    | ok r =>
      obtain ⟨s, hs⟩ := (@assemble_iff fromisoformat cutoff r).1.mpr (h r (read_eq_ok.mp hread))
      refine ⟨s, by rw [summarize, hread]; exact hs, fun pipelines cursors orphaned lastSend he ↦ ?_⟩
      obtain ⟨_, _, _, rfl, hcounted⟩ := (assemble_iff r).2 s hs
      cases he
      exact ⟨r, read_eq_ok.mp hread, hcounted⟩

/-- A row of `pipeline_state` without a name, beside a queued pipeline. -/
def unnamedState : File where
  watermarks := .ok []
  deliverables := .ok [.text "psk"]
  deadLetter := .ok .empty
  superseded := .ok []
  states := .ok [⟨none, .text "psk-recorder", .text ""⟩]
  lastSend := .ok []

/-- Such a file is raised over: `None` cannot be sorted among the names. -/
theorem summarize_unnamed_raises : ¬ Honest (fun _ ↦ none) 0 unnamedState := by
  rintro ⟨s, hs, -⟩
  have hholds : unnamedState.Holds
      ⟨[], [.text "psk"], .empty, [], [⟨none, .text "psk-recorder", .text ""⟩], []⟩ :=
    ⟨rfl, rfl, rfl, rfl, rfl, rfl, rfl, rfl⟩
  rw [summarize, read_eq_ok.mpr hholds] at hs
  have hsortable := (assemble_iff _).1.mp ⟨s, hs⟩
  have hnamed := hsortable.names none (some (.text "psk"))
    (.inr (.inr ⟨_, List.mem_cons_self, rfl⟩)) (.inl ⟨_, List.mem_cons_self, rfl⟩) nofun
  exact hnamed.2 rfl

end honest

end Backlog
end HsUploader
