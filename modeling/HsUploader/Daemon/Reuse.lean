import Mathlib.Data.List.Dedup
import HsUploader.Daemon.Lifecycle

/-!
# What a rebuild keeps

A build holds, for each file it accepted, slots with the labels of the file's entries
(`Build.Aligned`).  So when the same entries are built again the pool has every label they ask for,
nothing is built anew, and the slots drawn are the file's own.  What is left to go wrong is a
collision, with a pipeline that was taken up before.

## What is here

* `slotsAt` — the slots of one origin in a build.
* `Build.Aligned` and `Desk.Ledger` — each accepted file has slots with the labels of its entries,
  in the previous build and in the one under way.
* `Effect` — settling one file leaves the slots of the others alone.
* `Owned` and `Owned.draws` — what a file's slots promise while they are free: the same entries draw
  the same slots, in their order.
* `Settled.outcome` — the three things that can become of such a file.
-/

set_option autoImplicit false

namespace HsUploader
namespace Daemon

open Prog

variable {h : Host}

/-! ## The slots of one origin -/

/-- The slots of one origin. -/
def slotsAt (slots : List Slot) (origin : String) : List Slot :=
  slots.filter fun s ↦ s.origin = origin

theorem slotsAt_append (s t : List Slot) (origin : String) :
    slotsAt (s ++ t) origin = slotsAt s origin ++ slotsAt t origin := List.filter_append ..

theorem slotsAt_perm {s t : List Slot} (hp : s.Perm t) (origin : String) :
    (slotsAt s origin).Perm (slotsAt t origin) := hp.filter _

theorem slotsAt_self {slots : List Slot} {origin : String} (h : ∀ s ∈ slots, s.origin = origin) :
    slotsAt slots origin = slots := by
  refine List.filter_eq_self.mpr fun s hs ↦ ?_
  rw [decide_eq_true_eq]
  exact h s hs

theorem slotsAt_of_ne {slots : List Slot} {origin other : String}
    (h : ∀ s ∈ slots, s.origin = origin) (hne : other ≠ origin) : slotsAt slots other = [] := by
  refine List.filter_eq_nil_iff.mpr fun s hs ↦ ?_
  rw [decide_eq_true_eq]
  exact fun ho ↦ hne (ho.symm.trans (h s hs))

/-- Slots carry the origin of the labels they were filled for. -/
theorem origin_of_labels {slots : List Slot} {ls : List Label} {origin : String}
    (hl : slots.map Slot.label = ls) (hls : ∀ l ∈ ls, l.1 = origin) :
    ∀ s ∈ slots, s.origin = origin := fun s hs ↦ by
  have hmem : s.label ∈ ls := by
    rw [← hl]
    exact List.mem_map_of_mem hs
  exact hls _ hmem

theorem fileLabels_origin (origin : String) (entries : List Entry) :
    ∀ l ∈ fileLabels origin entries, l.1 = origin := fun l hl ↦ by
  obtain ⟨e, -, rfl⟩ := List.mem_map.mp hl
  rfl

theorem legacyLabels_origin (entries : List Entry) :
    ∀ l ∈ legacyLabels entries, l.1 = LEGACY := fun l hl ↦ by
  obtain ⟨e, -, rfl⟩ := List.mem_map.mp hl
  rfl

/-- Filling the labels of one origin leaves the pool's slots of every other. -/
theorem Filling.other {as : List Ask} {pool pool' : List Slot} {b : Built} {origin : String}
    (hf : Filling h as pool {} pool' b) (hls : ∀ l ∈ as.map Prod.fst, l.1 = origin) {other : String}
    (hne : other ≠ origin) : (slotsAt pool' other).Perm (slotsAt pool other) := by
  obtain ⟨slots, taken, made, -, -, -, hl, hperm, hpp, -, -⟩ := hf.spec
  have htaken : ∀ s ∈ taken, s.origin = origin := fun s hs ↦
    origin_of_labels hl hls s (hperm.symm.subset (List.mem_append_left _ hs))
  have hp := slotsAt_perm hpp other
  rw [slotsAt_append, slotsAt_of_ne htaken hne, List.nil_append] at hp
  exact hp.symm

/-- The labels of equal entries are the same. -/
theorem fileLabels_congr {es es' : List Entry} (origin : String)
    (he : es.map Entry.code = es'.map Entry.code) :
    fileLabels origin es = fileLabels origin es' := by
  have hfrom : ∀ (es es' : List Entry) (n : ℕ), es.map Entry.code = es'.map Entry.code →
      ((es.zipIdx n).map Prod.swap).map (labelOf origin) =
        ((es'.zipIdx n).map Prod.swap).map (labelOf origin) := by
    intro es
    induction es with
    | nil =>
      intro es' n he
      rw [List.map_nil, eq_comm, List.map_eq_nil_iff] at he
      rw [he]
    | cons e es ih =>
      intro es' n he
      cases es' with
      | nil => cases he
      | cons e' es' =>
        rw [List.map_cons, List.map_cons, List.cons.injEq] at he
        have hindex : namingIndex e n = namingIndex e' n := by
          rw [namingIndex, namingIndex, Entry.has_eq he.1, Entry.has_eq he.1]
        simp only [List.zipIdx_cons, List.map_cons, ih es' (n + 1) he.2, labelOf, Prod.swap_prod_mk,
          hindex, he.1]
  exact hfrom es es' 0 he

/-! ## The files accepted -/

/-- The files accepted so far are among those done, each with slots that carry the labels of the
entries recorded for it. -/
def Desk.Ledger (done : List String) (d : Desk) : Prop :=
  ∀ o, slotsAt d.standing o = (d.accepted.lookup o).getD [] ∧
    (d.accepted.lookup o).map (List.map Slot.label) = (d.good.lookup o).map (fileLabels o) ∧
    ((d.accepted.lookup o).isSome → o ∈ done)

/-- What settling one file does to the desk: the other files' free slots stay, and at most one entry
is made, for this file. -/
structure Effect (origin : String) (d d' : Desk) : Prop where
  pool : ∀ o, o ≠ origin → (slotsAt d'.pool o).Perm (slotsAt d.pool o)
  entered : d'.accepted = d.accepted ∧ d'.good = d.good ∨
    ∃ slots entries, d'.accepted = d.accepted ++ [(origin, slots)] ∧
      d'.good = d.good ++ [(origin, entries)] ∧ slots.map Slot.label = fileLabels origin entries

theorem Accepts.effect {origin : String} {entries : List Entry} {d d' : Desk}
    (ha : Accepts h origin entries d d') : Effect origin d d' := by
  obtain ⟨b, pool, claimed, hf, -, rfl⟩ := ha
  obtain ⟨slots, taken, made, hslots, -, -, hl, -⟩ := hf.spec
  refine ⟨fun o ho ↦ hf.other (map_fst_fileAsks origin entries ▸ fileLabels_origin origin entries) ho,
    .inr ⟨b.slots, entries, rfl, rfl, ?_⟩⟩
  rw [hslots, ← map_fst_fileAsks]
  exact hl

theorem Settled.effect {l : Layout} {prevGood : List (String × List Entry)} {origin : String}
    {d d' : Desk} (hs : Settled h l prevGood origin d d') : Effect origin d d' := by
  cases hs with
  | built _ ha => exact ha.effect
  | kept _ hpool _ ha =>
    obtain ⟨hp, he⟩ := ha.effect
    exact ⟨fun o ho ↦ (hp o ho).trans (slotsAt_perm hpool o), he⟩
  | dropped _ hpool _ => exact ⟨fun o _ ↦ slotsAt_perm hpool o, .inl ⟨rfl, rfl⟩⟩

theorem Desk.Ledger.step {done : List String} {origin : String} {d d' : Desk}
    (hd : d.Ledger done) (hnew : origin ∉ done) (he : Effect origin d d') :
    d'.Ledger (done ++ [origin]) := by
  intro o
  obtain ⟨hslots, hlabels, hin⟩ := hd o
  rcases he.entered with ⟨hacc, hgood⟩ | ⟨slots, entries, hacc, hgood, hl⟩
  · have hstanding : d'.standing = d.standing := by rw [Desk.standing, hacc, Desk.standing]
    rw [hstanding, hacc, hgood]
    exact ⟨hslots, hlabels, fun h ↦ List.mem_append_left _ (hin h)⟩
  · have hstanding : d'.standing = d.standing ++ slots := by
      rw [Desk.standing, hacc, List.flatMap_append, Desk.standing]
      simp
    have horigin := origin_of_labels hl (fileLabels_origin origin entries)
    rw [hstanding, slotsAt_append, hacc, hgood, List.lookup_append, List.lookup_append,
      Toml.lookup_cons_eq, Toml.lookup_cons_eq, List.lookup_nil, List.lookup_nil]
    by_cases ho : o = origin
    · subst ho
      have hnone : d.accepted.lookup o = none := by
        cases hlook : d.accepted.lookup o with
        | none => rfl
        | some v =>
          rw [hlook] at hin
          exact absurd (hin rfl) hnew
      rw [hnone] at hslots hlabels
      have hgood' : d.good.lookup o = none := Option.map_eq_none_iff.mp hlabels.symm
      rw [hslots, hnone, hgood', slotsAt_self horigin]
      simp [hl]
    · rw [slotsAt_of_ne horigin ho, List.append_nil, if_neg ho, if_neg ho, Option.or_none,
        Option.or_none]
      exact ⟨hslots, hlabels, fun h ↦ List.mem_append_left _ (hin h)⟩

theorem Desk.Ledger.settleAll {l : Layout} {prevGood : List (String × List Entry)}
    {done order : List String} {d d' : Desk} (hd : d.Ledger done)
    (hnodup : (done ++ order).Nodup) (hs : SettledAll h l prevGood order d d') :
    d'.Ledger (done ++ order) := by
  induction hs generalizing done with
  | nil d => simpa using hd
  | @cons origin order d d₁ d' first _ ih =>
    have hnew : origin ∉ done := fun hmem ↦
      (List.nodup_append.mp hnodup).2.2 origin hmem origin List.mem_cons_self rfl
    have h := ih (hd.step hnew first.effect) (by simpa using hnodup)
    simpa using h

theorem ledger_start (pool : List Slot) (claimed : Claimed) (fresh : List Pipeline) :
    Desk.Ledger [] { pool, claimed, fresh } := fun o ↦
  ⟨rfl, rfl, fun h ↦ absurd h (by simp)⟩

theorem Layout.order_nodup (l : Layout) (prevGood : List (String × List Entry)) :
    (l.order prevGood).Nodup := by
  have horigins : l.origins.Nodup :=
    (List.perm_insertionSort _ _).nodup_iff.mpr (List.nodup_dedup _)
  have hperm : (l.order prevGood).Perm l.origins :=
    List.filter_append_perm (l.unchanged prevGood ·) l.origins
  exact hperm.nodup_iff.mpr horigins

/-- A build holds, of each file it accepted, slots with the labels of the entries recorded for it,
and of no other file. -/
def Build.Aligned (b : Build) : Prop :=
  ∀ o, o ≠ LEGACY →
    ((slotsAt b.slots o).map Slot.label).Perm (((b.good.lookup o).map (fileLabels o)).getD [])

theorem Assembled.aligned {l : Layout} {previous : Option Build} {b : Build}
    (hb : Assembled h l previous b) : b.Aligned := by
  obtain ⟨legacy, pool, claimed, d, hf, -, hd, hslots, -, -, hgood⟩ := hb
  obtain ⟨slots, taken, made, hlegacy, -, -, hl, -⟩ := hf.spec
  rw [map_fst_legacyAsks] at hl
  have horigin : ∀ s ∈ legacy.slots, s.origin = LEGACY := by
    rw [hlegacy]
    exact origin_of_labels hl (legacyLabels_origin _)
  intro o ho
  obtain ⟨hstanding, hlabels, -⟩ := (ledger_start pool claimed legacy.fresh).settleAll
    (by simpa using l.order_nodup _) hd o
  have hp : (slotsAt b.slots o).Perm ((d.accepted.lookup o).getD []) := by
    rw [hslots, slotsAt_append, slotsAt_of_ne horigin ho, List.nil_append, ← hstanding]
    exact slotsAt_perm d.inOrder_perm o
  refine (hp.map Slot.label).trans ?_
  rw [hgood, ← hlabels]
  cases d.accepted.lookup o <;> exact .refl _

theorem Reached.aligned {manifest : Manifest} {s : State} (hs : Reached h manifest s) :
    s.self.build.Aligned := by
  have hdraft : ∀ {previous : Option Build} {w w' : World} {d : Draft},
      Drafted h manifest previous w w' d → d.build.Aligned := by
    rintro previous w w' d ⟨seen, strict, version, w₁, w₂, -, -, hrun, -⟩
    exact (wp_ok (wp_assemble _ previous strict w₁) hrun).aligned
  induction hs with
  | start hrun =>
    obtain ⟨draft, w, hd, -, -, hb, -⟩ := wp_ok (wp_start _) hrun
    rw [hb]
    exact hdraft hd
  | @rebuild s s' r hs hrun ih =>
    have hm := hs.sound.manifest
    have hwp := wp_rebuild (h := h) s
    rw [wp, hrun, hm] at hwp
    rcases r with b | e | _ | _
    · obtain ⟨draft, s₁, hk, hd, -, hc⟩ := hwp
      cases b with
      | true =>
        rw [if_pos rfl] at hc
        rw [hc.build]
        exact hdraft hd
      | false =>
        rw [Committed.build hc]
        exact hdraft hd
    · rcases hwp with hk | ⟨draft, s₁, hk, hd, hc⟩
      · rw [hk.build]
        exact ih
      · rw [hc.build]
        exact hdraft hd
    · exact hwp.elim
    · exact hwp.elim
  | other _ hk ih =>
    rw [hk.build]
    exact ih

/-! ## Building the same entries again -/

/-- What one file's slots in the previous build promise, while they are free. -/
structure Owned (origin : String) (last : List Entry) (own pool : List Slot) : Prop where
  free : (slotsAt pool origin).Perm own
  labels : (own.map Slot.label).Perm (fileLabels origin last)
  differ : (pipesOf own).Pairwise Differ

theorem Owned.pool_perm {origin : String} {last : List Entry} {own pool pool' : List Slot}
    (ho : Owned origin last own pool) (hp : pool'.Perm pool) : Owned origin last own pool' :=
  ⟨(slotsAt_perm hp origin).trans ho.free, ho.labels, ho.differ⟩

theorem Owned.subperm {origin : String} {last : List Entry} {own pool : List Slot}
    (ho : Owned origin last own pool) :
    (fileLabels origin last).Subperm (pool.map Slot.label) :=
  ((ho.labels.symm.trans (ho.free.map _).symm).subperm).trans
    (List.filter_sublist.map _).subperm

/-- **The same entries draw the same slots.** -/
theorem Owned.draws {origin : String} {last : List Entry} {own pool pool' : List Slot} {b : Built}
    (ho : Owned origin last own pool)
    (hf : Filling h (fileAsks origin last) pool {} pool' b) : b.slots.Perm own := by
  obtain ⟨slots, hdraw, hslots, -⟩ := hf.draw (by rw [map_fst_fileAsks]; exact ho.subperm)
  rw [map_fst_fileAsks] at hdraw
  have hp := (Pool.takeAll_filter_perm (q := fun l ↦ decide (l.1 = origin)) hdraw
    (ho.labels.symm.trans (ho.free.map _).symm)).1
  rw [hslots]
  exact hp.trans ho.free

theorem Accepts.own {origin : String} {last : List Entry} {own : List Slot} {d d' : Desk}
    (ha : Accepts h origin last d d') (ho : Owned origin last own d.pool) :
    ∃ slots, d'.accepted = d.accepted ++ [(origin, slots)] ∧ slots.Perm own := by
  obtain ⟨b, pool, claimed, hf, -, rfl⟩ := ha
  exact ⟨b.slots, rfl, ho.draws hf⟩

/-- They are turned away only for a pipeline already in. -/
theorem Rejects.clash {origin : String} {last : List Entry} {own : List Slot} {d d' : Desk}
    {legacy : List Pipeline} (hr : Rejects h origin last d d') (ho : Owned origin last own d.pool)
    (hd : d.Sound h legacy) :
    ∃ q ∈ legacy ++ pipesOf d.standing, ∃ p ∈ pipesOf own, ¬ Differ q p := by
  obtain ⟨pool, -, -, hlack | ⟨b, pool₁, reason, hf, hin⟩⟩ := hr
  · exact absurd ho.subperm hlack
  · have hp : (pipesOf b.slots).Perm (pipesOf own) := (ho.draws hf).flatMap_right _
    have hpair : (pipesOf b.slots).Pairwise Differ :=
      (hp.pairwise_iff fun {_ _} ↦ Differ.symm).mpr ho.differ
    obtain ⟨q, hq, p, hp', hd'⟩ := admit_error hd.claimed hin hpair
    exact ⟨q, hq, p, hp.subset hp', hd'⟩

/-- **What becomes of a file whose slots are free**: it is accepted with new entries; or with its
own slots; or it runs nothing, and one of its pipelines collides with one already in.  The first
only when it is not refused and its entries changed. -/
theorem Settled.outcome {l : Layout} {prevGood : List (String × List Entry)} {origin : String}
    {d d' : Desk} {legacy : List Pipeline} {last : List Entry} {own : List Slot}
    (hs : Settled h l prevGood origin d d') (hd : d.Sound h legacy)
    (hlast : prevGood.lookup origin = some last) (ho : Owned origin last own d.pool) :
    (d'.refused = d.refused ∧ l.unchanged prevGood origin = false) ∨
      (∃ slots, d'.accepted = d.accepted ++ [(origin, slots)] ∧ slots.Perm own) ∨
      d'.accepted = d.accepted ∧
        ∃ q ∈ legacy ++ pipesOf d.standing, ∃ p ∈ pipesOf own, ¬ Differ q p := by
  cases hs with
  | built hload ha =>
    cases hun : l.unchanged prevGood origin with
    | false =>
      obtain ⟨b, pool, claimed, -, -, rfl⟩ := ha
      exact .inl ⟨rfl, rfl⟩
    | true =>
      rw [Layout.unchanged, hlast, Bool.and_eq_true] at hun
      have hlabels : fileLabels origin (l.inFile origin) = fileLabels origin last :=
        fileLabels_congr origin (of_decide_eq_true hun.2).symm
      have ho' : Owned origin (l.inFile origin) own d.pool :=
        ⟨ho.free, by rw [hlabels]; exact ho.labels, ho.differ⟩
      exact .inr (.inl (ha.own ho'))
  | kept _ hpool hlast' ha =>
    rw [hlast] at hlast'
    cases hlast'
    exact .inr (.inl (ha.own (ho.pool_perm hpool)))
  | dropped _ hpool hwhy =>
    obtain ⟨pool₁, d₁, hpool₁, hr⟩ := hwhy last hlast
    exact .inr (.inr ⟨rfl, hr.clash (ho.pool_perm hpool₁) (hd.pool_perm hpool₁ _)⟩)

end Daemon
end HsUploader
