import HsUploader.Daemon.Assembled

/-!
# Names and keys of a build

`admitAll` lets a file's pipelines in only when none of their names and keys is taken.  `Claimed.Of`
says that the two dicts hold exactly the names and keys of some pipelines; every step of a build
keeps it, for the legacy pipelines and those of the files accepted so far.

## What is here

* `Differ` and `Apart` — different names and keys, asked of two pipelines unless both are legacy
  ones; legacy pipelines that collide are all kept, as the source says.
* `collision_eq_none` and `admit_of` — one pipeline, and the pipelines of one file.
* `Desk.Sound` — the invariant of the loop over the files, accepted files and free slots alike.
* `Assembled.sound` — the step from one build to the next.
-/

set_option autoImplicit false

namespace HsUploader
namespace Daemon

open Prog

variable {h : Host}

/-- Two pipelines with different names and different send-record keys. -/
def Differ (p q : Pipeline) : Prop := p.name ≠ q.name ∧ p.key ≠ q.key

theorem Differ.symm {p q : Pipeline} (hd : Differ p q) : Differ q p := ⟨hd.1.symm, hd.2.symm⟩

/-- Two pipelines that differ when one of them comes from a pipeline file. -/
def Apart (p q : Pipeline) : Prop := p.origin ≠ LEGACY ∨ q.origin ≠ LEGACY → Differ p q

theorem Apart.symm {p q : Pipeline} (ha : Apart p q) : Apart q p := fun hq ↦ (ha hq.symm).symm

/-- The dicts hold exactly the names and the keys of the pipelines. -/
structure Claimed.Of (c : Claimed) (ps : List Pipeline) : Prop where
  name : ∀ p ∈ ps, (Table.lookup p.name c.names).isSome
  key : ∀ p ∈ ps, ∃ k, p.key = .ok k ∧ (Table.lookup k c.keys).isSome
  named : ∀ n p, Table.lookup n c.names = some p → ∃ q ∈ ps, q.name = n
  keyed : ∀ k p, Table.lookup k c.keys = some p → ∃ q ∈ ps, q.key = .ok k

theorem Claimed.of_nil : (⟨[], []⟩ : Claimed).Of [] :=
  ⟨by simp, by simp, by simp, by simp⟩

section lookup

variable {κ : Type} [DecidableEq κ] {k k' : κ} {p : Pipeline} {l : List (κ × Pipeline)}

theorem isSome_lookup_upsert (h : (Table.lookup k' l).isSome ∨ k' = k) :
    (Table.lookup k' (Table.upsert k p l)).isSome := by
  by_cases hk : k' = k
  · rw [hk, Table.lookup_upsert_self]
    rfl
  · rw [Table.lookup_upsert_of_ne _ _ hk]
    exact h.resolve_right hk

theorem lookup_upsert_some {v : Pipeline} (h : Table.lookup k' (Table.upsert k p l) = some v) :
    k' = k ∨ Table.lookup k' l = some v := by
  by_cases hk : k' = k
  · exact .inl hk
  · rw [Table.lookup_upsert_of_ne _ _ hk] at h
    exact .inr h

theorem isSome_lookup_setDefault (h : (Table.lookup k' l).isSome ∨ k' = k) :
    (Table.lookup k' (setDefault k p l)).isSome := by
  rw [setDefault]
  split
  · rename_i hs
    rcases h with h | rfl
    · exact h
    · exact hs
  · rename_i hs
    rw [Table.lookup_append_of_none (by simpa using hs)]
    split
    · rfl
    · rename_i hne
      exact h.resolve_right fun hk ↦ hne hk.symm

theorem lookup_setDefault_some {v : Pipeline} (h : Table.lookup k' (setDefault k p l) = some v) :
    k' = k ∨ Table.lookup k' l = some v := by
  rw [setDefault] at h
  split at h
  · exact .inr h
  · rename_i hs
    rw [Table.lookup_append_of_none (by simpa using hs)] at h
    split at h
    · rename_i hk
      exact .inl hk.symm
    · exact .inr h

end lookup

/-- Entering one more pipeline. -/
theorem Claimed.Of.enter {c c' : Claimed} {ps : List Pipeline} {p : Pipeline} {k : Key}
    (hc : c.Of ps) (hk : p.key = .ok k)
    (hname : ∀ n, ((Table.lookup n c.names).isSome ∨ n = p.name) →
      (Table.lookup n c'.names).isSome)
    (hkey : ∀ n, ((Table.lookup n c.keys).isSome ∨ n = k) → (Table.lookup n c'.keys).isSome)
    (hnamed : ∀ n v, Table.lookup n c'.names = some v →
      n = p.name ∨ Table.lookup n c.names = some v)
    (hkeyed : ∀ n v, Table.lookup n c'.keys = some v → n = k ∨ Table.lookup n c.keys = some v) :
    c'.Of (ps ++ [p]) where
  name q hq := by
    rcases List.mem_append.mp hq with hq | hq
    · exact hname _ (.inl (hc.name q hq))
    · rw [List.mem_singleton.mp hq]
      exact hname _ (.inr rfl)
  key q hq := by
    rcases List.mem_append.mp hq with hq | hq
    · obtain ⟨k', hk', hs⟩ := hc.key q hq
      exact ⟨k', hk', hkey _ (.inl hs)⟩
    · rw [List.mem_singleton.mp hq]
      exact ⟨k, hk, hkey _ (.inr rfl)⟩
  named n v hv := by
    rcases hnamed n v hv with rfl | hv
    · exact ⟨p, by simp, rfl⟩
    · obtain ⟨q, hq, hn⟩ := hc.named n v hv
      exact ⟨q, List.mem_append_left _ hq, hn⟩
  keyed n v hv := by
    rcases hkeyed n v hv with rfl | hv
    · exact ⟨p, by simp, hk⟩
    · obtain ⟨q, hq, hn⟩ := hc.keyed n v hv
      exact ⟨q, List.mem_append_left _ hq, hn⟩

theorem claimLegacy_of {ps qs : List Pipeline} {c c' : Claimed} (hc : c.Of qs)
    (hrun : claimLegacy ps c = .ok c') : c'.Of (qs ++ ps) := by
  induction ps generalizing c qs with
  | nil =>
    cases hrun
    simpa using hc
  | cons p ps ih =>
    rw [claimLegacy] at hrun
    obtain ⟨clash, -, hrun⟩ := exists_of_bind_eq_ok hrun
    obtain ⟨k, hk, hrun⟩ := exists_of_bind_eq_ok hrun
    have hc' : (⟨setDefault p.name p c.names, setDefault k p c.keys⟩ : Claimed).Of (qs ++ [p]) :=
      hc.enter hk (fun _ ↦ isSome_lookup_setDefault) (fun _ ↦ isSome_lookup_setDefault)
        (fun _ _ ↦ lookup_setDefault_some) fun _ _ ↦ lookup_setDefault_some
    have h := ih hc' hrun
    rwa [List.append_assoc, List.singleton_append] at h

/-- **A pipeline collides exactly when one already in holds its name or its key.** -/
theorem collision_eq_none {p : Pipeline} {qs : List Pipeline} {c : Claimed} (hc : c.Of qs)
    (h : collision p c = .ok none) : ∃ k, p.key = .ok k ∧ ∀ q ∈ qs, Differ q p := by
  rw [collision] at h
  split at h
  · cases h
  · rename_i hname
    obtain ⟨k, hk, h⟩ := exists_of_bind_eq_ok h
    split at h
    · cases h
    · rename_i hkey
      refine ⟨k, hk, fun q hq ↦ ⟨fun hn ↦ ?_, fun hn ↦ ?_⟩⟩
      · have hs := hc.name q hq
        rw [hn, hname] at hs
        cases hs
      · obtain ⟨k', hk', hs⟩ := hc.key q hq
        rw [hn, hk] at hk'
        cases hk'
        rw [hkey] at hs
        cases hs

theorem collision_eq_some {p : Pipeline} {qs : List Pipeline} {c : Claimed} {reason : String}
    (hc : c.Of qs) (h : collision p c = .ok (some reason)) : ∃ q ∈ qs, ¬ Differ q p := by
  rw [collision] at h
  split at h
  · rename_i other hname
    obtain ⟨q, hq, hn⟩ := hc.named _ _ hname
    exact ⟨q, hq, fun hd ↦ hd.1 hn⟩
  · obtain ⟨k, hk, h⟩ := exists_of_bind_eq_ok h
    split at h
    · rename_i other hkey
      obtain ⟨q, hq, hn⟩ := hc.keyed _ _ hkey
      exact ⟨q, hq, fun hd ↦ hd.2 (hn.trans hk.symm)⟩
    · cases h

theorem Claimed.Of.admitted {p : Pipeline} {qs : List Pipeline} {c : Claimed} {k : Key}
    (hc : c.Of qs) (hk : p.key = .ok k) :
    (⟨Table.upsert p.name p c.names, Table.upsert k p c.keys⟩ : Claimed).Of (qs ++ [p]) :=
  hc.enter hk (fun _ ↦ isSome_lookup_upsert) (fun _ ↦ isSome_lookup_upsert)
    (fun _ _ ↦ lookup_upsert_some) fun _ _ ↦ lookup_upsert_some

/-- **What is admitted differs from everything in, and from itself.** -/
theorem admit_of {ps qs : List Pipeline} {c c' : Claimed} (hc : c.Of qs)
    (hrun : admitAll ps c = .ok (.ok c')) :
    c'.Of (qs ++ ps) ∧ ps.Pairwise Differ ∧ ∀ q ∈ qs, ∀ p ∈ ps, Differ q p := by
  induction ps generalizing c qs with
  | nil =>
    cases hrun
    simpa using hc
  | cons p ps ih =>
    rw [admitAll] at hrun
    obtain ⟨clash, hclash, hrun⟩ := exists_of_bind_eq_ok hrun
    cases clash with
    | some reason => cases hrun
    | none =>
      obtain ⟨k, hk, hrun⟩ := exists_of_bind_eq_ok hrun
      obtain ⟨-, -, hdiffer⟩ := collision_eq_none hc hclash
      obtain ⟨hof, hpair, hcross⟩ := ih (hc.admitted hk) hrun
      rw [List.append_assoc, List.singleton_append] at hof
      refine ⟨hof, List.pairwise_cons.mpr ⟨fun q hq ↦ hcross p (by simp) q hq, hpair⟩, ?_⟩
      intro q hq p' hp'
      rcases List.mem_cons.mp hp' with rfl | hp'
      · exact hdiffer q hq
      · exact hcross q (List.mem_append_left _ hq) p' hp'

/-- Pipelines that differ among themselves are turned away only for one already in. -/
theorem admit_error {ps qs : List Pipeline} {c : Claimed} {reason : String} (hc : c.Of qs)
    (hrun : admitAll ps c = .ok (.error reason)) (hpair : ps.Pairwise Differ) :
    ∃ q ∈ qs, ∃ p ∈ ps, ¬ Differ q p := by
  induction ps generalizing c qs with
  | nil => cases hrun
  | cons p ps ih =>
    rw [admitAll] at hrun
    obtain ⟨clash, hclash, hrun⟩ := exists_of_bind_eq_ok hrun
    cases clash with
    | some reason =>
      obtain ⟨q, hq, hd⟩ := collision_eq_some hc hclash
      exact ⟨q, hq, p, List.mem_cons_self, hd⟩
    | none =>
      obtain ⟨k, hk, hrun⟩ := exists_of_bind_eq_ok hrun
      obtain ⟨q, hq, p', hp', hd⟩ := ih (hc.admitted hk) hrun hpair.of_cons
      rcases List.mem_append.mp hq with hq | hq
      · exact ⟨q, hq, p', List.mem_cons_of_mem _ hp', hd⟩
      · rw [List.mem_singleton.mp hq] at hd
        exact absurd (List.rel_of_pairwise_cons hpair hp') hd

/-! ## Over the files -/

/-- The slots accepted so far, in the order of acceptance. -/
def Desk.standing (d : Desk) : List Slot := d.accepted.flatMap Prod.snd

theorem Desk.inOrder_perm (d : Desk) : d.inOrder.Perm d.standing :=
  (List.perm_insertionSort _ _).flatMap_right _

theorem pipesOf_append (s t : List Slot) : pipesOf (s ++ t) = pipesOf s ++ pipesOf t :=
  List.flatMap_append

theorem mem_pipesOf {slots : List Slot} {p : Pipeline} :
    p ∈ pipesOf slots ↔ ∃ s ∈ slots, p ∈ s.pipes := List.mem_flatMap

/-- What every step of the loop keeps: all slots in hand are hatched, the dicts are those of the
legacy pipelines and the accepted ones, and an accepted pipeline differs from every other. -/
structure Desk.Sound (h : Host) (legacy : List Pipeline) (d : Desk) : Prop where
  pool : ∀ s ∈ d.pool, Hatched h s
  standing : ∀ s ∈ d.standing, Hatched h s
  claimed : d.claimed.Of (legacy ++ pipesOf d.standing)
  pairwise : (pipesOf d.standing).Pairwise Differ
  cross : ∀ q ∈ legacy, ∀ p ∈ pipesOf d.standing, Differ q p

theorem Desk.Sound.pool_perm {legacy : List Pipeline} {d : Desk} (hd : d.Sound h legacy)
    {pool : List Slot} (hp : pool.Perm d.pool) (refused : List Refusal) :
    Desk.Sound h legacy { d with pool, refused } :=
  ⟨fun s hs ↦ hd.pool s (hp.subset hs), hd.standing, hd.claimed, hd.pairwise, hd.cross⟩

/-- The slots of a filling are hatched, and so is what is left of the pool. -/
theorem Filling.hatched {as : List Ask} {pool pool' : List Slot} {b : Built}
    (hf : Filling h as pool {} pool' b) (hpool : ∀ s ∈ pool, Hatched h s) :
    (∀ s ∈ b.slots, Hatched h s) ∧ (∀ s ∈ pool', Hatched h s) ∧
      b.slots.map Slot.label = as.map Prod.fst := by
  obtain ⟨slots, taken, made, hslots, -, -, hl, hperm, hpp, hmade, -⟩ := hf.spec
  rw [List.nil_append] at hslots
  refine ⟨fun s hs ↦ ?_, fun s hs ↦ hpool s (hpp.symm.subset (List.mem_append_right _ hs)),
    by rw [hslots, hl]⟩
  rw [hslots] at hs
  rcases List.mem_append.mp (hperm.subset hs) with hs | hs
  · exact hpool s (hpp.symm.subset (List.mem_append_left _ hs))
  · exact hmade s hs

theorem Desk.Sound.accept {legacy : List Pipeline} {d d' : Desk} (hd : d.Sound h legacy)
    {origin : String} {entries : List Entry} (ha : Accepts h origin entries d d') :
    d'.Sound h legacy := by
  obtain ⟨b, pool, claimed, hf, hin, rfl⟩ := ha
  obtain ⟨hslots, hpool, -⟩ := hf.hatched hd.pool
  obtain ⟨hof, hpair, hcross⟩ := admit_of hd.claimed hin
  have hstanding : Desk.standing { d with
      pool, claimed
      accepted := d.accepted ++ [(origin, b.slots)]
      good := d.good ++ [(origin, entries)]
      fresh := d.fresh ++ b.fresh } = d.standing ++ b.slots := by
    simp [Desk.standing]
  constructor
  · exact hpool
  · rw [hstanding]
    intro s hs
    rcases List.mem_append.mp hs with hs | hs
    · exact hd.standing s hs
    · exact hslots s hs
  · rw [hstanding, pipesOf_append, ← List.append_assoc]
    exact hof
  · rw [hstanding, pipesOf_append, List.pairwise_append]
    exact ⟨hd.pairwise, hpair, fun q hq p hp ↦ hcross q (List.mem_append_right _ hq) p hp⟩
  · rw [hstanding, pipesOf_append]
    intro q hq p hp
    rcases List.mem_append.mp hp with hp | hp
    · exact hd.cross q hq p hp
    · exact hcross q (List.mem_append_left _ hq) p hp

theorem Desk.Sound.settle {legacy : List Pipeline} {d d' : Desk} (hd : d.Sound h legacy)
    {l : Layout} {prevGood : List (String × List Entry)} {origin : String}
    (hs : Settled h l prevGood origin d d') : d'.Sound h legacy := by
  cases hs with
  | built _ ha => exact hd.accept ha
  | kept _ hpool _ ha => exact (hd.pool_perm hpool _).accept ha
  | dropped _ hpool _ => exact hd.pool_perm hpool _

theorem Desk.Sound.settleAll {legacy : List Pipeline} {d d' : Desk} (hd : d.Sound h legacy)
    {l : Layout} {prevGood : List (String × List Entry)} {order : List String}
    (hs : SettledAll h l prevGood order d d') : d'.Sound h legacy := by
  induction hs with
  | nil d => exact hd
  | cons first _ ih => exact ih (hd.settle first)

/-- The desk the loop starts with. -/
theorem Desk.sound_start {legacy : Built} {pool prev : List Slot} {claimed : Claimed}
    {entries : List Entry} (hf : Filling h (legacyAsks entries) prev {} pool legacy)
    (hprev : ∀ s ∈ prev, Hatched h s)
    (hc : claimLegacy (pipesOf legacy.slots) {} = .ok claimed) :
    Desk.Sound h (pipesOf legacy.slots) { pool, claimed, fresh := legacy.fresh } where
  pool := (hf.hatched hprev).2.1
  standing := by simp [Desk.standing]
  claimed := by simpa [Desk.standing, pipesOf] using claimLegacy_of Claimed.of_nil hc
  pairwise := by simp [Desk.standing, pipesOf]
  cross := by simp [Desk.standing, pipesOf]

/-- The slots of the legacy entries are of the legacy origin, and so are their pipelines. -/
theorem Filling.legacy {entries : List Entry} {pool pool' : List Slot} {b : Built}
    (hf : Filling h (legacyAsks entries) pool {} pool' b) (hpool : ∀ s ∈ pool, Hatched h s) :
    (∀ s ∈ b.slots, s.origin = LEGACY) ∧ ∀ p ∈ pipesOf b.slots, p.origin = LEGACY := by
  obtain ⟨hslots, -, hl⟩ := hf.hatched hpool
  have horigin : ∀ s ∈ b.slots, s.origin = LEGACY := fun s hs ↦ by
    have hmem : s.label ∈ legacyLabels entries := by
      rw [← map_fst_legacyAsks, ← hl]
      exact List.mem_map_of_mem hs
    obtain ⟨e, -, he⟩ := List.mem_map.mp hmem
    exact (congrArg Prod.fst he).symm
  refine ⟨horigin, fun p hp ↦ ?_⟩
  obtain ⟨s, hs, hp⟩ := mem_pipesOf.mp hp
  rw [(hslots s hs).origin p hp, horigin s hs]

/-- What holds of every build: its slots are hatched, and two of its pipelines that are not both
legacy ones have different names and different keys. -/
structure Build.Sound (h : Host) (b : Build) : Prop where
  pipelines : b.pipelines = pipesOf b.slots
  hatched : ∀ s ∈ b.slots, Hatched h s
  apart : b.pipelines.Pairwise Apart

/-- **A build made from a sound one is sound.** -/
theorem Assembled.sound {l : Layout} {previous : Option Build} {b : Build}
    (hb : Assembled h l previous b) (hprev : ∀ a ∈ previous, a.Sound h) : b.Sound h := by
  obtain ⟨legacy, pool, claimed, d, hf, hc, hd, hslots, hpipes, -, -⟩ := hb
  have hpool : ∀ s ∈ previous.elim [] Build.slots, Hatched h s := by
    cases previous with
    | none => simp
    | some a => exact (hprev a rfl).hatched
  have hsound := (Desk.sound_start hf hpool hc).settleAll hd
  have hlegacy := hf.legacy hpool
  have hperm : (pipesOf (legacy.slots ++ d.inOrder)).Perm
      (pipesOf legacy.slots ++ pipesOf d.standing) := by
    rw [pipesOf_append]
    exact (d.inOrder_perm.flatMap_right _).append_left _
  refine ⟨hpipes, fun s hs ↦ ?_, ?_⟩
  · rw [hslots] at hs
    rcases List.mem_append.mp hs with hs | hs
    · exact (hf.hatched hpool).1 s hs
    · exact hsound.standing s (d.inOrder_perm.subset hs)
  · rw [hpipes, hslots, hperm.pairwise_iff (fun {_ _} ↦ Apart.symm), List.pairwise_append]
    refine ⟨List.pairwise_of_forall_mem_list fun p hp q hq hor ↦ ?_,
      hsound.pairwise.imp fun {p q} (hd : Differ p q) ↦ (fun _ ↦ hd : Apart p q),
      fun q hq p hp _ ↦ hsound.cross q hq p hp⟩
    rcases hor with hor | hor
    · exact absurd (hlegacy.2 p hp) hor
    · exact absurd (hlegacy.2 q hq) hor

end Daemon
end HsUploader
