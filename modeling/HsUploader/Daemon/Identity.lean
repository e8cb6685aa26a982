import Mathlib.Data.Set.Basic
import HsUploader.Daemon.Lifecycle

/-!
# One identity, one pipeline

`Known w S` says that the pipelines of `S` were made before now and that their identities tell them
apart.  Whatever a build makes can be added to `S`; so over a daemon's life everything it holds has
one identity each, and two lists with the same identities are the same list.

## What is here

* `Known` — the invariant, of a moment and a set of pipelines.
* `withAll` — the set with the pipelines of a list beside it.
* `Desk.Tracked` — the loop over the files: what is accepted is known, or was made in this build.
* `wp_assemble_known` and `Reached.tracked` — a build, and a life.

`rebuild` compares pipelines by identity to see whether the running set has changed, and this is
what makes that comparison one of pipelines.
-/

set_option autoImplicit false

namespace HsUploader
namespace Daemon

open Prog

variable {h : Host}

/-- The pipelines of `S` were made before now, each with an identity of its own. -/
structure Known (w : World) (S : Set Pipeline) : Prop where
  born : ∀ p ∈ S, p.id < w.born
  inj : ∀ p ∈ S, ∀ q ∈ S, p.id = q.id → p = q

theorem Known.mono {w w' : World} {S T : Set Pipeline} (hk : Known w S) (hT : T ⊆ S)
    (hw : w.born ≤ w'.born) : Known w' T :=
  ⟨fun p hp ↦ (hk.born p (hT hp)).trans_le hw, fun p hp q hq ↦ hk.inj p (hT hp) q (hT hq)⟩

/-- The pipelines of `S` and those of a list. -/
def withAll (S : Set Pipeline) (ps : List Pipeline) : Set Pipeline := {p | p ∈ S ∨ p ∈ ps}

theorem subset_withAll (S : Set Pipeline) (ps : List Pipeline) : S ⊆ withAll S ps :=
  fun _ hp ↦ .inl hp

theorem withAll_append (S : Set Pipeline) (ps qs : List Pipeline) :
    withAll (withAll S ps) qs = withAll S (ps ++ qs) := by
  ext p
  simp only [withAll, Set.mem_ofPred_eq, List.mem_append, or_assoc]

/-- A pipeline with the next identity is a new one. -/
theorem Known.birth {w : World} {S : Set Pipeline} (hk : Known w S) {p : Pipeline}
    (hp : p.id = w.born) : Known { w with born := w.born + 1 } (withAll S [p]) where
  born q hq := by
    rcases hq with hq | hq
    · exact (hk.born q hq).trans (Nat.lt_succ_self _)
    · rw [List.mem_singleton.mp hq, hp]
      exact Nat.lt_succ_self _
  inj q hq r hr hid := by
    rcases hq with hq | hq <;> rcases hr with hr | hr
    · exact hk.inj q hq r hr hid
    · rw [List.mem_singleton.mp hr, hp] at hid
      exact absurd hid (hk.born q hq).ne
    · rw [List.mem_singleton.mp hq, hp] at hid
      exact absurd hid.symm (hk.born r hr).ne
    · rw [List.mem_singleton.mp hq, List.mem_singleton.mp hr]

theorem wp_enlist_known (entry : Entry) (origin : String) (ms : List Made) {w : World}
    {S : Set Pipeline} (hk : Known w S) :
    wp (enlist entry origin ms) (fun pipes w' ↦ Known w' (withAll S pipes)) (fun _ _ ↦ False)
      (fun _ ↦ False) w := by
  induction ms generalizing w S with
  | nil => exact hk.mono (fun p hp ↦ hp.resolve_right List.not_mem_nil) le_rfl
  | cons m ms ih =>
    rw [enlist, wp_bind, wp_present, wp_bind, wp_birth, wp_bind]
    refine wp_mono_ok (ih (hk.birth (p := ⟨w.born, w.now, m.name, entry.text "client" "",
      entry.flag "governed" true, origin, m.key, m.producer, m.heartbeat, m.initial, m.parts⟩) rfl)) ?_
    intro pipes w' hk'
    rw [wp_pure, ← List.singleton_append, ← withAll_append]
    exact hk'

theorem wp_buildOne_known (origin : String) (e : ℕ × Entry) {w : World} {S : Set Pipeline}
    (hk : Known w S) :
    wp (buildOne h origin e) (fun pipes w' ↦ Known w' (withAll S pipes)) (fun _ w' ↦ Known w' S)
      (fun _ ↦ False) w := by
  have hk' : Known { w with now := w.now + 1 } S := hk.mono le_rfl le_rfl
  unfold buildOne
  split
  · rw [wp_bind, wp_call]
    split
    · exact wp_mono (wp_enlist_known _ _ _ hk') (fun _ _ h ↦ h) (fun _ _ h ↦ h.elim) fun _ h ↦ h
    · exact hk'
  · rw [wp_bind, wp_call]
    split
    · exact wp_mono (wp_enlist_known _ _ _ hk') (fun _ _ h ↦ h) (fun _ _ h ↦ h.elim) fun _ h ↦ h
    · exact hk'

theorem wp_buildEach_known (strict : Bool) (es : List (ℕ × Entry)) (pool : List Slot) (b : Built)
    {w : World} {S : Set Pipeline} (hk : Known w (withAll S b.fresh)) :
    wp (buildEach h strict es pool b) (fun r w' ↦ Known w' (withAll S r.1.fresh))
      (fun _ w' ↦ Known w' S) (fun _ ↦ False) w := by
  induction es generalizing pool b w with
  | nil => exact hk
  | cons e es ih =>
    rw [buildEach]
    split
    · exact ih _ _ hk
    · rw [wp_bind, wp_attempt]
      refine wp_mono (wp_buildOne_known LEGACY e hk) (fun pipes w' hk' ↦ ?_) (fun err w' hk' ↦ ?_)
        fun _ h ↦ h
      · rw [withAll_append] at hk'
        exact ih _ _ hk'
      · dsimp only
        split
        · rw [wp_bind, closeQuietly, wp_modify, wp_raise]
          exact hk'.mono (subset_withAll _ _) le_rfl
        · refine ih _ _ ?_
          rw [Built.make, List.append_nil]
          exact hk'

theorem wp_buildFile_known (origin : String) (es : List (ℕ × Entry)) (pool : List Slot) (b : Built)
    {w : World} {S : Set Pipeline} (hk : Known w (withAll S b.fresh)) :
    wp (buildFile h origin es pool b)
      (fun r w' ↦ Known w' S ∧ ∀ b', r.1 = .ok b' → Known w' (withAll S b'.fresh))
      (fun _ _ ↦ False) (fun _ ↦ False) w := by
  induction es generalizing pool b w with
  | nil =>
    refine ⟨hk.mono (subset_withAll _ _) le_rfl, fun b' hb ↦ ?_⟩
    cases hb
    exact hk
  | cons e es ih =>
    rw [buildFile]
    split
    · exact ih _ _ hk
    · rw [wp_bind, wp_attempt]
      refine wp_mono (wp_buildOne_known origin e hk) (fun pipes w' hk' ↦ ?_) (fun err w' hk' ↦ ?_)
        fun _ h ↦ h
      · rw [withAll_append] at hk'
        exact ih _ _ hk'
      · dsimp only
        rw [wp_bind, closeQuietly, wp_modify, wp_pure]
        exact ⟨hk'.mono (subset_withAll _ _) le_rfl, fun b' hb ↦ by cases hb⟩

theorem wp_tryFile_known (origin : String) (entries : List Entry) (d : Desk) {w : World}
    {S : Set Pipeline} (hk : Known w (withAll S d.fresh)) :
    wp (tryFile h origin entries d) (fun r w' ↦ Known w' (withAll S r.2.fresh))
      (fun _ w' ↦ Known w' S) (fun _ ↦ False) w := by
  rw [tryFile, wp_bind]
  refine wp_mono (wp_buildFile_known origin (enumerate entries) d.pool {}
    (hk.mono (fun p hp ↦ hp.resolve_right List.not_mem_nil) le_rfl)) ?_
    (fun _ _ h ↦ h.elim) fun _ h ↦ h
  rintro ⟨built, pool⟩ w' ⟨hk', hfresh⟩
  cases built with
  | error reason => exact hk'
  | ok b =>
    dsimp only
    rw [wp_bind, wp_ofExcept]
    split
    · rename_i verdict hv
      cases verdict with
      | error reason =>
        dsimp only
        rw [wp_bind, closeQuietly, wp_modify, wp_pure]
        exact hk'.mono subset_rfl le_rfl
      | ok claimed =>
        dsimp only
        rw [wp_pure, ← withAll_append]
        exact hfresh b rfl
    · exact hk'.mono (subset_withAll _ _) le_rfl

theorem wp_keepLast_known (prevGood : List (String × List Entry)) (origin : String) (d : Desk)
    {w : World} {S : Set Pipeline} (hk : Known w (withAll S d.fresh)) :
    wp (keepLast h prevGood origin d) (fun d' w' ↦ Known w' (withAll S d'.fresh))
      (fun _ w' ↦ Known w' S) (fun _ ↦ False) w := by
  rw [keepLast]
  split
  · exact hk
  · rw [wp_bind]
    exact wp_mono_ok (wp_tryFile_known origin _ d hk) fun _ _ h ↦ h

theorem wp_settleFiles_known (l : Layout) (prevGood : List (String × List Entry))
    (order : List String) (d : Desk) {w : World} {S : Set Pipeline}
    (hk : Known w (withAll S d.fresh)) :
    wp (settleFiles h l prevGood order d) (fun d' w' ↦ Known w' (withAll S d'.fresh))
      (fun _ w' ↦ Known w' S) (fun _ ↦ False) w := by
  induction order generalizing d w with
  | nil => exact hk
  | cons origin order ih =>
    rw [settleFiles, wp_bind, settleFile]
    split
    · exact wp_mono_ok (wp_keepLast_known prevGood origin _ hk) fun d' w' hk' ↦ ih d' hk'
    · rw [wp_bind]
      refine wp_mono_ok (wp_tryFile_known origin _ d hk) ?_
      rintro ⟨verdict, d'⟩ w' hk'
      cases verdict with
      | ok u => exact ih d' hk'
      | error reason =>
        exact wp_mono_ok (wp_keepLast_known prevGood origin _ hk') fun d'' w'' hk'' ↦ ih d'' hk''

/-- The pipelines of the slots filled are those of the pool and the fresh ones. -/
theorem Filling.pipes {as : List Ask} {pool pool' : List Slot} {b b' : Built}
    (hf : Filling h as pool b pool' b') {S : Set Pipeline} (hpool : ∀ p ∈ pipesOf pool, p ∈ S)
    (hb : ∀ p ∈ pipesOf b.slots, p ∈ withAll S b.fresh) :
    (∀ p ∈ pipesOf b'.slots, p ∈ withAll S b'.fresh) ∧ ∀ p ∈ pipesOf pool', p ∈ S := by
  obtain ⟨slots, taken, made, hslots, -, hfresh, -, hperm, hpp, -, -⟩ := hf.spec
  refine ⟨fun p hp ↦ ?_, fun p hp ↦ hpool p ?_⟩
  · rw [hslots, pipesOf_append, List.mem_append] at hp
    rw [hfresh]
    rcases hp with hp | hp
    · exact (hb p hp).imp_right fun hp ↦ List.mem_append_left _ hp
    · have hp' := (hperm.flatMap_right Slot.pipes).subset hp
      rw [List.flatMap_append, List.mem_append] at hp'
      rcases hp' with hp' | hp'
      · refine .inl (hpool p ((hpp.flatMap_right Slot.pipes).symm.subset ?_))
        rw [List.flatMap_append]
        exact List.mem_append_left _ hp'
      · exact .inr (List.mem_append_right _ hp')
  · refine (hpp.flatMap_right Slot.pipes).symm.subset ?_
    rw [List.flatMap_append]
    exact List.mem_append_right _ hp

/-- What the loop over the files keeps: the pipelines accepted so far are known or fresh. -/
structure Desk.Tracked (S : Set Pipeline) (d : Desk) : Prop where
  pool : ∀ p ∈ pipesOf d.pool, p ∈ S
  standing : ∀ p ∈ pipesOf d.standing, p ∈ withAll S d.fresh

theorem Desk.Tracked.accept {S : Set Pipeline} {d d' : Desk} (hd : d.Tracked S) {origin : String}
    {entries : List Entry} (ha : Accepts h origin entries d d') : d'.Tracked S := by
  obtain ⟨b, pool, claimed, hf, -, rfl⟩ := ha
  obtain ⟨hslots, hpool⟩ := hf.pipes hd.pool (by simp [pipesOf])
  refine ⟨hpool, fun p hp ↦ ?_⟩
  simp only [Desk.standing, List.flatMap_append, List.flatMap_cons, List.flatMap_nil,
    List.append_nil] at hp
  rw [pipesOf_append, List.mem_append] at hp
  rcases hp with hp | hp
  · exact (hd.standing p hp).imp_right fun hp ↦ List.mem_append_left _ hp
  · exact (hslots p hp).imp_right fun hp ↦ List.mem_append_right _ hp

theorem Desk.Tracked.perm {S : Set Pipeline} {d : Desk} (hd : d.Tracked S) {pool : List Slot}
    (hp : pool.Perm d.pool) (refused : List Refusal) :
    Desk.Tracked S { d with pool, refused } :=
  ⟨fun p hmem ↦ hd.pool p ((hp.flatMap_right _).subset hmem), hd.standing⟩

theorem Desk.Tracked.settleAll {S : Set Pipeline} {d d' : Desk} (hd : d.Tracked S) {l : Layout}
    {prevGood : List (String × List Entry)} {order : List String}
    (hs : SettledAll h l prevGood order d d') : d'.Tracked S := by
  induction hs with
  | nil d => exact hd
  | cons first _ ih =>
    refine ih ?_
    cases first with
    | built _ ha => exact hd.accept ha
    | kept _ hpool _ ha => exact (hd.perm hpool _).accept ha
    | dropped _ hpool _ => exact hd.perm hpool _

/-- What was fresh stays among the fresh. -/
theorem SettledAll.fresh_subset {l : Layout} {prevGood : List (String × List Entry)}
    {order : List String} {d d' : Desk} (hs : SettledAll h l prevGood order d d') :
    d.fresh ⊆ d'.fresh := by
  have haccept : ∀ {origin : String} {entries : List Entry} {d d' : Desk},
      Accepts h origin entries d d' → d.fresh ⊆ d'.fresh := by
    rintro origin entries d d' ⟨b, pool, claimed, -, -, rfl⟩
    exact List.subset_append_left _ _
  induction hs with
  | nil d => exact List.Subset.refl _
  | cons first _ ih =>
    cases first with
    | built _ ha => exact fun p hp ↦ ih (haccept ha hp)
    | kept _ _ _ ha => exact fun p hp ↦ ih (haccept ha hp)
    | dropped _ _ _ => exact ih

/-- **A build keeps identities apart**: whatever is known before stays so, together with everything
the build holds. -/
theorem wp_assemble_known (l : Layout) (previous : Option Build) (strict : Bool) {w : World}
    {S : Set Pipeline} (hk : Known w S)
    (hprev : ∀ p ∈ pipesOf (previous.elim [] Build.slots), p ∈ S) :
    wp (assemble h l previous strict)
      (fun build w' ↦ ∃ T, S ⊆ T ∧ Known w' T ∧ ∀ p ∈ pipesOf build.slots, p ∈ T)
      (fun _ w' ↦ Known w' S) (fun _ ↦ False) w := by
  have hnil : Known w (withAll S (Built.fresh {})) :=
    hk.mono (fun p hp ↦ hp.resolve_right List.not_mem_nil) le_rfl
  have hlegacy : wp (buildLegacy h strict (l.inFile LEGACY) (previous.elim [] Build.slots))
      (fun r w' ↦ Known w' (withAll S r.1.fresh)) (fun _ w' ↦ Known w' S) (fun _ ↦ False) w := by
    rw [buildLegacy, wp_bind]
    refine wp_mono_ok (wp_buildEach_known strict _ _ {} hnil) fun g w' hg ↦ ?_
    exact wp_buildEach_known false _ _ _ hg
  rw [assemble, wp_bind]
  refine wp_mono (wp_and (wp_buildLegacy strict (l.inFile LEGACY) _ w) hlegacy) ?_
    (fun _ _ h ↦ h.2) fun _ h ↦ h.1
  rintro ⟨legacy, pool⟩ w₁ ⟨hf, hk₁⟩
  obtain ⟨hslots, hpool⟩ := hf.pipes hprev (by simp [pipesOf])
  dsimp only
  rw [wp_bind, wp_ofExcept]
  split
  · rename_i claimed hclaimed
    rw [wp_bind]
    refine wp_mono (wp_and (wp_settleFiles l _ _ _ w₁) (wp_settleFiles_known l _ _
      { pool, claimed, fresh := legacy.fresh } hk₁)) ?_ (fun _ _ h ↦ h.2) fun _ h ↦ h.1
    rintro d w₂ ⟨hd, hk₂⟩
    have htracked : Desk.Tracked S { pool, claimed, fresh := legacy.fresh } :=
      ⟨hpool, by simp [Desk.standing, pipesOf]⟩
    have hstanding := (htracked.settleAll hd).standing
    have hfresh := hd.fresh_subset
    refine ⟨withAll S d.fresh, subset_withAll _ _, hk₂, fun p hp ↦ ?_⟩
    rw [pipesOf_append, List.mem_append] at hp
    rcases hp with hp | hp
    · exact (hslots p hp).imp_right fun hp ↦ hfresh hp
    · exact hstanding p ((d.inOrder_perm.flatMap_right _).subset hp)
  · exact hk₁.mono (subset_withAll _ _) le_rfl

/-- What the daemon holds is known. -/
structure State.Tracked (s : State) (S : Set Pipeline) : Prop where
  known : Known s.world S
  build : ∀ p ∈ pipesOf s.self.build.slots, p ∈ S
  running : ∀ p ∈ s.self.running, p ∈ S

/-- A draft's pipelines are known, together with whatever was known before. -/
theorem Drafted.tracked {manifest : Manifest} {previous : Option Build} {w w' : World} {d : Draft}
    (hd : Drafted h manifest previous w w' d) {S : Set Pipeline} (hk : Known w S)
    (hprev : ∀ p ∈ pipesOf (previous.elim [] Build.slots), p ∈ S)
    (hsound : d.build.pipelines = pipesOf d.build.slots) :
    ∃ T, S ⊆ T ∧ Known w' T ∧ (∀ p ∈ pipesOf d.build.slots, p ∈ T) ∧ ∀ p ∈ d.running, p ∈ T := by
  obtain ⟨seen, strict, version, w₁, w₂, -, h₁, hrun, -, h₂, hrunning⟩ := hd
  obtain ⟨T, hST, hT, hpipes⟩ :=
    wp_ok (wp_assemble_known _ previous strict (hk.mono subset_rfl h₁.born) hprev) hrun
  refine ⟨T, hST, hT.mono subset_rfl h₂.born, hpipes, fun p hp ↦ hpipes p ?_⟩
  rw [hrunning] at hp
  rw [← hsound]
  exact (List.mem_filter.mp hp).1

/-- **Over a daemon's life an identity is one pipeline's.** -/
theorem Reached.tracked {manifest : Manifest} {s : State} (hs : Reached h manifest s) :
    ∃ S, s.Tracked S := by
  induction hs with
  | @start marker records s hrun =>
    obtain ⟨draft, w, hd, hle, hm, hb, -, hr, -⟩ := wp_ok (wp_start _) hrun
    have hempty : Known (State.initial manifest marker records).world ∅ := ⟨by simp, by simp⟩
    obtain ⟨T, -, hT, hpipes, hrunning⟩ := hd.tracked hempty (by simp [pipesOf])
      (hd.sound (by simp)).1.pipelines
    exact ⟨T, hT.mono subset_rfl hle.born, by rw [hb]; exact hpipes, by rw [hr]; exact hrunning⟩
  | @rebuild s s' r hs hrun ih =>
    obtain ⟨S, hS⟩ := ih
    have hsound := hs.sound.build
    have hdraft : ∀ {draft : Draft} {w : World},
        Drafted h s.self.manifest (some s.self.build) s.world w draft →
        ∃ T, S ⊆ T ∧ Known w T ∧ (∀ p ∈ pipesOf draft.build.slots, p ∈ T) ∧
          ∀ p ∈ draft.running, p ∈ T := fun hd ↦
      hd.tracked hS.known hS.build (hd.sound (by rintro b ⟨⟩; exact hsound)).1.pipelines
    have hwp := wp_rebuild (h := h) s
    rw [wp, hrun] at hwp
    rcases r with b | e | _ | _
    · obtain ⟨draft, s₁, hk, hd, -, hc⟩ := hwp
      obtain ⟨T, hST, hT, hpipes, hrunning⟩ := hdraft hd
      cases b with
      | true =>
        rw [if_pos rfl] at hc
        exact ⟨T, hT.mono subset_rfl hc.later.born, by rw [hc.build]; exact hpipes,
          by rw [hc.running]; exact hrunning⟩
      | false =>
        exact ⟨T, hT.mono subset_rfl hc.later.born, by rw [hc.build]; exact hpipes,
          by rw [hc.running]; exact fun p hp ↦ hST (hS.running p hp)⟩
    · rcases hwp with hk | ⟨draft, s₁, hk, hd, hc⟩
      · exact ⟨S, hS.known.mono subset_rfl hk.later.born, by rw [hk.build]; exact hS.build,
          by rw [hk.running]; exact hS.running⟩
      · obtain ⟨T, hST, hT, hpipes, -⟩ := hdraft hd
        exact ⟨T, hT.mono subset_rfl hc.later.born, by rw [hc.build]; exact hpipes,
          by rw [hc.running]; exact fun p hp ↦ hST (hS.running p hp)⟩
    · exact hwp.elim
    · exact hwp.elim
  | other _ hk ih =>
    obtain ⟨S, hS⟩ := ih
    exact ⟨S, hS.known.mono subset_rfl hk.later.born, by rw [hk.build]; exact hS.build,
      by rw [hk.running]; exact hS.running⟩

/-- Two lists of known pipelines with the same identities are the same list. -/
theorem Known.eq_of_ids {w : World} {S : Set Pipeline} (hk : Known w S) {ps qs : List Pipeline}
    (hps : ∀ p ∈ ps, p ∈ S) (hqs : ∀ q ∈ qs, q ∈ S)
    (hids : ps.map Pipeline.id = qs.map Pipeline.id) : ps = qs := by
  induction ps generalizing qs with
  | nil => simpa using hids.symm
  | cons p ps ih =>
    cases qs with
    | nil => cases hids
    | cons q qs =>
      rw [List.map_cons, List.map_cons, List.cons.injEq] at hids
      rw [hk.inj p (hps p List.mem_cons_self) q (hqs q List.mem_cons_self) hids.1,
        ih (fun p hp ↦ hps p (List.mem_cons_of_mem _ hp))
          (fun q hq ↦ hqs q (List.mem_cons_of_mem _ hq)) hids.2]

end Daemon
end HsUploader
