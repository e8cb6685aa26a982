import HsUploader.Daemon.Lifecycle

/-!
# What a build closes

The pipelines one entry built are a *family*: they are made at one step, which is how their objects
are told from those of every other entry, and they stand in one slot.  `Tidy` is what every function
of `HsUploader.Daemon.Assemble` keeps: a family is one that stood before or a new one, two families
are of different entries, and what was closed belongs to none of them, being an object of an entry
that did not make it.

## What is here

* `Family` and `Tidy` — the pipelines of one entry, and the invariant of a build over families.
* `Newborn`, `Pending`, `Pending.close` — a family that is being built, and one that is closed again
  because its file was refused.
* `Filled` and `Desk.Placed` — the loops, and the desk of the loop over the files.
* `Build.Laid` and `Draft.Laid` — what is known of a build, and of the draft made with it.
* `leftOver` and `replaced` — what a rebuild closes itself, and what the uploader closes for it.
-/

set_option autoImplicit false

namespace HsUploader
namespace Daemon

open Prog

variable {h : Host}

theorem Pipeline.entry_of_mem {p : Pipeline} {o : Obj} (ho : o ∈ p.objects) : o.entry = p.entry := by
  rw [Pipeline.objects, List.mem_cons, List.mem_cons, List.mem_map] at ho
  rcases ho with rfl | rfl | ⟨n, -, rfl⟩
  · rfl
  · rfl
  · rfl

theorem Pipeline.source_mem (p : Pipeline) : p.source ∈ p.objects := List.mem_cons_self

/-- A source among a pipeline's objects is its own. -/
theorem Pipeline.source_eq {p q : Pipeline} (ho : q.source ∈ p.objects) : q.source = p.source := by
  rw [Pipeline.objects, List.mem_cons, List.mem_cons, List.mem_map] at ho
  rcases ho with heq | heq | ⟨n, -, heq⟩
  · exact heq
  · cases heq
  · cases heq

/-! ## Families -/

/-- The pipelines one entry built. -/
abbrev Family := List Pipeline

/-- Since `w₀` the families of `F₀` have been joined by new ones, and what was closed is of other
entries that were built since. -/
structure Tidy (w₀ : World) (F₀ : Set Family) (w : World) (F : Set Family) : Prop where
  later : w₀.Later w
  past : ∀ f ∈ F, ∀ p ∈ f, p.entry ≤ w.now
  family : ∀ f ∈ F, f ∈ F₀ ∨ ∀ p ∈ f, w₀.born ≤ p.id ∧ w₀.now < p.entry
  whole : ∀ f ∈ F, ∀ g ∈ F, ∀ p ∈ f, ∀ q ∈ g, p.entry = q.entry → f = g
  log : ∃ M, w.closed = w₀.closed ++ M ∧ ∀ c ∈ M, w₀.now < c.1.entry ∧ c.1.entry ≤ w.now ∧
    ∀ f ∈ F, ∀ p ∈ f, p.entry ≠ c.1.entry

/-- The families of `F` and those of a list. -/
def withFamilies (F : Set Family) (N : List Family) : Set Family := {f | f ∈ F ∨ f ∈ N}

theorem subset_withFamilies (F : Set Family) (N : List Family) : F ⊆ withFamilies F N :=
  fun _ hf ↦ .inl hf

/-- The pipelines of one entry, built between the two worlds. -/
structure Newborn (w w' : World) (f : Family) : Prop where
  later : w.Later w'
  closed : w'.closed = w.closed
  entry : ∀ p ∈ f, w.born ≤ p.id ∧ w.now < p.entry ∧ p.entry = w'.now

/-- The families of `N` are new beside those of `F`. -/
structure Pending (w₀ : World) (F₀ : Set Family) (w : World) (F : Set Family) (N : List Family) :
    Prop where
  tidy : Tidy w₀ F₀ w (withFamilies F N)
  apart : ∀ f ∈ F, ∀ g ∈ N, ∀ p ∈ f, ∀ q ∈ g, p.entry ≠ q.entry
  new : ∀ g ∈ N, ∀ q ∈ g, w₀.born ≤ q.id ∧ w₀.now < q.entry

section tidy

variable {w₀ w w' : World} {F₀ F G : Set Family} {N : List Family} {f : Family}

theorem Tidy.subset (ht : Tidy w₀ F₀ w F) (hG : G ⊆ F) : Tidy w₀ F₀ w G where
  later := ht.later
  past f hf := ht.past f (hG hf)
  family f hf := ht.family f (hG hf)
  whole f hf g hg := ht.whole f (hG hf) g (hG hg)
  log := by
    obtain ⟨M, hM, hlog⟩ := ht.log
    exact ⟨M, hM, fun c hc ↦ ⟨(hlog c hc).1, (hlog c hc).2.1, fun f hf ↦ (hlog c hc).2.2 f (hG hf)⟩⟩

/-- Time passes and nothing is closed. -/
theorem Tidy.pass (ht : Tidy w₀ F₀ w F) (hw : w.Later w') (hc : w'.closed = w.closed) :
    Tidy w₀ F₀ w' F where
  later := ht.later.trans hw
  past f hf p hp := (ht.past f hf p hp).trans hw.now
  family := ht.family
  whole := ht.whole
  log := by
    obtain ⟨M, hM, hlog⟩ := ht.log
    exact ⟨M, hc.trans hM, fun c hcM ↦
      ⟨(hlog c hcM).1, (hlog c hcM).2.1.trans hw.now, (hlog c hcM).2.2⟩⟩

theorem Tidy.pending (ht : Tidy w₀ F₀ w F) : Pending w₀ F₀ w F [] where
  tidy := ht.subset fun _ hf ↦ hf.resolve_right List.not_mem_nil
  apart _ _ _ hg := absurd hg List.not_mem_nil
  new _ hg := absurd hg List.not_mem_nil

theorem Pending.pass (hp : Pending w₀ F₀ w F N) (hw : w.Later w') (hc : w'.closed = w.closed) :
    Pending w₀ F₀ w' F N :=
  ⟨hp.tidy.pass hw hc, hp.apart, hp.new⟩

theorem Pending.base (hp : Pending w₀ F₀ w F N) : Tidy w₀ F₀ w F :=
  hp.tidy.subset (subset_withFamilies F N)

/-- One family more. -/
theorem Pending.grow (hp : Pending w₀ F₀ w F N) (hf : Newborn w w' f) :
    Pending w₀ F₀ w' F (N ++ [f]) := by
  have hlt : ∀ g ∈ withFamilies F N, ∀ p ∈ g, ∀ q ∈ f, p.entry < q.entry := fun g hg p hpg q hq ↦
    (hp.tidy.past g hg p hpg).trans_lt (hf.entry q hq).2.1
  have hnew : ∀ q ∈ f, w₀.born ≤ q.id ∧ w₀.now < q.entry := fun q hq ↦
    ⟨hp.tidy.later.born.trans (hf.entry q hq).1,
      hp.tidy.later.now.trans_lt (hf.entry q hq).2.1⟩
  have hcases : ∀ g ∈ withFamilies F (N ++ [f]), g ∈ withFamilies F N ∨ g = f := by
    rintro g (hg | hg)
    · exact .inl (.inl hg)
    · exact (List.mem_append.mp hg).imp .inr List.mem_singleton.mp
  have hpast := hp.tidy.pass hf.later hf.closed
  refine ⟨⟨hpast.later, fun g hg p hpg ↦ ?_, fun g hg ↦ ?_, fun g hg k hk p hpg q hqk hpq ↦ ?_, ?_⟩,
    fun g hg k hk p hpg q hqk ↦ ?_, fun g hg q hq ↦ ?_⟩
  · rcases hcases g hg with hg | rfl
    · exact hpast.past g hg p hpg
    · exact (hf.entry p hpg).2.2.le
  · rcases hcases g hg with hg | rfl
    · exact hpast.family g hg
    · exact .inr hnew
  · rcases hcases g hg with hg' | rfl <;> rcases hcases k hk with hk' | rfl
    · exact hp.tidy.whole g hg' k hk' p hpg q hqk hpq
    · exact absurd hpq (hlt g hg' p hpg q hqk).ne
    · exact absurd hpq (hlt k hk' q hqk p hpg).ne'
    · rfl
  · obtain ⟨M, hM, hlog⟩ := hpast.log
    obtain ⟨M', hM', hlog'⟩ := hp.tidy.log
    have hMM : M = M' := List.append_cancel_left (hM.symm.trans (hf.closed.trans hM'))
    subst hMM
    refine ⟨M, hM, fun c hc ↦ ⟨(hlog c hc).1, (hlog c hc).2.1, fun g hg p hpg ↦ ?_⟩⟩
    rcases hcases g hg with hg | rfl
    · exact (hlog c hc).2.2 g hg p hpg
    · exact ((hlog' c hc).2.1.trans_lt (hf.entry p hpg).2.1).ne'
  · rcases List.mem_append.mp hk with hk | hk
    · exact hp.apart g hg k hk p hpg q hqk
    · rw [List.mem_singleton.mp hk] at hqk
      exact (hlt g (.inl hg) p hpg q hqk).ne
  · rcases List.mem_append.mp hg with hg | hg
    · exact hp.new g hg q hq
    · rw [List.mem_singleton.mp hg] at hq
      exact hnew q hq

/-- **The new families are closed**: the others stay as they are. -/
theorem Pending.close (hp : Pending w₀ F₀ w F N) {fresh : List Pipeline} (hfresh : fresh = N.flatten) :
    Tidy w₀ F₀ { w with closed := w.closed ++ fresh.map fun p ↦ (p.source, .main) } F where
  later := ⟨hp.tidy.later.now, hp.tidy.later.born⟩
  past := hp.base.past
  family := hp.base.family
  whole := hp.base.whole
  log := by
    obtain ⟨M, hM, hlog⟩ := hp.tidy.log
    refine ⟨M ++ fresh.map fun p ↦ (p.source, .main), ?_, fun c hc ↦ ?_⟩
    · rw [hM, List.append_assoc]
    · rcases List.mem_append.mp hc with hc | hc
      · exact ⟨(hlog c hc).1, (hlog c hc).2.1, fun f hf ↦ (hlog c hc).2.2 f (.inl hf)⟩
      · obtain ⟨q, hq, rfl⟩ := List.mem_map.mp hc
        rw [hfresh] at hq
        obtain ⟨g, hg, hqg⟩ := List.mem_flatten.mp hq
        exact ⟨(hp.new g hg q hqg).2, hp.tidy.past g (.inr hg) q hqg, fun f hf p hpf ↦
          hp.apart f hf g hg p hpf q hqg⟩

end tidy

/-! ## One entry -/

theorem wp_enlist_newborn (entry : Entry) (origin : String) (ms : List Made) (w : World) :
    wp (enlist entry origin ms)
      (fun pipes w' ↦ w.Later w' ∧ w'.now = w.now ∧ w'.closed = w.closed ∧
        ∀ p ∈ pipes, w.born ≤ p.id ∧ p.entry = w.now) (fun _ _ ↦ False) (fun _ ↦ False) w := by
  induction ms generalizing w with
  | nil => exact ⟨.refl w, rfl, rfl, fun p hp ↦ absurd hp List.not_mem_nil⟩
  | cons m ms ih =>
    rw [enlist, wp_bind, wp_present, wp_bind, wp_birth, wp_bind]
    refine wp_mono_ok (ih _) fun pipes w' hrest ↦ ?_
    obtain ⟨hlater, hnow, hclosed, hpipes⟩ := hrest
    rw [wp_pure, List.forall_mem_cons]
    refine ⟨⟨hlater.now, (Nat.le_succ _).trans hlater.born⟩, hnow, hclosed, ⟨le_rfl, rfl⟩,
      fun p hp ↦ ⟨(Nat.le_succ _).trans (hpipes p hp).1, (hpipes p hp).2⟩⟩

theorem wp_buildOne_newborn (origin : String) (e : ℕ × Entry) (w : World) :
    wp (buildOne h origin e) (fun pipes w' ↦ Newborn w w' pipes)
      (fun _ w' ↦ w.Later w' ∧ w'.closed = w.closed) (fun _ ↦ False) w := by
  have hcalled : ∀ ms, wp (enlist e.2 origin ms) (fun pipes w' ↦ Newborn w w' pipes)
      (fun _ w' ↦ w.Later w' ∧ w'.closed = w.closed) (fun _ ↦ False)
      { w with now := w.now + 1 } := fun ms ↦ by
    refine wp_mono (wp_enlist_newborn e.2 origin ms _) ?_ (fun _ _ h ↦ h.elim) fun _ h ↦ h
    intro pipes w' ⟨hlater, hnow, hclosed, hpipes⟩
    refine ⟨⟨(Nat.le_succ _).trans hlater.now, hlater.born⟩, hclosed, fun p hp ↦
      ⟨(hpipes p hp).1, ?_, ?_⟩⟩
    · rw [(hpipes p hp).2]
      exact Nat.lt_succ_self _
    · rw [(hpipes p hp).2, hnow]
  unfold buildOne
  split
  · rw [wp_bind, wp_call]
    split
    · exact hcalled _
    · exact ⟨⟨Nat.le_succ _, le_rfl⟩, rfl⟩
  · rw [wp_bind, wp_call]
    split
    · exact hcalled _
    · exact ⟨⟨Nat.le_succ _, le_rfl⟩, rfl⟩

/-! ## A list of entries -/

/-- What a loop over entries has built so far: its slots hold families of `F` or new ones, and the
slots it took and left are of `F`. -/
def Filled (w₀ : World) (F₀ F : Set Family) (b : Built) (pool : List Slot) (w : World) : Prop :=
  ∃ N, Pending w₀ F₀ w F N ∧ b.fresh = N.flatten ∧ (∀ s ∈ b.slots, s.pipes ∈ withFamilies F N) ∧
    (∀ s ∈ b.taken, s.pipes ∈ F) ∧ ∀ s ∈ pool, s.pipes ∈ F

section filled

variable {w₀ w w' : World} {F₀ F : Set Family} {b : Built} {pool : List Slot}

theorem Tidy.filled (ht : Tidy w₀ F₀ w F) (hpool : ∀ s ∈ pool, s.pipes ∈ F) :
    Filled w₀ F₀ F {} pool w :=
  ⟨[], ht.pending, rfl, fun _ hs ↦ absurd hs List.not_mem_nil,
    fun _ hs ↦ absurd hs List.not_mem_nil, hpool⟩

theorem Filled.pass (hf : Filled w₀ F₀ F b pool w) (hw : w.Later w') (hc : w'.closed = w.closed) :
    Filled w₀ F₀ F b pool w' := by
  obtain ⟨N, hp, hrest⟩ := hf
  exact ⟨N, hp.pass hw hc, hrest⟩

theorem Filled.reuse (hf : Filled w₀ F₀ F b pool w) {l : Label} {s : Slot} {pool' : List Slot}
    (htake : take l pool = some (s, pool')) : Filled w₀ F₀ F (b.reuse s) pool' w := by
  obtain ⟨N, hp, hfresh, hslots, htaken, hpool⟩ := hf
  have hperm := (Pool.take_eq_some htake).2
  have hs : s.pipes ∈ F := hpool s (hperm.symm.subset List.mem_cons_self)
  refine ⟨N, hp, hfresh, fun t ht ↦ ?_, fun t ht ↦ ?_, fun t ht ↦
    hpool t (hperm.symm.subset (List.mem_cons_of_mem _ ht))⟩
  · rcases List.mem_append.mp ht with ht | ht
    · exact hslots t ht
    · rw [List.mem_singleton.mp ht]
      exact .inl hs
  · rcases List.mem_append.mp ht with ht | ht
    · exact htaken t ht
    · rw [List.mem_singleton.mp ht]
      exact hs

theorem Filled.make (hf : Filled w₀ F₀ F b pool w) {pipes : Family} (hn : Newborn w w' pipes)
    (l : Label) (entry : Entry) : Filled w₀ F₀ F (b.make l entry pipes) pool w' := by
  obtain ⟨N, hp, hfresh, hslots, htaken, hpool⟩ := hf
  refine ⟨N ++ [pipes], hp.grow hn, ?_, fun t ht ↦ ?_, htaken, hpool⟩
  · rw [Built.make, hfresh, List.flatten_append, List.flatten_singleton]
  · rcases List.mem_append.mp ht with ht | ht
    · exact (hslots t ht).imp_right fun ht ↦ List.mem_append_left _ ht
    · rw [List.mem_singleton.mp ht]
      exact .inr (List.mem_append_right _ (List.mem_singleton_self _))

/-- What was built is closed. -/
theorem Filled.close (hf : Filled w₀ F₀ F b pool w) :
    Tidy w₀ F₀ { w with closed := w.closed ++ b.fresh.map fun p ↦ (p.source, .main) } F := by
  obtain ⟨N, hp, hfresh, -⟩ := hf
  exact hp.close hfresh

end filled

variable {w₀ w : World} {F₀ F : Set Family}

theorem wp_buildEach_filled (strict : Bool) (es : List (ℕ × Entry)) (pool : List Slot) (b : Built)
    (hf : Filled w₀ F₀ F b pool w) :
    wp (buildEach h strict es pool b) (fun r w' ↦ Filled w₀ F₀ F r.1 r.2 w')
      (fun _ w' ↦ Tidy w₀ F₀ w' F) (fun _ ↦ False) w := by
  induction es generalizing pool b w with
  | nil => exact hf
  | cons e es ih =>
    rw [buildEach]
    split
    · exact ih _ _ (hf.reuse ‹_›)
    · rw [wp_bind, wp_attempt]
      refine wp_mono (wp_buildOne_newborn LEGACY e w) (fun pipes w' hn ↦ ih _ _ (hf.make hn _ _))
        (fun err w' hw ↦ ?_) fun _ h ↦ h
      dsimp only
      split
      · rw [wp_bind, closeQuietly, wp_modify, wp_raise]
        exact (hf.pass hw.1 hw.2).close
      · have hnone : Newborn w w' [] := ⟨hw.1, hw.2, fun p hp ↦ absurd hp List.not_mem_nil⟩
        exact ih _ _ (hf.make hnone _ _)

theorem wp_buildFile_filled (origin : String) (es : List (ℕ × Entry)) (pool : List Slot) (b : Built)
    (hf : Filled w₀ F₀ F b pool w) :
    wp (buildFile h origin es pool b)
      (fun r w' ↦ match r.1 with
        | .ok b' => Filled w₀ F₀ F b' r.2 w'
        | .error _ => Tidy w₀ F₀ w' F ∧ ∀ s ∈ r.2, s.pipes ∈ F)
      (fun _ _ ↦ False) (fun _ ↦ False) w := by
  induction es generalizing pool b w with
  | nil => exact hf
  | cons e es ih =>
    rw [buildFile]
    split
    · exact ih _ _ (hf.reuse ‹_›)
    · rw [wp_bind, wp_attempt]
      refine wp_mono (wp_buildOne_newborn origin e w) (fun pipes w' hn ↦ ih _ _ (hf.make hn _ _))
        (fun err w' hw ↦ ?_) fun _ h ↦ h
      dsimp only
      rw [wp_bind, closeQuietly, wp_modify, wp_pure]
      have hclose := (hf.pass hw.1 hw.2).close
      obtain ⟨N, -, -, -, htaken, hpool⟩ := hf
      exact ⟨hclose, fun s hs ↦ (List.mem_append.mp hs).elim (hpool s) (htaken s)⟩

/-! ## A layout -/

/-- The free slots and the accepted ones hold families of `F`, and what was built fresh is new. -/
structure Desk.Placed (w₀ : World) (F : Set Family) (d : Desk) : Prop where
  pool : ∀ s ∈ d.pool, s.pipes ∈ F
  standing : ∀ s ∈ d.standing, s.pipes ∈ F
  fresh : ∀ p ∈ d.fresh, w₀.born ≤ p.id

/-- Some families of `F` and more are kept tidy, with the desk's slots among them. -/
def Desk.Kept (w₀ : World) (F₀ F : Set Family) (d : Desk) (w : World) : Prop :=
  ∃ G, F ⊆ G ∧ Tidy w₀ F₀ w G ∧ d.Placed w₀ G

theorem wp_tryFile_kept (origin : String) (entries : List Entry) (d : Desk)
    (ht : Tidy w₀ F₀ w F) (hd : d.Placed w₀ F) :
    wp (tryFile h origin entries d) (fun r w' ↦ r.2.Kept w₀ F₀ F w') (fun _ w' ↦ Tidy w₀ F₀ w' F)
      (fun _ ↦ False) w := by
  rw [tryFile, wp_bind]
  refine wp_mono (wp_buildFile_filled origin (enumerate entries) d.pool {} (ht.filled hd.pool)) ?_
    (fun _ _ h ↦ h.elim) fun _ h ↦ h
  rintro ⟨built, pool⟩ w' hbuilt
  cases built with
  | error reason => exact ⟨F, subset_rfl, hbuilt.1, hbuilt.2, hd.standing, hd.fresh⟩
  | ok b =>
    have hclose := Filled.close hbuilt
    obtain ⟨N, hp, hfresh, hslots, htaken, hpool⟩ := hbuilt
    dsimp only
    rw [wp_bind, wp_ofExcept]
    split
    · rename_i verdict _
      cases verdict with
      | error reason =>
        dsimp only
        rw [wp_bind, closeQuietly, wp_modify, wp_pure]
        exact ⟨F, subset_rfl, hclose, fun s hs ↦ (List.mem_append.mp hs).elim (hpool s) (htaken s),
          hd.standing, hd.fresh⟩
      | ok claimed =>
        refine ⟨withFamilies F N, subset_withFamilies F N, hp.tidy, fun s hs ↦ .inl (hpool s hs),
          fun s hs ↦ ?_, fun p hpf ↦ ?_⟩
        · simp only [Desk.standing, List.flatMap_append, List.flatMap_cons, List.flatMap_nil,
            List.append_nil, List.mem_append] at hs
          exact hs.elim (fun hs ↦ .inl (hd.standing s hs)) (hslots s)
        · rcases List.mem_append.mp hpf with hpf | hpf
          · exact hd.fresh p hpf
          · rw [hfresh] at hpf
            obtain ⟨g, hg, hpg⟩ := List.mem_flatten.mp hpf
            exact (hp.new g hg p hpg).1
    · exact hp.base

theorem wp_keepLast_kept (prevGood : List (String × List Entry)) (origin : String) (d : Desk)
    (ht : Tidy w₀ F₀ w F) (hd : d.Placed w₀ F) :
    wp (keepLast h prevGood origin d) (fun d' w' ↦ d'.Kept w₀ F₀ F w')
      (fun _ w' ↦ Tidy w₀ F₀ w' F) (fun _ ↦ False) w := by
  rw [keepLast]
  split
  · exact ⟨F, subset_rfl, ht, hd⟩
  · rw [wp_bind]
    exact wp_mono_ok (wp_tryFile_kept origin _ d ht hd) fun _ _ h ↦ h

theorem wp_settleFile_kept (l : Layout) (prevGood : List (String × List Entry)) (origin : String)
    (d : Desk) (ht : Tidy w₀ F₀ w F) (hd : d.Placed w₀ F) :
    wp (settleFile h l prevGood origin d) (fun d' w' ↦ d'.Kept w₀ F₀ F w')
      (fun _ w' ↦ Tidy w₀ F₀ w' F) (fun _ ↦ False) w := by
  rw [settleFile]
  split
  · exact wp_keepLast_kept prevGood origin _ ht ⟨hd.pool, hd.standing, hd.fresh⟩
  · rw [wp_bind]
    refine wp_mono_ok (wp_tryFile_kept origin _ d ht hd) ?_
    rintro ⟨verdict, d'⟩ w' ⟨G, hFG, hG, hd'⟩
    cases verdict with
    | ok u => exact ⟨G, hFG, hG, hd'⟩
    | error reason =>
      refine wp_mono (wp_keepLast_kept prevGood origin _ hG ⟨hd'.pool, hd'.standing, hd'.fresh⟩) ?_
        (fun _ _ hT ↦ hT.subset hFG) fun _ h ↦ h
      rintro d'' w'' ⟨K, hGK, hK⟩
      exact ⟨K, hFG.trans hGK, hK⟩

theorem wp_settleFiles_kept (l : Layout) (prevGood : List (String × List Entry))
    (order : List String) (d : Desk) (ht : Tidy w₀ F₀ w F) (hd : d.Placed w₀ F) :
    wp (settleFiles h l prevGood order d) (fun d' w' ↦ d'.Kept w₀ F₀ F w')
      (fun _ w' ↦ Tidy w₀ F₀ w' F) (fun _ ↦ False) w := by
  induction order generalizing d w F with
  | nil => exact ⟨F, subset_rfl, ht, hd⟩
  | cons origin order ih =>
    rw [settleFiles, wp_bind]
    refine wp_mono_ok (wp_settleFile_kept l prevGood origin d ht hd) ?_
    rintro d' w' ⟨G, hFG, hG, hd'⟩
    refine wp_mono (ih d' hG hd') ?_ (fun _ _ hT ↦ hT.subset hFG) fun _ h ↦ h
    rintro d'' w'' ⟨K, hGK, hK⟩
    exact ⟨K, hFG.trans hGK, hK⟩

/-- The families in the slots of a build. -/
def Build.families (b : Build) : Set Family := {f | ∃ s ∈ b.slots, s.pipes = f}

/-- What a build is known for: its families are tidy, it holds what its slots hold, and what it
built fresh is new and its own. -/
structure Build.Laid (w₀ : World) (F₀ : Set Family) (w : World) (b : Build) : Prop where
  tidy : Tidy w₀ F₀ w b.families
  pipelines : b.pipelines = pipesOf b.slots
  fresh : ∀ p ∈ b.fresh, p ∈ b.pipelines ∧ w₀.born ≤ p.id

/-- **A build**, of nothing or after another. -/
theorem wp_assemble_laid (l : Layout) (previous : Option Build) (strict : Bool)
    (ht : Tidy w₀ F₀ w (previous.elim ∅ Build.families)) :
    wp (assemble h l previous strict) (fun b w' ↦ b.Laid w₀ F₀ w')
      (fun _ w' ↦ ∃ F, Tidy w₀ F₀ w' F) (fun _ ↦ False) w := by
  have hpool : ∀ s ∈ previous.elim [] Build.slots, s.pipes ∈ previous.elim ∅ Build.families := by
    cases previous with
    | none => exact fun s hs ↦ absurd hs List.not_mem_nil
    | some b => exact fun s hs ↦ ⟨s, hs, rfl⟩
  have hlegacy : wp (buildLegacy h strict (l.inFile LEGACY) (previous.elim [] Build.slots))
      (fun r w' ↦ Filled w₀ F₀ (previous.elim ∅ Build.families) r.1 r.2 w')
      (fun _ w' ↦ Tidy w₀ F₀ w' (previous.elim ∅ Build.families)) (fun _ ↦ False) w := by
    rw [buildLegacy, wp_bind]
    refine wp_mono_ok (wp_buildEach_filled strict _ _ {} (ht.filled hpool)) fun g w' hg ↦ ?_
    exact wp_buildEach_filled false _ _ _ hg
  rw [assemble, wp_bind]
  refine wp_mono hlegacy ?_ (fun _ _ hT ↦ ⟨_, hT⟩) fun _ h ↦ h
  rintro ⟨legacy, pool⟩ w₁ ⟨N, hp, hfresh, hslots, -, hleft⟩
  dsimp only
  rw [wp_bind, wp_ofExcept]
  split
  · rw [wp_bind]
    refine wp_mono (wp_settleFiles_kept l _ _ _ hp.tidy ?_) ?_ (fun _ _ hT ↦ ⟨_, hT⟩) fun _ h ↦ h
    · refine ⟨fun s hs ↦ .inl (hleft s hs), fun s hs ↦ absurd hs List.not_mem_nil, fun p hpf ↦ ?_⟩
      dsimp only at hpf
      rw [hfresh] at hpf
      obtain ⟨g, hg, hpg⟩ := List.mem_flatten.mp hpf
      exact (hp.new g hg p hpg).1
    · rintro d w₂ ⟨G, hFG, hG, hd⟩
      refine ⟨hG.subset ?_, rfl, fun p hpf ↦ ?_⟩
      · rintro _ ⟨s, hs, rfl⟩
        rcases List.mem_append.mp hs with hs | hs
        · exact hFG (hslots s hs)
        · exact hd.standing s (d.inOrder_perm.subset hs)
      · obtain ⟨hmem, hmade⟩ := List.mem_filter.mp hpf
        obtain ⟨q, hq, hid⟩ := List.mem_map.mp (by simpa using hmade)
        exact ⟨hmem, hid ▸ hd.fresh q hq⟩
  · exact ⟨_, hp.base⟩

/-! ## A draft -/

/-- What was closed since `w` is of entries built since. -/
def World.Logged (w w' : World) : Prop :=
  ∃ M, w'.closed = w.closed ++ M ∧ ∀ c ∈ M, w.now < c.1.entry ∧ c.1.entry ≤ w'.now

theorem Tidy.logged (ht : Tidy w₀ F₀ w F) : w₀.Logged w := by
  obtain ⟨M, hM, hlog⟩ := ht.log
  exact ⟨M, hM, fun c hc ↦ ⟨(hlog c hc).1, (hlog c hc).2.1⟩⟩

/-- The families of `F` stand at `w`. -/
structure Founded (w : World) (F : Set Family) : Prop where
  past : ∀ f ∈ F, ∀ p ∈ f, p.id < w.born ∧ p.entry ≤ w.now
  whole : ∀ f ∈ F, ∀ g ∈ F, ∀ p ∈ f, ∀ q ∈ g, p.entry = q.entry → f = g

theorem Founded.tidy (hs : Founded w F) : Tidy w F w F where
  later := .refl w
  past f hf p hp := (hs.past f hf p hp).2
  family _ hf := .inl hf
  whole := hs.whole
  log := ⟨[], (List.append_nil _).symm, fun _ hc ↦ absurd hc List.not_mem_nil⟩

/-- The fresh pipelines of a build are closed. -/
theorem Build.Laid.close {b : Build} (hb : b.Laid w₀ F₀ w) (hs : Founded w₀ F₀) :
    w₀.Logged { w with closed := w.closed ++ b.fresh.map fun p ↦ (p.source, .main) } := by
  obtain ⟨M, hM, hlog⟩ := hb.tidy.logged
  refine ⟨M ++ b.fresh.map fun p ↦ (p.source, .main), ?_, fun c hc ↦ ?_⟩
  · rw [hM, List.append_assoc]
  · rcases List.mem_append.mp hc with hc | hc
    · exact hlog c hc
    · obtain ⟨p, hp, rfl⟩ := List.mem_map.mp hc
      obtain ⟨hmem, hborn⟩ := hb.fresh p hp
      rw [hb.pipelines] at hmem
      obtain ⟨t, ht, hpt⟩ := List.mem_flatMap.mp hmem
      have hf : t.pipes ∈ b.families := ⟨t, ht, rfl⟩
      refine ⟨?_, hb.tidy.past _ hf p hpt⟩
      rcases hb.tidy.family _ hf with hold | hnew
      · exact absurd (hs.past _ hold p hpt).1 (Nat.not_lt.mpr hborn)
      · exact (hnew p hpt).2

/-- What a draft is known for: its build, and the version that decided what of it runs. -/
structure Draft.Laid (h : Host) (w₀ : World) (F₀ : Set Family) (w : World) (d : Draft) : Prop where
  build : d.build.Laid w₀ F₀ w
  running : ∃ n v, w₀.now ≤ n ∧ n < w.now ∧ h.schemaVersion n = .ok v ∧
    d.running = (splitRefused v d.build.pipelines).1

theorem Build.Laid.pass {b : Build} (hb : b.Laid w₀ F₀ w) {w' : World} (hw : w.Later w')
    (hc : w'.closed = w.closed) : b.Laid w₀ F₀ w' :=
  ⟨hb.tidy.pass hw hc, hb.pipelines, hb.fresh⟩

theorem idling_closed : Idling fun w w' ↦ w'.closed = w.closed :=
  ⟨fun _ ↦ rfl, fun h h' ↦ h'.trans h, fun _ ↦ rfl⟩

theorem wp_make_laid (manifest : Manifest) (previous : Option Build) (strict : Bool) (w : World)
    (hs : Founded w (previous.elim ∅ Build.families)) :
    wp (make h manifest previous strict)
      (fun d w' ↦ d.Laid h w (previous.elim ∅ Build.families) w') (fun _ w' ↦ w.Logged w')
      (fun _ ↦ False) w := by
  rw [make, loadLayout, wp_bind, wp_bind]
  refine wp_mono (wp_and (ticks_readDirectory w) (idling_closed.readDirectory w)) ?_ ?_
    fun _ h ↦ h.1
  · rintro ⟨sig, seen⟩ w₁ ⟨hlater, hclosed⟩
    rw [wp_pure, wp_bind]
    refine wp_mono (wp_assemble_laid _ previous strict (hs.tidy.pass hlater hclosed)) ?_ ?_
      fun _ h ↦ h
    · intro build w₂ hb
      rw [wp_bind, wp_attempt, wp_call]
      have hpass : build.Laid w (previous.elim ∅ Build.families) { w₂ with now := w₂.now + 1 } :=
        hb.pass ⟨Nat.le_succ _, le_rfl⟩ rfl
      split
      · rename_i v hv
        exact ⟨hpass, w₂.now, v, hb.tidy.later.now, Nat.lt_succ_self _, hv, rfl⟩
      · rw [wp_bind, closeQuietly, wp_modify, wp_raise]
        exact hpass.close hs
    · rintro e w₂ ⟨F, hT⟩
      exact hT.logged
  · rintro e w₁ ⟨hlater, hclosed⟩
    exact ⟨[], by rw [hclosed, List.append_nil], fun c hc ↦ absurd hc List.not_mem_nil⟩

theorem wp_prepare_laid (s : State) (hs : Founded s.world s.self.build.families) :
    wp (prepare h)
      (fun r s' ↦ r.1.Laid h s.world s.self.build.families s'.world)
      (fun _ s' ↦ s.world.Logged s'.world) (fun _ ↦ False) s := by
  rw [prepare, wp_bind, wp_get, wp_bind, onWorld, wp_zoom]
  refine wp_mono (wp_make_laid s.self.manifest (some s.self.build) false s.world hs) ?_
    (fun _ _ h ↦ h) fun _ h ↦ h
  intro draft w' hd
  dsimp only
  split
  · rw [wp_bind, wp_attempt, onWorld, wp_zoom, wp_call]
    have hpass : draft.build.Laid s.world s.self.build.families { w' with now := w'.now + 1 } :=
      hd.build.pass ⟨Nat.le_succ _, le_rfl⟩ rfl
    split
    · obtain ⟨n, v, hn, hlt, hrest⟩ := hd.running
      exact ⟨hpass, n, v, hn, hlt.trans (Nat.lt_succ_self _), hrest⟩
    · rw [wp_bind, onWorld, wp_zoom, closeQuietly, wp_modify, wp_raise]
      exact hpass.close hs
  · exact hd

/-! ## A commit -/

/-- What `rebuild` closes itself: the sources of the previous build's pipelines that the new one
does not hold and that do not run. -/
def leftOver (previous build : Build) (pumping : List Pipeline) : List (Obj × Thread) :=
  (previous.pipelines.filter fun p ↦ !(build.pipelines.map Pipeline.id).contains p.id &&
    !(pumping.map Pipeline.id).contains p.id).map fun p ↦ (p.source, .main)

/-- What `replace_pipelines` closes. -/
def replaced (pumping new : List Pipeline) : List (Obj × Thread) :=
  closeEach (new.flatMap Pipeline.objects) (removedParts pumping new) []

theorem gentle_closed :
    Gentle fun s s' ↦ s'.world.closed = s.world.closed ∧ s'.pumping = s.pumping where
  refl _ := ⟨rfl, rfl⟩
  trans h h' := ⟨h'.1.trans h.1, h'.2.trans h.2⟩
  tick _ := ⟨rfl, rfl⟩
  startCursor s key cursor := by
    rw [State.startCursor]
    split <;> exact ⟨rfl, rfl⟩
  seen _ _ := ⟨rfl, rfl⟩

theorem wp_commit_closed (previous : Build) (draft : Draft) (changed : Bool) (s : State) :
    wp (commit h previous draft changed)
      (fun b s' ↦ s'.world.closed = s.world.closed ++ leftOver previous draft.build s.pumping ++
        if b then replaced s.pumping draft.running else [])
      (fun _ s' ↦ s'.world.closed = s.world.closed ∨
        s'.world.closed = s.world.closed ++ leftOver previous draft.build s.pumping)
      (fun _ ↦ False) s := by
  rw [commit, wp_bind, setSelf, wp_modify, wp_bind]
  refine wp_mono (gentle_closed.startingPass draft.running _) (fun _ s₁ h₁ ↦ ?_)
    (fun _ _ h ↦ .inl h.1) fun _ h ↦ h
  rw [wp_bind]
  refine wp_mono (gentle_closed.reportSwitches s₁) (fun _ s₂ h₂ ↦ ?_)
    (fun _ _ h ↦ .inl (h.1.trans h₁.1)) fun _ h ↦ h
  have hclosed : s₂.world.closed = s.world.closed := h₂.1.trans h₁.1
  have hpumping : s₂.pumping = s.pumping := h₂.2.trans h₁.2
  rw [wp_bind, wp_get, wp_bind, onWorld, wp_zoom, closeQuietly, wp_modify, hpumping, hclosed]
  cases changed with
  | false => exact (List.append_nil _).symm
  | true =>
    rw [if_pos rfl, wp_bind, setSelf, wp_modify, wp_bind, replacePipelines, wp_bind, wp_get,
      wp_bind]
    refine wp_mono (gentle_closed.call h.swap _) (fun _ s₃ h₃ ↦ ?_) (fun _ _ h ↦ .inr h.1)
      fun _ h ↦ h
    change s₃.world.closed ++ replaced s.pumping draft.running = _
    rw [h₃.1]
    rfl

end Daemon
end HsUploader
