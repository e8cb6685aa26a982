import HsUploader.Daemon.Closing
import HsUploader.Daemon.Identity

/-!
# What a daemon closes over its life

A source or a transport of a running pipeline is never closed, and what a pipeline that left the
running set held is closed once, on the thread of a pipeline that held it, as soon as no running one
holds it.  That is so while the store check never holds back a pipeline that runs: one that it does
is closed and stays in the build, from where it is closed again or run again.

## What is here

* `State.Disciplined` — what a daemon keeps of its objects, with the pipelines that have run so
  far as a ghost: which objects are closed, how often, and on which thread.
* `unclosed_build`, `unclosed_leftOver` and `filter_replaced` — the three places that close: a build
  that gives up what it made, the rebuild for what no pipeline of the new build holds, and the swap.
* `State.Disciplined.keep` and `State.Disciplined.swap` — a rebuild that swaps nothing, however
  far it came, and one that swaps.
* `Lives` — a daemon's life with that ghost.

An object is told by the step its entry was built at, so that what is built again from an equal
entry is another object, and a slot that is drawn from the pool brings the objects it had.
-/

set_option autoImplicit false

namespace HsUploader
namespace Daemon

open Prog

variable {h : Host}

/-! ## What is closed of a removed pipeline -/

theorem mem_closeEach {held : List Obj} {cs : List (Obj × Thread)} {closed : List Obj}
    {c : Obj × Thread} (hc : c ∈ closeEach held cs closed) : c ∈ cs ∧ c.1 ∉ held := by
  induction cs generalizing closed with
  | nil => cases hc
  | cons d cs ih =>
    rw [closeEach] at hc
    split at hc
    · exact (ih hc).imp_left (List.mem_cons_of_mem d)
    · rename_i hd
      rcases List.mem_cons.mp hc with rfl | hc
      · refine ⟨List.mem_cons_self, fun hheld ↦ hd ?_⟩
        simp only [Bool.or_eq_true, List.contains_iff_mem]
        exact .inl hheld
      · exact (ih hc).imp_left (List.mem_cons_of_mem d)

/-- What is closed already is not closed again. -/
theorem filter_closeEach_of_mem {held : List Obj} {o : Obj} (cs : List (Obj × Thread))
    {closed : List Obj} (ho : o ∈ closed) :
    (closeEach held cs closed).filter (fun c ↦ c.1 = o) = [] := by
  induction cs generalizing closed with
  | nil => rfl
  | cons d cs ih =>
    rw [closeEach]
    split
    · exact ih ho
    · rename_i hd
      have hne : d.1 ≠ o := by
        rintro rfl
        apply hd
        simp only [Bool.or_eq_true, List.contains_iff_mem]
        exact .inr ho
      rw [List.filter_cons_of_neg (by simpa using hne)]
      exact ih (List.mem_cons_of_mem _ ho)

/-- **An object that is not held is closed once**, where it comes up first. -/
theorem filter_closeEach {held : List Obj} {o : Obj} (ho : o ∉ held) (cs : List (Obj × Thread))
    {closed : List Obj} (hc : o ∉ closed) :
    (closeEach held cs closed).filter (fun c ↦ c.1 = o) = (cs.find? fun c ↦ c.1 = o).toList := by
  induction cs generalizing closed with
  | nil => rfl
  | cons d cs ih =>
    rw [closeEach]
    by_cases hd : d.1 = o
    · have hopen : ¬(held.contains d.1 || closed.contains d.1) = true := by
        simp only [Bool.or_eq_true, List.contains_iff_mem, hd]
        exact fun h ↦ h.elim ho hc
      rw [if_neg hopen, List.filter_cons_of_pos (by simpa using hd),
        List.find?_cons_of_pos (by simpa using hd),
        filter_closeEach_of_mem cs (hd ▸ List.mem_cons_self)]
      rfl
    · rw [List.find?_cons_of_neg (by simpa using hd)]
      split
      · exact ih hc
      · rw [List.filter_cons_of_neg (by simpa using hd)]
        exact ih fun hmem ↦ (List.mem_cons.mp hmem).elim (fun heq ↦ hd heq.symm) hc

theorem mem_removedParts {pumping new : List Pipeline} {c : Obj × Thread} :
    c ∈ removedParts pumping new ↔
      ∃ r ∈ pumping, r.id ∉ new.map Pipeline.id ∧ ∃ o ∈ r.objects, (o, .pump r.id) = c := by
  simp only [removedParts, List.mem_flatMap, List.mem_filter, List.mem_map, Bool.not_eq_true',
    List.contains_eq_mem, decide_eq_false_iff_not, and_assoc]

theorem mem_splitRefused {v : ℕ} {ps : List Pipeline} {p : Pipeline} :
    p ∈ (splitRefused v ps).1 ↔ p ∈ ps ∧ (p.producer = true → PRODUCER_STORE_VERSION ≤ v) := by
  simp only [splitRefused, List.mem_filter, Bool.not_eq_true', Bool.and_eq_false_imp,
    decide_eq_false_iff_not, not_lt]

/-! ## The discipline -/

/-- What a daemon keeps of its objects; `hist` are the pipelines that have run. -/
structure State.Disciplined (hist : List Pipeline) (s : State) : Prop where
  founded : Founded s.world s.self.build.families
  pipelines : s.self.build.pipelines = pipesOf s.self.build.slots
  logged : ∀ c ∈ s.world.closed, c.1.entry ≤ s.world.now
  past : ∀ p ∈ hist, p.entry ≤ s.world.now
  ran : ∀ p ∈ s.pumping, p ∈ hist
  /-- No object of a built or a running pipeline is closed. -/
  unclosed : ∀ p, p ∈ s.self.build.pipelines ∨ p ∈ s.pumping → ∀ o ∈ p.objects,
    ∀ c ∈ s.world.closed, c.1 ≠ o
  /-- Of an entry's pipelines all are built that run, or none is. -/
  together : ∀ p ∈ s.pumping, ∀ q ∈ s.self.build.pipelines, p.entry = q.entry →
    p ∈ s.self.build.pipelines
  /-- Built pipelines with one source run together. -/
  shared : ∀ p ∈ s.pumping, ∀ q ∈ s.self.build.pipelines, q.source = p.source → q ∈ s.pumping
  left : ∀ p ∈ hist, p ∉ s.pumping → ∀ o ∈ p.objects, (∀ q ∈ s.pumping, o ∉ q.objects) →
    ∃ q ∈ hist, q ∉ s.pumping ∧ o ∈ q.objects ∧
      s.world.closed.filter (fun c ↦ c.1 = o) = [(o, .pump q.id)]

/-- A pipeline of a build stood before or is of a new entry. -/
theorem Build.Laid.old_or_new {w₀ w : World} {F₀ : Set Family} {b : Build} (hb : b.Laid w₀ F₀ w)
    {q : Pipeline} (hq : q ∈ b.pipelines) :
    (∃ t ∈ b.slots, q ∈ t.pipes ∧ t.pipes ∈ F₀) ∨ w₀.now < q.entry := by
  rw [hb.pipelines] at hq
  obtain ⟨t, ht, hqt⟩ := List.mem_flatMap.mp hq
  rcases hb.tidy.family _ ⟨t, ht, rfl⟩ with hold | hnew
  · exact .inl ⟨t, ht, hqt, hold⟩
  · exact .inr (hnew q hqt).2

namespace State.Disciplined

variable {hist : List Pipeline} {s : State} {w : World} {b : Build}

theorem entry_le (hs : s.Disciplined hist) {p : Pipeline}
    (hp : p ∈ s.self.build.pipelines ∨ p ∈ s.pumping) : p.entry ≤ s.world.now := by
  rcases hp with hp | hp
  · rw [hs.pipelines] at hp
    obtain ⟨t, ht, hpt⟩ := List.mem_flatMap.mp hp
    exact (hs.founded.past _ ⟨t, ht, rfl⟩ p hpt).2
  · exact hs.past p (hs.ran p hp)

/-- **An entry's pipelines go on together**: what stood or ran of an entry that the next build holds
a pipeline of, it holds. -/
theorem carry (hs : s.Disciplined hist) (hb : b.Laid s.world s.self.build.families w)
    {p q : Pipeline} (hp : p ∈ s.self.build.pipelines ∨ p ∈ s.pumping) (hq : q ∈ b.pipelines)
    (hpq : p.entry = q.entry) : p ∈ b.pipelines ∧ q ∈ s.self.build.pipelines := by
  rcases hb.old_or_new hq with ⟨t, ht, hqt, t₀, ht₀, heq⟩ | hnew
  · have hq₀ : q ∈ s.self.build.pipelines := by
      rw [hs.pipelines]
      exact List.mem_flatMap.mpr ⟨t₀, ht₀, heq ▸ hqt⟩
    have hp₀ : p ∈ s.self.build.pipelines := hp.elim id fun hp ↦ hs.together p hp q hq₀ hpq
    refine ⟨?_, hq₀⟩
    rw [hs.pipelines] at hp₀
    obtain ⟨t₁, ht₁, hpt₁⟩ := List.mem_flatMap.mp hp₀
    have hsame := hs.founded.whole _ ⟨t₁, ht₁, rfl⟩ _ ⟨t₀, ht₀, rfl⟩ p hpt₁ q (heq ▸ hqt) hpq
    rw [hb.pipelines]
    exact List.mem_flatMap.mpr ⟨t, ht, heq ▸ hsame ▸ hpt₁⟩
  · exact absurd (hs.entry_le hp) (Nat.not_le.mpr (hpq ▸ hnew))

/-- What a build closes is of no pipeline that stands in it or runs. -/
theorem unclosed_build (hs : s.Disciplined hist) (hb : b.Laid s.world s.self.build.families w)
    {p : Pipeline} (hp : p ∈ b.pipelines ∨ p ∈ s.pumping) {o : Obj} (ho : o ∈ p.objects) :
    ∀ c ∈ w.closed, c.1 ≠ o := by
  rintro c hc rfl
  have hentry := Pipeline.entry_of_mem ho
  obtain ⟨M, hM, hlog⟩ := hb.tidy.log
  rw [hM] at hc
  rcases List.mem_append.mp hc with hc | hc
  · rcases hp with hp | hp
    · rcases hb.old_or_new hp with ⟨t, ht, hpt, t₀, ht₀, heq⟩ | hnew
      · refine hs.unclosed p (.inl ?_) _ ho c hc rfl
        rw [hs.pipelines]
        exact List.mem_flatMap.mpr ⟨t₀, ht₀, heq ▸ hpt⟩
      · exact absurd (hs.logged c hc) (Nat.not_le.mpr (hentry ▸ hnew))
    · exact hs.unclosed p (.inr hp) _ ho c hc rfl
  · rcases hp with hp | hp
    · rw [hb.pipelines] at hp
      obtain ⟨t, ht, hpt⟩ := List.mem_flatMap.mp hp
      exact (hlog c hc).2.2 _ ⟨t, ht, rfl⟩ p hpt hentry.symm
    · exact absurd (hs.entry_le (.inr hp)) (Nat.not_le.mpr (hentry ▸ (hlog c hc).1))

theorem mem_leftOver {previous : Build} {pumping : List Pipeline} {c : Obj × Thread}
    (hc : c ∈ leftOver previous b pumping) :
    ∃ x ∈ previous.pipelines, x ∉ b.pipelines ∧ x ∉ pumping ∧ c = (x.source, .main) := by
  obtain ⟨x, hx, rfl⟩ := List.mem_map.mp hc
  simp only [List.mem_filter, Bool.and_eq_true, Bool.not_eq_true', List.contains_eq_mem,
    decide_eq_false_iff_not] at hx
  exact ⟨x, hx.1, fun hb ↦ hx.2.1 (List.mem_map_of_mem hb),
    fun hp ↦ hx.2.2 (List.mem_map_of_mem hp), rfl⟩

/-- What the rebuild closes itself is of no pipeline that stands in the new build or runs. -/
theorem unclosed_leftOver (hs : s.Disciplined hist)
    (hb : b.Laid s.world s.self.build.families w) {p : Pipeline}
    (hp : p ∈ b.pipelines ∨ p ∈ s.pumping) {o : Obj} (ho : o ∈ p.objects) :
    ∀ c ∈ leftOver s.self.build b s.pumping, c.1 ≠ o := by
  rintro c hc rfl
  obtain ⟨x, hx, hxb, hxp, rfl⟩ := mem_leftOver hc
  rcases hp with hp | hp
  · exact hxb (hs.carry hb (.inl hx) hp (Pipeline.entry_of_mem ho)).1
  · exact hxp (hs.shared p hp x hx (Pipeline.source_eq ho))

/-- What was closed of a pipeline that left is not closed again before the swap. -/
theorem filter_closed (hs : s.Disciplined hist) (hb : b.Laid s.world s.self.build.families w)
    {p : Pipeline} (hp : p ∈ hist) {o : Obj} (ho : o ∈ p.objects) :
    w.closed.filter (fun c ↦ c.1 = o) = s.world.closed.filter (fun c ↦ c.1 = o) := by
  obtain ⟨M, hM, hlog⟩ := hb.tidy.log
  have hnone : M.filter (fun c ↦ c.1 = o) = [] := by
    rw [List.filter_eq_nil_iff]
    intro c hc heq
    have hentry : c.1.entry = p.entry := by
      rw [of_decide_eq_true heq]
      exact Pipeline.entry_of_mem ho
    exact absurd (hs.past p hp) (Nat.not_le.mpr (hentry ▸ (hlog c hc).1))
  rw [hM, List.filter_append, hnone, List.append_nil]

theorem logged_build (hs : s.Disciplined hist) (hb : b.Laid s.world s.self.build.families w) :
    ∀ c ∈ w.closed, c.1.entry ≤ w.now := by
  obtain ⟨M, hM, hlog⟩ := hb.tidy.log
  rw [hM]
  intro c hc
  rcases List.mem_append.mp hc with hc | hc
  · exact (hs.logged c hc).trans hb.tidy.later.now
  · exact (hlog c hc).2.1

theorem logged_leftOver (hs : s.Disciplined hist)
    (hb : b.Laid s.world s.self.build.families w) :
    ∀ c ∈ leftOver s.self.build b s.pumping, c.1.entry ≤ w.now := by
  intro c hc
  obtain ⟨x, hx, -, -, rfl⟩ := mem_leftOver hc
  exact (hs.entry_le (.inl hx)).trans hb.tidy.later.now

/-- What was closed once of a pipeline that left is of nothing the rebuild closes itself. -/
theorem filter_leftOver (hs : s.Disciplined hist) {o : Obj} {t : Obj × Thread}
    (hclosed : s.world.closed.filter (fun c ↦ c.1 = o) = [t]) :
    (leftOver s.self.build b s.pumping).filter (fun c ↦ c.1 = o) = [] := by
  have hmem : t ∈ s.world.closed ∧ t.1 = o := by
    have h := List.mem_filter.mp (hclosed ▸ List.mem_singleton_self t)
    exact ⟨h.1, of_decide_eq_true h.2⟩
  rw [List.filter_eq_nil_iff]
  intro c hc heq
  obtain ⟨x, hx, -, -, rfl⟩ := mem_leftOver hc
  exact hs.unclosed x (.inl hx) _ x.source_mem t hmem.1 (hmem.2.trans (of_decide_eq_true heq).symm)

/-- **A rebuild that swaps nothing** keeps the discipline, however far it came. -/
theorem keep (hs : s.Disciplined hist) (hb : b.Laid s.world s.self.build.families w) {s' : State}
    (hlater : w.Later s'.world) (hborn : ∀ p ∈ b.pipelines, p.id < s'.world.born)
    (hbuild : s'.self.build = b) (hpumping : s'.pumping = s.pumping)
    (hclosed : s'.world.closed = w.closed ∨
      s'.world.closed = w.closed ++ leftOver s.self.build b s.pumping) :
    s'.Disciplined hist := by
  have hmem : ∀ c ∈ s'.world.closed, c ∈ w.closed ∨ c ∈ leftOver s.self.build b s.pumping := by
    intro c hc
    rcases hclosed with heq | heq <;> rw [heq] at hc
    · exact .inl hc
    · exact List.mem_append.mp hc
  refine ⟨⟨?_, ?_⟩, ?_, ?_, ?_, ?_, ?_, ?_, ?_, ?_⟩
  · rw [hbuild]
    rintro f ⟨t, ht, rfl⟩ p hp
    refine ⟨hborn p ?_, (hb.tidy.past _ ⟨t, ht, rfl⟩ p hp).trans hlater.now⟩
    rw [hb.pipelines]
    exact List.mem_flatMap.mpr ⟨t, ht, hp⟩
  · rw [hbuild]
    exact hb.tidy.whole
  · rw [hbuild]
    exact hb.pipelines
  · intro c hc
    rcases hmem c hc with hc | hc
    · exact (hs.logged_build hb c hc).trans hlater.now
    · exact (hs.logged_leftOver hb c hc).trans hlater.now
  · exact fun p hp ↦ (hs.past p hp).trans (hb.tidy.later.now.trans hlater.now)
  · rw [hpumping]
    exact hs.ran
  · rw [hbuild, hpumping]
    intro p hp o ho c hc
    rcases hmem c hc with hc | hc
    · exact hs.unclosed_build hb hp ho c hc
    · exact hs.unclosed_leftOver hb hp ho c hc
  · rw [hbuild, hpumping]
    exact fun p hp q hq hpq ↦ (hs.carry hb (.inr hp) hq hpq).1
  · rw [hbuild, hpumping]
    intro p hp q hq hsource
    have hentry : p.entry = q.entry := (congrArg Obj.entry hsource).symm
    exact hs.shared p hp q (hs.carry hb (.inr hp) hq hentry).2 hsource
  · rw [hpumping]
    intro p hp hleft o ho hheld
    obtain ⟨q, hq, hqp, hoq, hfilter⟩ := hs.left p hp hleft o ho hheld
    refine ⟨q, hq, hqp, hoq, ?_⟩
    rcases hclosed with heq | heq <;> rw [heq]
    · rw [hs.filter_closed hb hp ho, hfilter]
    · rw [List.filter_append, hs.filter_closed hb hp ho, hfilter, hs.filter_leftOver hfilter,
        List.append_nil]

theorem mem_replaced {pumping new : List Pipeline} {c : Obj × Thread}
    (hc : c ∈ replaced pumping new) :
    ∃ r ∈ pumping, r ∉ new ∧ c.1 ∈ r.objects ∧ c.2 = .pump r.id ∧ ∀ q ∈ new, c.1 ∉ q.objects := by
  obtain ⟨hmem, hheld⟩ := mem_closeEach hc
  obtain ⟨r, hr, hid, o, ho, rfl⟩ := mem_removedParts.mp hmem
  exact ⟨r, hr, fun hnew ↦ hid (List.mem_map_of_mem hnew), ho, rfl,
    fun q hq hoq ↦ hheld (List.mem_flatMap.mpr ⟨q, hq, hoq⟩)⟩

/-- **What a removed pipeline held is closed once**, on the thread of a removed pipeline, unless a
new one holds it. -/
theorem filter_replaced {pumping new : List Pipeline} {r : Pipeline} (hr : r ∈ pumping) {o : Obj}
    (ho : o ∈ r.objects) (hinj : ∀ q ∈ new, q.id = r.id → q = r)
    (hheld : ∀ q ∈ new, o ∉ q.objects) :
    ∃ r' ∈ pumping, r' ∉ new ∧ o ∈ r'.objects ∧
      (replaced pumping new).filter (fun c ↦ c.1 = o) = [(o, .pump r'.id)] := by
  have hremoved : (o, Thread.pump r.id) ∈ removedParts pumping new := by
    refine mem_removedParts.mpr ⟨r, hr, fun hid ↦ ?_, o, ho, rfl⟩
    obtain ⟨q, hq, hqr⟩ := List.mem_map.mp hid
    exact hheld q hq (hinj q hq hqr ▸ ho)
  have hfilter : (replaced pumping new).filter (fun c ↦ c.1 = o) =
      ((removedParts pumping new).find? fun c ↦ c.1 = o).toList :=
    filter_closeEach (fun hmem ↦ by
      obtain ⟨q, hq, hoq⟩ := List.mem_flatMap.mp hmem
      exact hheld q hq hoq) _ List.not_mem_nil
  obtain ⟨c, hc⟩ : ∃ c, (removedParts pumping new).find? (fun c ↦ c.1 = o) = some c :=
    Option.isSome_iff_exists.mp (List.find?_isSome.mpr ⟨_, hremoved, by simp⟩)
  obtain ⟨r', hr', hid, o', ho', rfl⟩ := mem_removedParts.mp (List.mem_of_find?_eq_some hc)
  have heq : o' = o := by simpa using List.find?_some hc
  subst heq
  exact ⟨r', hr', fun hnew ↦ hid (List.mem_map_of_mem hnew), ho', by rw [hfilter, hc]; rfl⟩

/-- **A rebuild that swaps the running set** keeps the discipline, when the store check holds back
no pipeline that runs. -/
theorem swap (hs : s.Disciplined hist) (hb : b.Laid s.world s.self.build.families w) {s' : State}
    {v : ℕ} (hlater : w.Later s'.world) (hborn : ∀ p ∈ b.pipelines, p.id < s'.world.born)
    (hbuild : s'.self.build = b) (hpumping : s'.pumping = (splitRefused v b.pipelines).1)
    (hversion : v < PRODUCER_STORE_VERSION → ∀ p ∈ s.pumping, p.producer = false)
    (hinj : ∀ q ∈ s'.pumping, ∀ r ∈ s.pumping, q.id = r.id → q = r)
    (hclosed : s'.world.closed =
      w.closed ++ leftOver s.self.build b s.pumping ++ replaced s.pumping s'.pumping) :
    s'.Disciplined (hist ++ s'.pumping) := by
  have hnew : ∀ p ∈ s'.pumping, p ∈ b.pipelines := fun p hp ↦ by
    rw [hpumping] at hp
    exact (mem_splitRefused.mp hp).1
  have hlast : ∀ p ∈ b.pipelines, p.entry ≤ s'.world.now := fun p hp ↦ by
    rw [hb.pipelines] at hp
    obtain ⟨t, ht, hpt⟩ := List.mem_flatMap.mp hp
    exact (hb.tidy.past _ ⟨t, ht, rfl⟩ p hpt).trans hlater.now
  have hmem : ∀ c ∈ s'.world.closed, c ∈ w.closed ∨ c ∈ leftOver s.self.build b s.pumping ∨
      c ∈ replaced s.pumping s'.pumping := by
    intro c hc
    rw [hclosed, List.append_assoc] at hc
    exact (List.mem_append.mp hc).imp_right List.mem_append.mp
  -- a running pipeline that the new build holds runs on
  have hruns : ∀ r ∈ s.pumping, r ∈ b.pipelines → r ∈ s'.pumping := fun r hr hrb ↦ by
    rw [hpumping]
    refine mem_splitRefused.mpr ⟨hrb, fun hprod ↦ Nat.not_lt.mp fun hv ↦ ?_⟩
    rw [hversion hv r hr] at hprod
    cases hprod
  have hunclosed : ∀ p ∈ b.pipelines, ∀ o ∈ p.objects, ∀ c ∈ s'.world.closed, c.1 ≠ o := by
    intro p hp o ho c hc
    rcases hmem c hc with hc | hc | hc
    · exact hs.unclosed_build hb (.inl hp) ho c hc
    · exact hs.unclosed_leftOver hb (.inl hp) ho c hc
    · rintro rfl
      obtain ⟨r, hr, hrnew, hor, -, -⟩ := mem_replaced hc
      have hentry : r.entry = p.entry :=
        (Pipeline.entry_of_mem hor).symm.trans (Pipeline.entry_of_mem ho)
      exact hrnew (hruns r hr (hs.carry hb (.inr hr) hp hentry).1)
  refine ⟨⟨?_, ?_⟩, ?_, ?_, ?_, ?_, ?_, ?_, ?_, ?_⟩
  · rw [hbuild]
    rintro f ⟨t, ht, rfl⟩ p hp
    have hpb : p ∈ b.pipelines := by
      rw [hb.pipelines]
      exact List.mem_flatMap.mpr ⟨t, ht, hp⟩
    exact ⟨hborn p hpb, hlast p hpb⟩
  · rw [hbuild]
    exact hb.tidy.whole
  · rw [hbuild]
    exact hb.pipelines
  · intro c hc
    rcases hmem c hc with hc | hc | hc
    · exact (hs.logged_build hb c hc).trans hlater.now
    · exact (hs.logged_leftOver hb c hc).trans hlater.now
    · obtain ⟨r, hr, -, hor, -, -⟩ := mem_replaced hc
      rw [Pipeline.entry_of_mem hor]
      exact (hs.entry_le (.inr hr)).trans (hb.tidy.later.now.trans hlater.now)
  · intro p hp
    rcases List.mem_append.mp hp with hp | hp
    · exact (hs.past p hp).trans (hb.tidy.later.now.trans hlater.now)
    · exact hlast p (hnew p hp)
  · exact fun p hp ↦ List.mem_append_right _ hp
  · rw [hbuild]
    exact fun p hp ↦ hunclosed p (hp.elim id (hnew p))
  · rw [hbuild]
    exact fun p hp _ _ _ ↦ hnew p hp
  · rw [hbuild]
    intro p hp q hq hsource
    rw [hpumping] at hp ⊢
    have hprod : q.producer = p.producer := by
      rw [Pipeline.source, Pipeline.source, Obj.source.injEq] at hsource
      exact hsource.2.2
    exact mem_splitRefused.mpr ⟨hq, fun h ↦ (mem_splitRefused.mp hp).2 (hprod ▸ h)⟩
  · intro p hp hleft o ho hheld
    have hp : p ∈ hist := (List.mem_append.mp hp).resolve_right hleft
    rw [hclosed, List.filter_append, List.filter_append, hs.filter_closed hb hp ho]
    by_cases hran : ∃ r ∈ s.pumping, o ∈ r.objects
    · -- a pipeline that holds it leaves with this rebuild
      obtain ⟨r, hr, hor⟩ := hran
      obtain ⟨r', hr', hrnew, hor', hfilter⟩ :=
        filter_replaced hr hor (fun q hq ↦ hinj q hq r hr) hheld
      refine ⟨r', List.mem_append_left _ (hs.ran r' hr'), hrnew, hor', ?_⟩
      have hnone : s.world.closed.filter (fun c ↦ c.1 = o) = [] :=
        List.filter_eq_nil_iff.mpr fun c hc heq ↦
          hs.unclosed r (.inr hr) o hor c hc (of_decide_eq_true heq)
      have hnone' : (leftOver s.self.build b s.pumping).filter (fun c ↦ c.1 = o) = [] :=
        List.filter_eq_nil_iff.mpr fun c hc heq ↦
          hs.unclosed_leftOver hb (.inr hr) hor c hc (of_decide_eq_true heq)
      rw [hnone, hnone', hfilter]
      rfl
    · -- it was closed when the last pipeline that held it left
      have hgone : ∀ q ∈ s.pumping, o ∉ q.objects := fun q hq hoq ↦ hran ⟨q, hq, hoq⟩
      obtain ⟨q, hq, hqp, hoq, hfilter⟩ := hs.left p hp (fun hpp ↦ hgone p hpp ho) o ho hgone
      refine ⟨q, List.mem_append_left _ hq, fun hqn ↦ hheld q hqn hoq, hoq, ?_⟩
      have hnone : (replaced s.pumping s'.pumping).filter (fun c ↦ c.1 = o) = [] :=
        List.filter_eq_nil_iff.mpr fun c hc heq ↦ by
          obtain ⟨r, hr, -, hor, -, -⟩ := mem_replaced hc
          exact hgone r hr (of_decide_eq_true heq ▸ hor)
      rw [hfilter, hs.filter_leftOver hfilter, hnone]
      rfl

/-- Whatever closes only what entries built since keeps the discipline. -/
theorem kept (hs : s.Disciplined hist) {s' : State} (hk : s.Kept s')
    (hlog : s.world.Logged s'.world) : s'.Disciplined hist := by
  obtain ⟨M, hM, hnew⟩ := hlog
  have hfresh : ∀ p : Pipeline, p.entry ≤ s.world.now → ∀ o ∈ p.objects, ∀ c ∈ M, c.1 ≠ o := by
    rintro p hp o ho c hc rfl
    exact absurd hp (Nat.not_le.mpr (Pipeline.entry_of_mem ho ▸ (hnew c hc).1))
  refine ⟨⟨?_, ?_⟩, ?_, ?_, ?_, ?_, ?_, ?_, ?_, ?_⟩
  · rw [hk.build]
    exact fun f hf p hp ↦ ⟨(hs.founded.past f hf p hp).1.trans_le hk.later.born,
      (hs.founded.past f hf p hp).2.trans hk.later.now⟩
  · rw [hk.build]
    exact hs.founded.whole
  · rw [hk.build]
    exact hs.pipelines
  · intro c hc
    rw [hM] at hc
    rcases List.mem_append.mp hc with hc | hc
    · exact (hs.logged c hc).trans hk.later.now
    · exact (hnew c hc).2
  · exact fun p hp ↦ (hs.past p hp).trans hk.later.now
  · rw [hk.pumping]
    exact hs.ran
  · rw [hk.build, hk.pumping]
    intro p hp o ho c hc
    rw [hM] at hc
    rcases List.mem_append.mp hc with hc | hc
    · exact hs.unclosed p hp o ho c hc
    · exact hfresh p (hs.entry_le hp) o ho c hc
  · rw [hk.build, hk.pumping]
    exact hs.together
  · rw [hk.build, hk.pumping]
    exact hs.shared
  · rw [hk.pumping]
    intro p hp hleft o ho hheld
    obtain ⟨q, hq, hqp, hoq, hfilter⟩ := hs.left p hp hleft o ho hheld
    have hnone : M.filter (fun c ↦ c.1 = o) = [] := List.filter_eq_nil_iff.mpr fun c hc heq ↦
      hfresh p (hs.past p hp) o ho c hc (of_decide_eq_true heq)
    exact ⟨q, hq, hqp, hoq, by rw [hM, List.filter_append, hfilter, hnone]; rfl⟩

/-- The running pipelines have run. -/
theorem more (hs : s.Disciplined hist) : s.Disciplined (hist ++ s.pumping) where
  founded := hs.founded
  pipelines := hs.pipelines
  logged := hs.logged
  past p hp := (List.mem_append.mp hp).elim (hs.past p) fun hp ↦ hs.entry_le (.inr hp)
  ran _ hp := List.mem_append_right _ hp
  unclosed := hs.unclosed
  together := hs.together
  shared := hs.shared
  left p hp hleft o ho hheld := by
    obtain ⟨q, hq, hrest⟩ :=
      hs.left p ((List.mem_append.mp hp).resolve_right hleft) hleft o ho hheld
    exact ⟨q, List.mem_append_left _ hq, hrest⟩

end State.Disciplined

/-! ## A start -/

theorem wp_start_laid (s : State) :
    wp (start h)
      (fun _ s' ↦ ∃ (draft : Draft) (w : World), draft.Laid h s.world ∅ w ∧ w.Later s'.world ∧
        s'.world.closed = w.closed ∧ s'.self.build = draft.build ∧ s'.pumping = draft.running)
      (fun _ _ ↦ True) (fun _ ↦ False) s := by
  rw [start, wp_bind, wp_get, wp_bind, onWorld, wp_zoom]
  have hempty : Founded s.world (Option.elim none ∅ Build.families) :=
    ⟨fun f hf ↦ absurd hf (Set.notMem_empty f), fun f hf ↦ absurd hf (Set.notMem_empty f)⟩
  refine wp_mono (wp_make_laid s.self.manifest none true s.world hempty) (fun draft w hd ↦ ?_)
    (fun _ _ _ ↦ trivial) fun _ h ↦ h
  rw [wp_bind]
  refine wp_mono (wp_and (Tame.call h.recordStates _) (gentle_closed.call h.recordStates _))
    (fun _ s₁ h₁ ↦ ?_) (fun _ _ _ ↦ trivial) fun _ h ↦ h.1
  rw [wp_bind, setSelf, wp_modify, wp_bind]
  refine wp_mono (wp_and (tame_startingPass draft.running _)
    (gentle_closed.startingPass draft.running _)) (fun _ s₂ h₂ ↦ ?_) (fun _ _ _ ↦ trivial)
    fun _ h ↦ h.1
  rw [wp_bind]
  refine wp_mono (wp_and (tame_reportSwitches s₂) (gentle_closed.reportSwitches s₂))
    (fun _ s₃ h₃ ↦ ?_) (fun _ _ _ ↦ trivial) fun _ h ↦ h.1
  rw [wp_modify]
  have hk := h₂.1.trans h₃.1
  exact ⟨draft, w, hd, h₁.1.later.trans hk.later,
    h₃.2.1.trans (h₂.2.1.trans h₁.2.1), hk.build, rfl⟩

/-- A daemon that starts keeps the discipline. -/
theorem State.Disciplined.start {s : State} {w₀ w : World} {draft : Draft} (hclosed : w₀.closed = [])
    (hd : draft.Laid h w₀ ∅ w) (hlater : w.Later s.world) (hlog : s.world.closed = w.closed)
    (hbuild : s.self.build = draft.build) (hpumping : s.pumping = draft.running)
    (hborn : ∀ p ∈ s.self.build.pipelines, p.id < s.world.born) :
    s.Disciplined s.pumping := by
  obtain ⟨hb, n, v, -, -, -, hrunning⟩ := hd
  obtain ⟨M, hM, hnew⟩ := hb.tidy.log
  rw [hclosed, List.nil_append] at hM
  have hfamily : ∀ p ∈ draft.build.pipelines, ∃ f ∈ draft.build.families, p ∈ f := fun p hp ↦ by
    rw [hb.pipelines] at hp
    obtain ⟨t, ht, hpt⟩ := List.mem_flatMap.mp hp
    exact ⟨_, ⟨t, ht, rfl⟩, hpt⟩
  have hruns : ∀ p ∈ s.pumping, p ∈ draft.build.pipelines := fun p hp ↦ by
    rw [hpumping, hrunning] at hp
    exact (mem_splitRefused.mp hp).1
  have hpast : ∀ p ∈ draft.build.pipelines, p.entry ≤ s.world.now := fun p hp ↦ by
    obtain ⟨f, hf, hpf⟩ := hfamily p hp
    exact (hb.tidy.past f hf p hpf).trans hlater.now
  refine ⟨⟨?_, ?_⟩, ?_, ?_, fun p hp ↦ hpast p (hruns p hp), fun p hp ↦ hp, ?_, ?_, ?_, ?_⟩
  · rw [hbuild]
    rintro f ⟨t, ht, rfl⟩ p hp
    have hpb : p ∈ draft.build.pipelines := by
      rw [hb.pipelines]
      exact List.mem_flatMap.mpr ⟨t, ht, hp⟩
    exact ⟨hborn p (hbuild ▸ hpb), hpast p hpb⟩
  · rw [hbuild]
    exact hb.tidy.whole
  · rw [hbuild]
    exact hb.pipelines
  · intro c hc
    rw [hlog, hM] at hc
    exact (hnew c hc).2.1.trans hlater.now
  · rw [hbuild]
    rintro p hp o ho c hc rfl
    rw [hlog, hM] at hc
    obtain ⟨f, hf, hpf⟩ := hfamily p (hp.elim id (hruns p))
    exact (hnew c hc).2.2 f hf p hpf (Pipeline.entry_of_mem ho).symm
  · rw [hbuild]
    exact fun p hp _ _ _ ↦ hruns p hp
  · rw [hbuild, hpumping, hrunning]
    intro p hp q hq hsource
    have hprod : q.producer = p.producer := by
      rw [Pipeline.source, Pipeline.source, Obj.source.injEq] at hsource
      exact hsource.2.2
    exact mem_splitRefused.mpr ⟨hq, fun h ↦ (mem_splitRefused.mp hp).2 (hprod ▸ h)⟩
  · exact fun p hp hleft ↦ absurd hp hleft

/-! ## A life -/

/-- A daemon's life, with the pipelines that have run in it: a start, rebuilds that return or raise,
each of them as `C` says, and anything in between that builds, swaps and closes nothing. -/
inductive Lives (h : Host) (manifest : Manifest) (C : State → State → Prop) :
    List Pipeline → State → Prop
  | start {marker : Bool} {records : List (Key × Bytes)} {s : State}
      (hrun : start h (.initial manifest marker records) = (.ok (), s)) : Lives h manifest C s.pumping s
  | rebuild {hist : List Pipeline} {s s' : State} {r : Res Exn Bool} (hs : Lives h manifest C hist s)
      (hC : C s s') (hrun : rebuild h s = (r, s')) : Lives h manifest C (hist ++ s'.pumping) s'
  | other {hist : List Pipeline} {s s' : State} (hs : Lives h manifest C hist s) (hk : s.Kept s')
      (hclosed : s'.world.closed = s.world.closed) : Lives h manifest C hist s'

theorem Lives.reached {manifest : Manifest} {C : State → State → Prop} {hist : List Pipeline}
    {s : State} (hs : Lives h manifest C hist s) : Reached h manifest s := by
  induction hs with
  | start hrun => exact .start hrun
  | rebuild _ _ hrun ih => exact ih.rebuild hrun
  | other _ hk _ ih => exact ih.other hk

/-- No object of a running pipeline is closed, and what a pipeline that has left held and no running
one holds is closed once, on the thread of a pipeline that has left and held it. -/
def CloseDiscipline (hist : List Pipeline) (s : State) : Prop :=
  (∀ p ∈ s.pumping, ∀ o ∈ p.objects, ∀ c ∈ s.world.closed, c.1 ≠ o) ∧
    ∀ p ∈ hist, p ∉ s.pumping → ∀ o ∈ p.objects, (∀ q ∈ s.pumping, o ∉ q.objects) →
      ∃ q ∈ hist, q ∉ s.pumping ∧ o ∈ q.objects ∧
        s.world.closed.filter (fun c ↦ c.1 = o) = [(o, .pump q.id)]

/-- While a producer pipeline runs, the rebuild reads no store version below the producers'. -/
def NeverHeld (h : Host) (s s' : State) : Prop :=
  ∀ n v, s.world.now ≤ n → n < s'.world.now → h.schemaVersion n = .ok v →
    v < PRODUCER_STORE_VERSION → ∀ p ∈ s.pumping, p.producer = false

theorem wp_rebuild_laid (s : State) (hs : Founded s.world s.self.build.families) :
    wp (rebuild h)
      (fun b s' ↦ ∃ (draft : Draft) (s₁ : State), s.Kept s₁ ∧
        Drafted h s.self.manifest (some s.self.build) s.world s₁.world draft ∧
        draft.Laid h s.world s.self.build.families s₁.world ∧
        (if b then Committed s₁ draft draft.running draft.running s'
          else Committed s₁ draft s.self.running s.pumping s') ∧
        s'.world.closed = s₁.world.closed ++ leftOver s.self.build draft.build s.pumping ++
          if b then replaced s.pumping draft.running else [])
      (fun _ s' ↦ (s.Kept s' ∧ s.world.Logged s'.world) ∨
        ∃ (draft : Draft) (s₁ : State), s.Kept s₁ ∧
        Drafted h s.self.manifest (some s.self.build) s.world s₁.world draft ∧
        draft.Laid h s.world s.self.build.families s₁.world ∧
        Committed s₁ draft s.self.running s.pumping s' ∧
        (s'.world.closed = s₁.world.closed ∨
          s'.world.closed = s₁.world.closed ++ leftOver s.self.build draft.build s.pumping))
      (fun _ ↦ False) s := by
  rw [rebuild, wp_bind, wp_get, wp_bind]
  refine wp_mono (wp_and (wp_prepare s) (wp_prepare_laid s hs)) ?_ (fun _ _ h ↦ .inl h)
    fun _ h ↦ h.1
  rintro ⟨draft, changed⟩ s₁ ⟨⟨hk, hd, -⟩, hl⟩
  have hcommit := wp_and (wp_commit (h := h) s.self.build draft changed s₁)
    (wp_commit_closed s.self.build draft changed s₁)
  rw [hk.running, hk.pumping] at hcommit
  refine wp_mono hcommit ?_ (fun _ s' hc ↦ .inr ⟨draft, s₁, hk, hd, hl, hc⟩) fun _ h ↦ h.1
  rintro b s' ⟨⟨rfl, hc⟩, hclosed⟩
  exact ⟨draft, s₁, hk, hd, hl, hc, hclosed⟩

/-- A rebuild that holds back no pipeline that runs keeps the discipline. -/
theorem State.Disciplined.rebuild {manifest : Manifest} {hist : List Pipeline} {s s' : State}
    {r : Res Exn Bool} (hs : s.Disciplined hist) (hr : Reached h manifest s)
    (hC : NeverHeld h s s') (hrun : rebuild h s = (r, s')) :
    s'.Disciplined (hist ++ s'.pumping) := by
  obtain ⟨S, hS⟩ := hr.tracked
  have hsound := hr.sound
  have hknown : ∀ {draft : Draft} {w : World},
      Drafted h s.self.manifest (some s.self.build) s.world w draft →
      draft.Laid h s.world s.self.build.families w →
      ∃ T, S ⊆ T ∧ Known w T ∧ (∀ p ∈ draft.build.pipelines, p ∈ T) ∧ ∀ p ∈ draft.running, p ∈ T :=
    fun hd hl ↦ by
      obtain ⟨T, hST, hT, hpipes, hrunning⟩ := hd.tracked hS.known hS.build hl.build.pipelines
      exact ⟨T, hST, hT, by rw [hl.build.pipelines]; exact hpipes, hrunning⟩
  -- a rebuild that commits and swaps nothing
  have hkeep : ∀ {draft : Draft} {s₁ : State}, s.Kept s₁ →
      Drafted h s.self.manifest (some s.self.build) s.world s₁.world draft →
      draft.Laid h s.world s.self.build.families s₁.world →
      Committed s₁ draft s.self.running s.pumping s' →
      (s'.world.closed = s₁.world.closed ∨
        s'.world.closed = s₁.world.closed ++ leftOver s.self.build draft.build s.pumping) →
      s'.Disciplined (hist ++ s'.pumping) := by
    intro draft s₁ _ hd hl hc hclosed
    obtain ⟨T, -, hT, hpipes, -⟩ := hknown hd hl
    exact (hs.keep hl.build hc.later (fun p hp ↦ (hT.born p (hpipes p hp)).trans_le hc.later.born)
      hc.build hc.pumping hclosed).more
  have hwp := wp_rebuild_laid (h := h) s hs.founded
  rw [wp, hrun] at hwp
  rcases r with b | e | _ | _
  · obtain ⟨draft, s₁, hk, hd, hl, hc, hclosed⟩ := hwp
    cases b with
    | false => exact hkeep hk hd hl hc (.inr (hclosed.trans (List.append_nil _)))
    | true =>
      rw [if_pos rfl] at hc hclosed
      obtain ⟨T, hST, hT, hpipes, hrunning⟩ := hknown hd hl
      obtain ⟨n, v, hn, hlt, hv, hsplit⟩ := hl.running
      refine hs.swap hl.build hc.later (fun p hp ↦ (hT.born p (hpipes p hp)).trans_le hc.later.born)
        hc.build (hc.pumping.trans hsplit)
        (fun hlow ↦ hC n v hn (hlt.trans_le hc.later.now) hv hlow) ?_ ?_
      · rw [hc.pumping]
        intro q hq p hp
        exact hT.inj q (hrunning q hq) p (hST (hS.running p (hsound.running ▸ hp)))
      · rw [hclosed, hc.pumping]
  · rcases hwp with ⟨hk, hlog⟩ | ⟨draft, s₁, hk, hd, hl, hc, hclosed⟩
    · exact (hs.kept hk hlog).more
    · exact hkeep hk hd hl hc hclosed
  · exact hwp.elim
  · exact hwp.elim

/-- **The close discipline**, over the life of a daemon whose store check never holds back a
pipeline that runs. -/
theorem close_discipline (h : Host) (manifest : Manifest) (hist : List Pipeline) (s : State)
    (hs : Lives h manifest (NeverHeld h) hist s) : CloseDiscipline hist s := by
  suffices hd : s.Disciplined hist from
    ⟨fun p hp ↦ hd.unclosed p (.inr hp), hd.left⟩
  induction hs with
  | @start marker records s hrun =>
    obtain ⟨draft, w, hl, hlater, hclosed, hbuild, hpumping⟩ := wp_ok (wp_start_laid _) hrun
    obtain ⟨S, hS⟩ := (Reached.start hrun).tracked
    refine .start rfl hl hlater hclosed hbuild hpumping fun p hp ↦ hS.known.born p (hS.build p ?_)
    rw [← (Reached.start hrun).sound.build.pipelines]
    exact hp
  | rebuild hs hC hrun ih => exact ih.rebuild hs.reached hC hrun
  | other _ hk hclosed ih =>
    exact ih.kept hk ⟨[], by rw [hclosed, List.append_nil], fun c hc ↦ absurd hc List.not_mem_nil⟩

section example_host

theorem Lives.wait {manifest : Manifest} {C : State → State → Prop} {hist : List Pipeline} {s : State}
    (hs : Lives h manifest C hist s) {now : ℕ} (hn : s.world.now ≤ now) :
    Lives h manifest C hist (s.at now) :=
  hs.other ⟨⟨hn, le_rfl⟩, rfl, rfl, rfl, rfl, rfl, rfl, rfl⟩ rfl

/-- Two files, one of which is removed. -/
def removedFile : Host :=
  hostOf fun n ↦ if n < 40 then
    diskOf 0 [("a.toml", namesFile "a" ["a1"]), ("b.toml", namesFile "b" ["b1"])]
  else diskOf 1 [("a.toml", namesFile "a" ["a1"])]

theorem close_discipline_removedFile :
    let s := (start removedFile (.initial {} true [])).2.at 40
    let s' := (rebuild removedFile s).2
    CloseDiscipline (s.pumping ++ s'.pumping) s' ∧ s.pumping.map Pipeline.id = [0, 1] ∧
      s'.pumping.map Pipeline.id = [0] ∧ s'.world.closed.map Prod.snd = [.pump 1, .pump 1] := by
  intro s s'
  have hok : start removedFile (.initial {} true []) =
      (.ok (), (start removedFile (.initial {} true [])).2) :=
    run_ok (by decide)
  have hlives : Lives removedFile {} (NeverHeld removedFile) s.pumping s :=
    (Lives.start hok).wait (by decide)
  have hnever : NeverHeld removedFile s s' := fun n v _ _ hv hlow ↦ by
    cases hv
    exact absurd hlow (by decide)
  exact ⟨close_discipline removedFile {} _ s' (hlives.rebuild hnever rfl), by decide,
    by decide, by decide⟩

/-- A host whose one entry reads a producer's table, and whose store stands at version 1 for a
while. -/
def loweredStore : Host :=
  { hostOf (fun _ ↦ diskOf 0 [("a.toml", namesFile "a" ["a1"])]) with
    generic := fun _ e _ ↦
      .ok { name := "", key := .ok (e.text "name" "", "dest", "table"), producer := true }
    schemaVersion := fun n ↦ .ok (if 40 ≤ n ∧ n < 80 then 1 else 3) }

/-- The pipeline is held back and closed, and runs again once the version is what it was: with its
source closed. -/
theorem close_discipline_broken :
    ¬ ∀ (h : Host) (manifest : Manifest) (hist : List Pipeline) (s : State),
      Lives h manifest (fun _ _ ↦ True) hist s → CloseDiscipline hist s := by
  intro hevery
  have hok : start loweredStore (.initial {} true []) =
      (.ok (), (start loweredStore (.initial {} true [])).2) :=
    run_ok (by decide)
  have hwait : Lives loweredStore {} (fun _ _ ↦ True) _
      ((start loweredStore (.initial {} true [])).2.at 40) :=
    (Lives.start hok).wait (by decide)
  have hheld : Lives loweredStore {} (fun _ _ ↦ True) _
      ((rebuild loweredStore ((start loweredStore (.initial {} true [])).2.at 40)).2.at 80) :=
    (hwait.rebuild trivial rfl).wait (by decide)
  have hruns := hheld.rebuild trivial rfl
  have hopen := (hevery _ _ _ _ hruns).1
  revert hopen
  decide

end example_host

end Daemon
end HsUploader
