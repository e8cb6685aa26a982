import Mathlib.Data.List.Forall2
import HsUploader.Daemon.LastGood

/-!
# A rebuild and a start from nothing

When nothing is refused, a build fills the slots its layout asks for, one after the other, whatever
it started from.  So the build made on top of a previous one and the build made from nothing agree
slot by slot, once equal labels give equal pipelines.  They do when the builders answer by the entry
and the entry spells its name and its client as the reused one did: Python takes `1`, `1.0` and
`true` for equal, and `str` does not.

## What is here

* `Fits` and `Assembled.fits` — a build that refuses nothing, slot by slot.
* `Host.Steady` and `SpelledAlike` — what is asked of builders and entries.
* `plainOf` and `answer_congr` — a pipeline but for its identity, and equal labels with equal
  answers.
* `Alike` and `rebuild_eq_fresh` — the two builds side by side.
* `oneEntry` and `nextEntries` — a name that changes from `1` to `1.0`, and is kept as it was.
-/

set_option autoImplicit false

namespace HsUploader
namespace Daemon

open Prog

variable {h : Host}

/-! ## The slots a filling adds -/

/-- The slot is one the entry asks for: one of the free ones, or one of the entry itself. -/
def Fits (free : List Slot) (a : Ask) (s : Slot) : Prop :=
  s.label = a.1 ∧ (s ∈ free ∨ s.entry = a.2)

theorem Fits.mono {free free' : List Slot} {a : Ask} {s : Slot} (hf : Fits free a s)
    (hsub : free ⊆ free') : Fits free' a s := ⟨hf.1, hf.2.imp_left fun hs ↦ hsub hs⟩

namespace Filling

variable {as : List Ask} {pool pool' : List Slot} {b b' : Built}

theorem pool_subset (hf : Filling h as pool b pool' b') : pool' ⊆ pool := by
  obtain ⟨slots, taken, made, -, -, -, -, -, hpool, -, -⟩ := hf.spec
  exact fun s hs ↦ hpool.symm.subset (List.mem_append_right _ hs)

/-- Each entry gets a slot that fits it. -/
theorem fits (hf : Filling h as pool b pool' b') :
    ∃ slots, b'.slots = b.slots ++ slots ∧ List.Forall₂ (Fits pool) as slots := by
  induction hf with
  | done pool b => exact ⟨[], by simp, .nil⟩
  | @reuse a as pool pool₁ pool' b b' s htake _ ih =>
    obtain ⟨slots, hslots, hfits⟩ := ih
    obtain ⟨hlabel, htaken⟩ := Pool.take_eq_some htake
    have hsub : pool₁ ⊆ pool := fun t ht ↦ htaken.symm.subset (List.mem_cons_of_mem _ ht)
    refine ⟨s :: slots, ?_, .cons ⟨hlabel, .inl ?_⟩ (hfits.imp fun _ _ hf ↦ hf.mono hsub)⟩
    · rw [hslots, Built.reuse, List.append_assoc, List.singleton_append]
    · exact htaken.symm.subset List.mem_cons_self
  | @make a as pool pool' b b' pipes htake hl hs _ ih =>
    obtain ⟨slots, hslots, hfits⟩ := ih
    refine ⟨⟨a.1.1, a.1.2.1, a.2, pipes⟩ :: slots, ?_, .cons ⟨?_, .inr rfl⟩ hfits⟩
    · rw [hslots, Built.make, List.append_assoc, List.singleton_append]
    · rw [Slot.label, ← hl]

end Filling

/-- What two builds gave, one after the other. -/
def Built.append (c b : Built) : Built := ⟨c.slots ++ b.slots, c.taken ++ b.taken, c.fresh ++ b.fresh⟩

theorem Built.append_nil (c : Built) : c.append {} = c := by
  simp [Built.append]

/-- A filling may start from anything built before. -/
theorem Filling.after {as : List Ask} {pool pool' : List Slot} {b b' : Built}
    (hf : Filling h as pool b pool' b') (c : Built) :
    Filling h as pool (c.append b) pool' (c.append b') := by
  induction hf with
  | done pool b => exact .done pool _
  | @reuse a as pool pool₁ pool' b b' s htake _ ih =>
    refine .reuse htake ?_
    have happ : (c.append b).reuse s = c.append (b.reuse s) := by
      simp [Built.append, Built.reuse]
    rw [happ]
    exact ih
  | @make a as pool pool' b b' pipes htake hl hs _ ih =>
    refine .make htake hl hs ?_
    have happ : (c.append b).make a.1 a.2 pipes = c.append (b.make a.1 a.2 pipes) := by
      simp [Built.append, Built.make]
    rw [happ]
    exact ih

/-! ## A build that refuses nothing -/

theorem Settled.accepts {l : Layout} {prevGood : List (String × List Entry)} {origin : String}
    {d d' : Desk} (hs : Settled h l prevGood origin d d') (hnone : d'.refused = []) :
    d.refused = [] ∧ Accepts h origin (l.inFile origin) d d' := by
  cases hs with
  | built _ ha =>
    refine ⟨?_, ha⟩
    obtain ⟨b, pool, claimed, -, -, rfl⟩ := ha
    exact hnone
  | kept _ _ _ ha =>
    obtain ⟨b, pool, claimed, -, -, rfl⟩ := ha
    simp at hnone
  | dropped _ _ _ => simp at hnone

theorem SettledAll.refused_nil {l : Layout} {prevGood : List (String × List Entry)}
    {order : List String} {d d' : Desk} (hs : SettledAll h l prevGood order d d')
    (hnone : d'.refused = []) : d.refused = [] := by
  induction hs with
  | nil d => exact hnone
  | cons first _ ih => exact (first.accepts (ih hnone)).1

/-- What the files of an order ask for. -/
def Layout.fileAsks (l : Layout) (order : List String) : List Ask :=
  order.flatMap fun o ↦ Daemon.fileAsks o (l.inFile o)

/-- Without a refusal the loop over the files is one filling, and each file is entered with slots
that fit it. -/
theorem SettledAll.filling {l : Layout} {prevGood : List (String × List Entry)}
    {order : List String} {d d' : Desk} (hs : SettledAll h l prevGood order d d')
    (hnone : d'.refused = []) (hnodup : order.Nodup) (c : Built) :
    ∃ (f : String → List Slot) (b : Built),
      d'.accepted = d.accepted ++ order.map (fun o ↦ (o, f o)) ∧
      Filling h (l.fileAsks order) d.pool c d'.pool b ∧
      b.slots = c.slots ++ order.flatMap f ∧
      ∀ o ∈ order, List.Forall₂ (Fits d.pool) (fileAsks o (l.inFile o)) (f o) := by
  induction hs generalizing c with
  | nil d => exact ⟨fun _ ↦ [], c, by simp, .done d.pool c, by simp, by simp⟩
  | @cons origin order d d₁ d' first rest ih =>
    obtain ⟨b, pool, claimed, hf, -, hd₁⟩ := (first.accepts (rest.refused_nil hnone)).2
    obtain ⟨hnew, hnodup⟩ := List.nodup_cons.mp hnodup
    obtain ⟨f, b', hacc, hfill, hslots, hfits⟩ := ih hnone hnodup (c.append b)
    have hpool : d₁.pool = pool := by rw [hd₁]
    rw [hpool] at hfill hfits
    have hfirst := hf.after c
    rw [c.append_nil] at hfirst
    obtain ⟨slots, hb, hown⟩ := hf.fits
    rw [List.nil_append] at hb
    obtain ⟨g, hown', hrest⟩ : ∃ g : String → List Slot, g origin = b.slots ∧
        ∀ o ∈ order, g o = f o := by
      refine ⟨fun o ↦ if o = origin then b.slots else f o, if_pos rfl, fun o ho ↦ if_neg ?_⟩
      rintro rfl
      exact hnew ho
    refine ⟨g, b', ?_, hfirst.trans hfill, ?_, ?_⟩
    · have hmap : order.map (fun o ↦ (o, g o)) = order.map fun o ↦ (o, f o) :=
        List.map_congr_left fun o ho ↦ by rw [hrest o ho]
      rw [hacc, hd₁, List.map_cons, hmap, hown', List.append_assoc, List.singleton_append]
    · have hmap : order.flatMap g = order.flatMap f := List.flatMap_congr hrest
      rw [hslots, List.flatMap_cons, hmap, hown', Built.append, List.append_assoc]
    · rw [List.forall_mem_cons, hown', hb]
      refine ⟨hown, fun o ho ↦ ?_⟩
      rw [hrest o ho]
      exact (hfits o ho).imp fun _ _ hf' ↦ hf'.mono hf.pool_subset

/-- The accepted slots in name order. -/
theorem Desk.inOrder_eq {d : Desk} {order : List String} {f : String → List Slot}
    (hacc : d.accepted = order.map fun o ↦ (o, f o)) :
    d.inOrder = (order.insertionSort (· ≤ ·)).flatMap f := by
  have hmap := List.map_insertionSort (r := (· ≤ ·)) (s := fun a b : String × List Slot ↦ a.1 ≤ b.1)
    (fun o ↦ (o, f o)) order fun _ _ _ _ ↦ Iff.rfl
  rw [Desk.inOrder, hacc, ← hmap, List.flatMap_map]

theorem Layout.sort_order (l : Layout) (prevGood : List (String × List Entry)) :
    (l.order prevGood).insertionSort (· ≤ ·) = l.origins := by
  have hperm : (l.order prevGood).Perm l.origins :=
    List.filter_append_perm (l.unchanged prevGood ·) l.origins
  exact ((List.perm_insertionSort _ _).trans hperm).eq_of_pairwise'
    (List.pairwise_insertionSort _ _) (List.pairwise_insertionSort _ _)

/-- Lists that agree piece by piece agree. -/
theorem forall₂_flatMap {ι α β : Type} {R : α → β → Prop} {f : ι → List α} {g : ι → List β}
    {is : List ι} (hf : ∀ i ∈ is, List.Forall₂ R (f i) (g i)) :
    List.Forall₂ R (is.flatMap f) (is.flatMap g) := by
  induction is with
  | nil => exact .nil
  | cons i is ih =>
    rw [List.forall_mem_cons] at hf
    exact List.rel_append hf.1 (ih hf.2)

/-- What a layout asks for, in the order its pipelines run. -/
def Layout.asks (l : Layout) : List Ask := legacyAsks (l.inFile LEGACY) ++ l.fileAsks l.origins

/-- **A build that refuses nothing** holds, for each entry in order, a slot that fits it; each slot
of the previous build is used at most once, and none that was left has the label of a new one. -/
theorem Assembled.fits {l : Layout} {previous : Option Build} {b : Build}
    (hb : Assembled h l previous b) (hnone : b.refused = []) :
    List.Forall₂ (Fits (previous.elim [] Build.slots)) l.asks b.slots ∧
      ∃ reused made left : List Slot, b.slots.Perm (reused ++ made) ∧
        (previous.elim [] Build.slots).Perm (reused ++ left) ∧
        ∀ s ∈ made, ∀ t ∈ left, t.label ≠ s.label := by
  obtain ⟨legacy, pool, claimed, d, hf, -, hd, hslots, -, hrefused, -⟩ := hb
  rw [hrefused] at hnone
  obtain ⟨f, b', hacc, hfill, hb', hfits⟩ := hd.filling hnone (l.order_nodup _) legacy
  rw [List.nil_append] at hacc
  have hinOrder := Desk.inOrder_eq hacc
  rw [l.sort_order] at hinOrder
  obtain ⟨slots, hlegacy, hfitsLegacy⟩ := hf.fits
  rw [List.nil_append] at hlegacy
  constructor
  · rw [hslots, hinOrder, Layout.asks, hlegacy]
    refine List.rel_append hfitsLegacy ?_
    have hfiles : ∀ o ∈ l.origins, List.Forall₂ (Fits (previous.elim [] Build.slots))
        (fileAsks o (l.inFile o)) (f o) := fun o ho ↦
      (hfits o (Layout.mem_order.mpr ho)).imp fun _ _ hs ↦ hs.mono hf.pool_subset
    exact forall₂_flatMap hfiles
  · obtain ⟨slots', reused, made, hall, -, -, -, hperm, hpool, -, hleft⟩ := (hf.trans hfill).spec
    refine ⟨reused, made, d.pool, ?_, hpool, hleft⟩
    rw [List.nil_append, hb'] at hall
    rw [hslots, hinOrder, ← l.sort_order (previous.elim [] Build.good)]
    refine .trans ?_ hperm
    rw [← hall]
    exact ((List.perm_insertionSort _ _).flatMap_right f).append_left _

/-! ## Equal labels, equal pipelines -/

/-- The builders answer by the entry and its origin: entries that are equal get one answer. -/
structure Host.Steady (h : Host) : Prop where
  generic : ∀ (n n' : ℕ) (e e' : Entry) (origin : String), e.code = e'.code →
    h.generic n e origin = h.generic n' e' origin
  builder : ∀ (n n' : ℕ) (e e' : Entry), e.code = e'.code → h.builder n e = h.builder n' e'

/-- The two entries give one text for the name, and one for the client. -/
def SpelledAlike (e e' : Entry) : Prop :=
  e.text "name" "" = e'.text "name" "" ∧ e.text "client" "" = e'.text "client" ""

instance (e e' : Entry) : Decidable (SpelledAlike e e') := inferInstanceAs (Decidable (_ ∧ _))

/-- A pipeline but for the object it is. -/
def Pipeline.plain (p : Pipeline) : Pipeline := { p with id := 0, entry := 0 }

/-- The pipeline the daemon makes of an answer, but for the object. -/
def plainOf (entry : Entry) (origin : String) (m : Made) : Pipeline :=
  { id := 0, entry := 0, name := m.name, client := entry.text "client" ""
    governed := entry.flag "governed" true, origin, key := m.key, producer := m.producer
    heartbeat := m.heartbeat, initial := m.initial, parts := m.parts }

/-- What building the `i`-th entry comes to at a step, but for the objects. -/
def answer (h : Host) (origin : String) (e : ℕ × Entry) (n : ℕ) : Except Exn (List Pipeline) :=
  if e.2.has "builder" then (h.builder n e.2).map (List.map (plainOf e.2 origin))
  else (h.generic n e.2 origin).map fun made ↦
    [plainOf e.2 origin { made with name := e.2.text "name" s!"pipeline-{e.1}" }]

theorem wp_enlist_plain (entry : Entry) (origin : String) (ms : List Made) (w : World) :
    wp (enlist entry origin ms)
      (fun pipes _ ↦ pipes.map Pipeline.plain = ms.map (plainOf entry origin)) (fun _ _ ↦ False)
      (fun _ ↦ False) w := by
  induction ms generalizing w with
  | nil => simp [enlist]
  | cons m ms ih =>
    rw [enlist, wp_bind, wp_present, wp_bind, wp_birth, wp_bind]
    refine wp_mono_ok (ih _) fun pipes w' hp ↦ ?_
    rw [wp_pure, List.map_cons, List.map_cons, hp]
    rfl

theorem wp_buildOne_answer (origin : String) (e : ℕ × Entry) (w : World) :
    wp (buildOne h origin e)
      (fun pipes _ ↦ answer h origin e w.now = .ok (pipes.map Pipeline.plain))
      (fun err _ ↦ answer h origin e w.now = .error err) (fun _ ↦ False) w := by
  unfold buildOne answer
  split
  · rw [wp_bind, wp_call]
    split
    · rename_i made hmade
      rw [hmade]
      exact wp_mono (wp_enlist_plain _ _ _ _) (fun _ _ hp ↦ by rw [hp]; rfl) (fun _ _ h ↦ h.elim)
        fun _ h ↦ h
    · rename_i err herr
      rw [herr]
      rfl
  · rw [wp_bind, wp_call]
    split
    · rename_i made hmade
      rw [hmade]
      exact wp_mono (wp_enlist_plain _ _ _ _) (fun _ _ hp ↦ by rw [hp]; rfl) (fun _ _ h ↦ h.elim)
        fun _ h ↦ h
    · rename_i err herr
      rw [herr]
      rfl

/-- A text that does not fall back is the value's own; else the entry has no such value. -/
theorem text_eq_ite (e : Entry) (key default : String) :
    e.text key default = if e.has key then e.text key "" else default := by
  rw [Entry.text, Entry.text, Entry.has]
  cases e.get key with
  | none => rfl
  | some v => cases hv : v.truthy <;> simp [hv]

/-- **Equal labels get equal answers**, from entries spelled alike. -/
theorem answer_congr (hs : h.Steady) {origin : String} {e f : ℕ × Entry} (n n' : ℕ)
    (hl : labelOf origin e = labelOf origin f) (hspell : SpelledAlike e.2 f.2) :
    answer h origin e n = answer h origin f n' := by
  rw [labelOf, labelOf, Prod.mk.injEq, Prod.mk.injEq] at hl
  obtain ⟨-, hindex, hcode⟩ := hl
  have hplain : plainOf e.2 origin = plainOf f.2 origin := by
    funext m
    rw [plainOf, plainOf, hspell.2, Entry.flag_eq hcode]
  have hname : e.2.has "builder" = false →
      e.2.text "name" s!"pipeline-{e.1}" = f.2.text "name" s!"pipeline-{f.1}" := by
    intro hb
    rw [text_eq_ite, text_eq_ite f.2, ← Entry.has_eq hcode, hspell.1]
    split
    · rfl
    · rename_i hn
      rw [Bool.not_eq_true] at hn
      rw [namingIndex, namingIndex, ← Entry.has_eq hcode, ← Entry.has_eq hcode, hb, hn] at hindex
      have hi : e.1 = f.1 := Option.some.inj hindex
      rw [hi]
  rw [answer, answer, ← Entry.has_eq hcode, hs.builder n n' _ _ hcode,
    hs.generic n n' _ _ origin hcode, hplain]
  split
  · rfl
  · rename_i hb
    rw [hname (by simpa using hb)]

theorem Hatched.exists_answer {s : Slot} (hs : Hatched h s) :
    ∃ i n, s.index = namingIndex s.entry i ∧
      (answer h s.origin (i, s.entry) n = .ok (s.pipes.map Pipeline.plain) ∨
        s.pipes = [] ∧ ∃ e, answer h s.origin (i, s.entry) n = .error e) := by
  obtain ⟨i, w, hindex, ⟨w', hrun⟩ | ⟨-, hnil, e, w', hrun⟩⟩ := hs
  · have ha := wp_ok (wp_buildOne_answer (h := h) s.origin (i, s.entry) w) hrun
    exact ⟨i, w.now, hindex, .inl ha⟩
  · have ha := wp_raised (wp_buildOne_answer (h := h) s.origin (i, s.entry) w) hrun
    exact ⟨i, w.now, hindex, .inr ⟨hnil, e, ha⟩⟩

/-- Slots with one label hold the same pipelines but for the objects. -/
theorem Hatched.plain_eq {s t : Slot} (hs : Hatched h s) (ht : Hatched h t) (hsteady : h.Steady)
    (hl : s.label = t.label) (hspell : SpelledAlike s.entry t.entry) :
    s.pipes.map Pipeline.plain = t.pipes.map Pipeline.plain := by
  obtain ⟨i, n, hi, hans⟩ := hs.exists_answer
  obtain ⟨j, m, hj, hans'⟩ := ht.exists_answer
  rw [Slot.label, Slot.label, Prod.mk.injEq, Prod.mk.injEq, hi, hj] at hl
  obtain ⟨horigin, hindex, hcode⟩ := hl
  have hsame : answer h s.origin (i, s.entry) n = answer h t.origin (j, t.entry) m := by
    rw [← horigin]
    refine answer_congr hsteady n m ?_ hspell
    rw [labelOf, labelOf, hindex, hcode]
  rcases hans with hok | ⟨hnil, e, herr⟩ <;> rcases hans' with hok' | ⟨hnil', e', herr'⟩
  · rw [hsame, hok'] at hok
    exact (Except.ok.inj hok).symm
  · rw [hsame, herr'] at hok
    cases hok
  · rw [hsame, hok'] at herr
    cases herr
  · rw [hnil, hnil']

/-! ## The two builds -/

theorem mem_of_mem_enumerate {entries : List Entry} {e : ℕ × Entry} (he : e ∈ enumerate entries) :
    e.2 ∈ entries := by
  obtain ⟨x, hx, rfl⟩ := List.mem_map.mp he
  exact List.fst_mem_of_mem_zipIdx hx

theorem Layout.mem_inFile {l : Layout} {origin : String} {e : Entry} (he : e ∈ l.inFile origin) :
    (e, origin) ∈ l.entries := by
  obtain ⟨x, hx, hsome⟩ := List.mem_filterMap.mp he
  split at hsome
  · rename_i ho
    cases hsome
    rw [← ho]
    exact hx
  · cases hsome

/-- Each ask is that of an entry of the layout. -/
theorem Layout.mem_asks {l : Layout} {a : Ask} (ha : a ∈ l.asks) :
    (a.2, a.1.1) ∈ l.entries ∧ a.1.2.2 = a.2.code := by
  rw [Layout.asks, List.mem_append] at ha
  rcases ha with ha | ha
  · obtain ⟨e, he, rfl⟩ := List.mem_map.mp ha
    refine ⟨Layout.mem_inFile ?_, rfl⟩
    rcases List.mem_append.mp he with he | he
    · exact List.mem_of_mem_filter (mem_of_mem_enumerate he)
    · obtain ⟨e', he', rfl⟩ := List.mem_map.mp he
      exact List.mem_of_mem_filter he'
  · obtain ⟨o, -, ha⟩ := List.mem_flatMap.mp ha
    obtain ⟨e, he, rfl⟩ := List.mem_map.mp ha
    exact ⟨Layout.mem_inFile (mem_of_mem_enumerate he), rfl⟩

/-- Two slots are alike when they have one label and the same pipelines, but for the objects. -/
def Alike (s t : Slot) : Prop :=
  s.label = t.label ∧ s.pipes.map Pipeline.plain = t.pipes.map Pipeline.plain

/-- Slots that fit the same asks are alike, when those of the one list are the entries' own. -/
theorem alike_of_fits {free : List Slot} {as : List Ask} {ss ts : List Slot}
    (hsteady : h.Steady) (hs : List.Forall₂ (Fits free) as ss) (ht : List.Forall₂ (Fits []) as ts)
    (hhs : ∀ s ∈ ss, Hatched h s) (hht : ∀ t ∈ ts, Hatched h t)
    (hspell : ∀ a ∈ as, ∀ s ∈ free, s.label = a.1 → SpelledAlike s.entry a.2) :
    List.Forall₂ Alike ss ts := by
  induction hs generalizing ts with
  | nil =>
    cases ht
    exact .nil
  | @cons a s as ss hfit _ ih =>
    obtain ⟨t, ts', rfl, hfit', hrest⟩ :
        ∃ t ts', ts = t :: ts' ∧ Fits [] a t ∧ List.Forall₂ (Fits []) as ts' := by
      cases ht with
      | cons hfit' hrest => exact ⟨_, _, rfl, hfit', hrest⟩
    rw [List.forall_mem_cons] at hhs hht hspell
    have hl := hfit.1.trans hfit'.1.symm
    have hown := hfit'.2.resolve_left List.not_mem_nil
    refine .cons ⟨hl, hhs.1.plain_eq hht.1 hsteady hl ?_⟩ (ih hrest hhs.2 hht.2 hspell.2)
    rw [hown]
    rcases hfit.2 with hfree | hsown
    · exact hspell.1 s hfree hfit.1
    · rw [hsown]
      exact ⟨rfl, rfl⟩

/-- Slots that agree one by one give the same pipelines. -/
theorem plain_pipesOf {ss ts : List Slot}
    (hp : List.Forall₂ Alike ss ts) :
    ss.map Slot.label = ts.map Slot.label ∧
      (pipesOf ss).map Pipeline.plain = (pipesOf ts).map Pipeline.plain := by
  induction hp with
  | nil => exact ⟨rfl, rfl⟩
  | @cons s t ss ts hst _ ih =>
    have hsplit : ∀ (s : Slot) (ss : List Slot), pipesOf (s :: ss) = s.pipes ++ pipesOf ss :=
      fun _ _ ↦ rfl
    rw [List.map_cons, List.map_cons, hst.1, ih.1, hsplit, hsplit, List.map_append, List.map_append,
      hst.2, ih.2]
    exact ⟨rfl, rfl⟩

/-- **A rebuild builds what a start would.**  For a layout that neither build refuses anything of,
with builders that answer by the entry, and no entry that equals one of the previous build while its
name or its client is spelled otherwise: the two builds have the same slots in the same order, by
origin, naming index and entry, and the same pipelines but for the objects.  Each slot of the
rebuild is one of the previous build's, used once, or a new one, and no new one has the origin, the
naming index and the entry of a previous one left unused. -/
theorem rebuild_eq_fresh (h : Host) (hsteady : h.Steady) (manifest : Manifest) (s : State)
    (hs : Reached h manifest s) (l : Layout) (strict strict' : Bool) (w w' v v' : World)
    (built fresh : Build)
    (hspell : ∀ e ∈ l.entries, ∀ t ∈ s.self.build.slots, t.origin = e.2 →
      t.entry.code = e.1.code → SpelledAlike t.entry e.1)
    (hrun : assemble h l (some s.self.build) strict w = (.ok built, w'))
    (hfresh : assemble h l none strict' v = (.ok fresh, v'))
    (hrefused : built.refused = []) (hrefused' : fresh.refused = []) :
    built.slots.map Slot.label = fresh.slots.map Slot.label ∧
      built.pipelines.map Pipeline.plain = fresh.pipelines.map Pipeline.plain ∧
      built.pipelines = pipesOf built.slots ∧
      ∃ reused made left : List Slot, built.slots.Perm (reused ++ made) ∧
        s.self.build.slots.Perm (reused ++ left) ∧
        ∀ n ∈ made, ∀ t ∈ left, t.label ≠ n.label := by
  have hwp := wp_assemble (h := h) l (some s.self.build) strict w
  have hmade := wp_ok hwp hrun
  have hwp' := wp_assemble (h := h) l none strict' v
  have hmade' := wp_ok hwp' hfresh
  have hsound : built.Sound h := hmade.sound fun a ha ↦ by
    cases ha
    exact hs.sound.build
  have hsound' : fresh.Sound h := hmade'.sound (by simp)
  obtain ⟨hfits, hreuse⟩ := hmade.fits hrefused
  obtain ⟨hfits', -⟩ := hmade'.fits hrefused'
  have hpair : List.Forall₂ Alike built.slots fresh.slots := by
    refine alike_of_fits hsteady hfits hfits' hsound.hatched hsound'.hatched fun a ha t ht hl ↦ ?_
    obtain ⟨hentry, hcode⟩ := l.mem_asks ha
    refine hspell _ hentry t ht ?_ ?_
    · rw [← hl]
      rfl
    · rw [← hcode, ← hl]
      rfl
  obtain ⟨hlabels, hplain⟩ := plain_pipesOf hpair
  rw [← hsound.pipelines, ← hsound'.pipelines] at hplain
  exact ⟨hlabels, hplain, hsound.pipelines, hreuse⟩

/-! ## A name that is a number -/

/-- A host whose `a.toml` holds one entry, each pipeline's record under what its name compares by. -/
def oneEntry (entry : Entry) : Host where
  disk _ := diskOf 0 [("a.toml", .ok [("pipeline", .arr [.table entry])])]
  generic _ e _ := .ok
    { name := "", key := .ok (match e.code.lookup "name" with
        | some [.text s] => s
        | _ => "", "dest", "table") }
  builder _ _ := .ok []

theorem oneEntry_steady (entry : Entry) : (oneEntry entry).Steady where
  generic n n' e e' origin hcode := by
    dsimp only [oneEntry]
    rw [hcode]
  builder _ _ _ _ _ := rfl

def oneEntryState (entry : Entry) : State := (start (oneEntry entry) (.initial {} true [])).2

theorem oneEntry_reached {entry : Entry}
    (hok : (start (oneEntry entry) (.initial {} true [])).1.value = some ()) :
    Reached (oneEntry entry) {} (oneEntryState entry) := .start (run_ok hok)

/-- The file's next content. -/
def nextEntries (entries : List Entry) : Layout :=
  layoutOf {} .missing [("a.toml", .data [("pipeline", .arr (entries.map Toml.table))])]

/-- What a build of it gives, on top of a previous build or of none. -/
def builtNext (entry : Entry) (entries : List Entry) (previous : Option Build) : Build :=
  ((assemble (oneEntry entry) (nextEntries entries) previous false {}).1.value).getD {}

theorem builtNext_run {entry : Entry} {entries : List Entry} {previous : Option Build}
    (hok : (assemble (oneEntry entry) (nextEntries entries) previous false {}).1.value.isSome) :
    assemble (oneEntry entry) (nextEntries entries) previous false {} =
      (.ok (builtNext entry entries previous),
        (assemble (oneEntry entry) (nextEntries entries) previous false {}).2) := by
  obtain ⟨b, hb⟩ := Option.isSome_iff_exists.mp hok
  refine run_ok ?_
  rw [builtNext, hb, Option.getD_some]

/-- A file that gains an entry: the pipeline it had stays the object it is. -/
theorem rebuild_eq_fresh_nextEntries :
    let entry := namedEntry "a1" "a"
    let previous := (oneEntryState entry).self.build
    let built := builtNext entry [namedEntry "a2" "a", entry] (some previous)
    let fresh := builtNext entry [namedEntry "a2" "a", entry] none
    built.pipelines.map Pipeline.id ≠ fresh.pipelines.map Pipeline.id ∧
      built.slots.map Slot.label = fresh.slots.map Slot.label ∧
      built.pipelines.map Pipeline.plain = fresh.pipelines.map Pipeline.plain ∧
      built.pipelines = pipesOf built.slots ∧
      ∃ reused made left : List Slot, built.slots.Perm (reused ++ made) ∧
        previous.slots.Perm (reused ++ left) ∧ ∀ n ∈ made, ∀ t ∈ left, t.label ≠ n.label := by
  intro entry previous built fresh
  exact ⟨by decide, rebuild_eq_fresh (oneEntry entry) (oneEntry_steady entry) {}
    (oneEntryState entry) (oneEntry_reached (by decide))
    (nextEntries [namedEntry "a2" "a", entry]) false false {} _ {} _ built fresh
    (by decide) (builtNext_run (by decide)) (builtNext_run (by decide))
    (by decide) (by decide)⟩

/-- `name = 1` becomes `name = true`: the entries are equal, so the pipeline named `1` stays, where
a start would name it `True`. -/
theorem equal_entry_keeps_name :
    ¬ ∀ (h : Host) (manifest : Manifest) (s : State) (l : Layout) (w w' v v' : World)
      (built fresh : Build), h.Steady → Reached h manifest s →
      assemble h l (some s.self.build) false w = (.ok built, w') →
      assemble h l none false v = (.ok fresh, v') → built.refused = [] → fresh.refused = [] →
      built.pipelines.map Pipeline.name = fresh.pipelines.map Pipeline.name := by
  intro hevery
  have hnames := hevery (oneEntry [("name", .int 1)]) {} (oneEntryState [("name", .int 1)])
    (nextEntries [[("name", .bool true)]]) {} _ {} _
    (builtNext [("name", .int 1)] [[("name", .bool true)]]
      (some (oneEntryState [("name", .int 1)]).self.build))
    (builtNext [("name", .int 1)] [[("name", .bool true)]] none)
    (oneEntry_steady _) (oneEntry_reached (by decide))
    (builtNext_run (by decide)) (builtNext_run (by decide))
    (by decide) (by decide)
  revert hnames
  decide

end Daemon
end HsUploader
