import HsUploader.Daemon.Assemble

/-!
# What a build has done

One relation for each function of `HsUploader.Daemon.Assemble`, saying all it can have done:
`Filling` for the loops that fill a list of slots, `Accepts` and `Settled` for one file, `Assembled`
for the whole.  Later results are read off these relations and unfold none of the programs.

## What is here

* `Filling` and `Filling.spec` — a list of labels is filled: each slot is drawn from the pool, or
  was built because the pool had none.
* `wp_buildEach`, `wp_buildFile` — the loops are fillings of the labels their entries ask for.
* `Accepts` and `Rejects` — a file's entries are in, or the desk is as before and the reason is
  one of two: an entry did not build, or a pipeline collided.
* `Settled` and `SettledAll` — what becomes of one file, and of all of them in turn.
* `Assembled` — a layout, a previous build, and the build made of them.
-/

set_option autoImplicit false

namespace HsUploader
namespace Daemon

open Prog

variable {h : Host}

/-! ## One entry -/

theorem wp_enlist (entry : Entry) (origin : String) (ms : List Made) (w : World) :
    wp (enlist entry origin ms) (fun pipes _ ↦ ∀ p ∈ pipes, p.origin = origin) (fun _ _ ↦ False)
      (fun _ ↦ False) w := by
  induction ms generalizing w with
  | nil => simp [enlist]
  | cons m ms ih =>
    rw [enlist, wp_bind, wp_present, wp_bind, wp_birth, wp_bind]
    refine wp_mono_ok (ih _) fun pipes w' hp ↦ ?_
    rw [wp_pure, List.forall_mem_cons]
    exact ⟨rfl, hp⟩

theorem wp_buildOne (origin : String) (e : ℕ × Entry) (w : World) :
    wp (buildOne h origin e) (fun pipes _ ↦ ∀ p ∈ pipes, p.origin = origin) (fun _ _ ↦ True)
      (fun _ ↦ False) w := by
  unfold buildOne
  split
  · rw [wp_bind, wp_call]
    split
    · exact wp_mono (wp_enlist _ _ _ _) (fun _ _ hp ↦ hp) (fun _ _ h ↦ h.elim) fun _ h ↦ h
    · trivial
  · rw [wp_bind, wp_call]
    split
    · exact wp_mono (wp_enlist _ _ _ _) (fun _ _ hp ↦ hp) (fun _ _ h ↦ h.elim) fun _ h ↦ h
    · trivial

/-- The slot's pipelines are what building its entry gave; a legacy entry that failed gave
none. -/
def Hatched (h : Host) (s : Slot) : Prop :=
  ∃ i w, s.index = namingIndex s.entry i ∧
    ((∃ w', buildOne h s.origin (i, s.entry) w = (.ok s.pipes, w')) ∨
      s.origin = LEGACY ∧ s.pipes = [] ∧
        ∃ e w', buildOne h s.origin (i, s.entry) w = (.raised e, w'))

theorem Hatched.origin {s : Slot} (hs : Hatched h s) : ∀ p ∈ s.pipes, p.origin = s.origin := by
  obtain ⟨i, w, -, ⟨w', hrun⟩ | ⟨-, hnil, -⟩⟩ := hs
  · exact wp_ok (wp_buildOne s.origin (i, s.entry) w) hrun
  · rw [hnil]
    simp

/-! ## A list of entries -/

/-- What one entry asks for: a slot with a label, or else to be built itself. -/
abbrev Ask := Label × Entry

/-- What the `i`-th entry asks for. -/
def askOf (origin : String) (e : ℕ × Entry) : Ask := (labelOf origin e, e.2)

/-- Filling the slots some entries ask for: each is drawn from the pool, or, when the pool has none
with the label, built. -/
inductive Filling (h : Host) : List Ask → List Slot → Built → List Slot → Built → Prop
  | done (pool : List Slot) (b : Built) : Filling h [] pool b pool b
  | reuse {a : Ask} {as : List Ask} {pool pool₁ pool' : List Slot} {b b' : Built} {s : Slot}
      (htake : take a.1 pool = some (s, pool₁)) (rest : Filling h as pool₁ (b.reuse s) pool' b') :
      Filling h (a :: as) pool b pool' b'
  | make {a : Ask} {as : List Ask} {pool pool' : List Slot} {b b' : Built}
      {pipes : List Pipeline} (htake : take a.1 pool = none) (hl : a.1.2.2 = a.2.code)
      (hs : Hatched h ⟨a.1.1, a.1.2.1, a.2, pipes⟩)
      (rest : Filling h as pool (b.make a.1 a.2 pipes) pool' b') :
      Filling h (a :: as) pool b pool' b'

namespace Filling

variable {as as' : List Ask} {pool pool' pool'' : List Slot} {b b' b'' : Built}

theorem trans (hf : Filling h as pool b pool' b') (hf' : Filling h as' pool' b' pool'' b'') :
    Filling h (as ++ as') pool b pool'' b'' := by
  induction hf with
  | done pool b => exact hf'
  | reuse htake _ ih => exact .reuse htake (ih hf')
  | make htake hl hs _ ih => exact .make htake hl hs (ih hf')

/-- **What a filling has done**: the slots added carry the labels asked for; each is one drawn from
the pool or one newly built; of those left in the pool none has the label of a new one. -/
theorem spec (hf : Filling h as pool b pool' b') :
    ∃ slots taken made : List Slot,
      b'.slots = b.slots ++ slots ∧ b'.taken = b.taken ++ taken ∧
      b'.fresh = b.fresh ++ made.flatMap Slot.pipes ∧
      slots.map Slot.label = as.map Prod.fst ∧ slots.Perm (taken ++ made) ∧ pool.Perm (taken ++ pool') ∧
      (∀ s ∈ made, Hatched h s) ∧ ∀ s ∈ made, ∀ t ∈ pool', t.label ≠ s.label := by
  induction hf with
  | done pool b => exact ⟨[], [], [], by simp⟩
  | @reuse a as pool pool₁ pool' b b' s htake _ ih =>
    obtain ⟨slots, taken, made, hs, ht, hfresh, hl, hp, hpool, hmade, hleft⟩ := ih
    obtain ⟨hlabel, htaken⟩ := Pool.take_eq_some htake
    refine ⟨s :: slots, s :: taken, made, ?_, ?_, hfresh, ?_, hp.cons s, ?_, hmade, hleft⟩
    · rw [hs, Built.reuse, List.append_assoc, List.singleton_append]
    · rw [ht, Built.reuse, List.append_assoc, List.singleton_append]
    · rw [List.map_cons, hl, hlabel, List.map_cons]
    · exact htaken.trans (hpool.cons s)
  | @make a as pool pool' b b' pipes htake hcode hs _ ih =>
    obtain ⟨slots, taken, made, hslots, ht, hfresh, hl, hp, hpool, hmade, hleft⟩ := ih
    have hlabel : (⟨a.1.1, a.1.2.1, a.2, pipes⟩ : Slot).label = a.1 := by
      rw [Slot.label, ← hcode]
    refine ⟨⟨a.1.1, a.1.2.1, a.2, pipes⟩ :: slots, taken, ⟨a.1.1, a.1.2.1, a.2, pipes⟩ :: made,
      ?_, ht, ?_, ?_, (hp.cons _).trans List.perm_middle.symm, hpool, ?_, ?_⟩
    · rw [hslots, Built.make, List.append_assoc, List.singleton_append]
    · rw [hfresh, Built.make, List.append_assoc, List.flatMap_cons]
    · rw [List.map_cons, hl, hlabel, List.map_cons]
    · rw [List.forall_mem_cons]
      exact ⟨hs, hmade⟩
    · rw [List.forall_mem_cons]
      refine ⟨fun t ht ↦ ?_, hleft⟩
      rw [hlabel]
      exact Pool.take_eq_none.mp htake t (hpool.symm.subset (List.mem_append_right _ ht))

/-- When the pool holds every label asked for, nothing is built: the filling is a draw. -/
theorem draw (hf : Filling h as pool b pool' b')
    (hls : (as.map Prod.fst).Subperm (pool.map Slot.label)) :
    ∃ slots, Pool.takeAll Slot.label (as.map Prod.fst) pool = some (slots, pool') ∧
      b'.slots = b.slots ++ slots ∧ b'.fresh = b.fresh := by
  induction hf with
  | done pool b => exact ⟨[], rfl, by simp⟩
  | @reuse a as pool pool₁ pool' b b' s htake _ ih =>
    obtain ⟨hlabel, htaken⟩ := Pool.take_eq_some htake
    have hls' : (as.map Prod.fst).Subperm (pool₁.map Slot.label) := by
      rw [(htaken.map Slot.label).subperm_left, List.map_cons, List.map_cons, hlabel,
        List.subperm_cons] at hls
      exact hls
    obtain ⟨slots, hdraw, hs, hfresh⟩ := ih hls'
    refine ⟨s :: slots, ?_, ?_, hfresh⟩
    · rw [take] at htake
      simp only [List.map_cons, Pool.takeAll, htake, hdraw, Option.map_some]
    · rw [hs, Built.reuse, List.append_assoc, List.singleton_append]
  | make htake _ _ _ _ =>
    obtain ⟨s, rest, hs⟩ := Pool.exists_take (hls.subset List.mem_cons_self)
    rw [take, hs] at htake
    cases htake

end Filling

theorem hatched_of_run {origin : String} {e : ℕ × Entry} {pipes : List Pipeline} {w w' : World}
    (hrun : buildOne h origin e w = (.ok pipes, w')) :
    Hatched h ⟨(labelOf origin e).1, (labelOf origin e).2.1, e.2, pipes⟩ :=
  ⟨e.1, w, rfl, .inl ⟨w', hrun⟩⟩

/-- **The loop over the legacy entries**: it fills their labels, or, when strict, raises. -/
theorem wp_buildEach (strict : Bool) (es : List (ℕ × Entry)) (pool : List Slot) (b : Built)
    (w : World) :
    wp (buildEach h strict es pool b)
      (fun r _ ↦ Filling h (es.map (askOf LEGACY)) pool b r.2 r.1)
      (fun _ _ ↦ strict = true) (fun _ ↦ False) w := by
  induction es generalizing pool b w with
  | nil => exact .done pool b
  | cons e es ih =>
    rw [buildEach]
    split
    · rename_i s pool₁ htake
      exact wp_mono_ok (ih pool₁ _ w) fun _ _ hf ↦ .reuse htake hf
    · rename_i htake
      rw [wp_bind, wp_attempt]
      refine wp_mono (wp_self (wp_mono (wp_buildOne LEGACY e w) (fun _ _ _ ↦ trivial)
        (fun _ _ _ ↦ trivial) fun _ h ↦ h)) ?_ ?_ fun _ h ↦ h
      · intro pipes w' hrun
        exact wp_mono_ok (ih _ _ w') fun _ _ hf ↦ .make htake rfl (hatched_of_run hrun) hf
      · intro err w' hrun
        dsimp only
        split
        · rename_i hstrict
          rw [wp_bind, closeQuietly, wp_modify, wp_raise]
          exact hstrict
        · exact wp_mono_ok (ih _ _ w') fun _ _ hf ↦
            .make htake rfl ⟨e.1, w, rfl, .inr ⟨rfl, rfl, err, w', hrun⟩⟩ hf

/-- What the legacy entries ask for, in the order they are built. -/
def legacyAsks (entries : List Entry) : List Ask :=
  (enumerate (entries.filter fun e ↦ !Entry.has e "builder") ++
    (entries.filter fun e ↦ Entry.has e "builder").map fun e ↦ (0, e)).map (askOf LEGACY)

/-- The labels of what they ask for. -/
def legacyLabels (entries : List Entry) : List Label :=
  (enumerate (entries.filter fun e ↦ !Entry.has e "builder") ++
    (entries.filter fun e ↦ Entry.has e "builder").map fun e ↦ (0, e)).map (labelOf LEGACY)

theorem map_fst_legacyAsks (entries : List Entry) :
    (legacyAsks entries).map Prod.fst = legacyLabels entries := List.map_map

theorem wp_buildLegacy (strict : Bool) (entries : List Entry) (pool : List Slot) (w : World) :
    wp (buildLegacy h strict entries pool)
      (fun r _ ↦ Filling h (legacyAsks entries) pool {} r.2 r.1)
      (fun _ _ ↦ strict = true) (fun _ ↦ False) w := by
  rw [buildLegacy, wp_bind]
  refine wp_mono_ok (wp_buildEach strict _ pool {} w) fun generic w' hf ↦ ?_
  refine wp_mono (wp_buildEach false _ generic.2 generic.1 w') (fun r _ hf' ↦ ?_)
    (fun _ _ h ↦ absurd h Bool.false_ne_true) fun _ h ↦ h
  rw [legacyAsks, List.map_append]
  exact hf.trans hf'

/-- What a file's entries ask for. -/
def fileAsks (origin : String) (entries : List Entry) : List Ask :=
  (enumerate entries).map (askOf origin)

/-- The labels of what they ask for. -/
def fileLabels (origin : String) (entries : List Entry) : List Label :=
  (enumerate entries).map (labelOf origin)

theorem map_fst_fileAsks (origin : String) (entries : List Entry) :
    (fileAsks origin entries).map Prod.fst = fileLabels origin entries := List.map_map

/-- **Building a file**: it fills the labels of its entries, or gives back what it drew; the latter
only when some label is not in the pool. -/
theorem wp_buildFile (origin : String) (es : List (ℕ × Entry)) (pool : List Slot) (b : Built)
    (w : World) :
    wp (buildFile h origin es pool b)
      (fun r _ ↦
        (∃ b', r.1 = .ok b' ∧ Filling h (es.map (askOf origin)) pool b r.2 b') ∨
          (∃ reason, r.1 = .error reason) ∧ r.2.Perm (pool ++ b.taken) ∧
            ¬ (es.map (labelOf origin)).Subperm (pool.map Slot.label))
      (fun _ _ ↦ False) (fun _ ↦ False) w := by
  induction es generalizing pool b w with
  | nil => exact .inl ⟨b, rfl, .done pool b⟩
  | cons e es ih =>
    rw [buildFile]
    split
    · rename_i s pool₁ htake
      obtain ⟨hlabel, htaken⟩ := Pool.take_eq_some htake
      refine wp_mono_ok (ih pool₁ _ w) fun r _ hr ↦ ?_
      rcases hr with ⟨b', hb, hf⟩ | ⟨hreason, hperm, hlack⟩
      · exact .inl ⟨b', hb, .reuse htake hf⟩
      · refine .inr ⟨hreason, hperm.trans ?_, fun hsub ↦ hlack ?_⟩
        · rw [Built.reuse]
          have hmove : (pool₁ ++ (b.taken ++ [s])).Perm (s :: pool₁ ++ b.taken) := by
            rw [← List.append_assoc, List.cons_append]
            exact List.perm_append_singleton s (pool₁ ++ b.taken)
          exact hmove.trans (htaken.symm.append_right b.taken)
        · rw [List.map_cons, (htaken.map Slot.label).subperm_left, List.map_cons, hlabel,
            List.subperm_cons] at hsub
          exact hsub
    · rename_i htake
      rw [wp_bind, wp_attempt]
      refine wp_mono (wp_self (wp_mono (wp_buildOne origin e w) (fun _ _ _ ↦ trivial)
        (fun _ _ _ ↦ trivial) fun _ h ↦ h)) ?_ ?_ fun _ h ↦ h
      · intro pipes w' hrun
        refine wp_mono_ok (ih pool _ w') fun r _ hr ↦ ?_
        rcases hr with ⟨b', hb, hf⟩ | ⟨hreason, hperm, -⟩
        · exact .inl ⟨b', hb, .make htake rfl (hatched_of_run hrun) hf⟩
        · exact .inr ⟨hreason, hperm, fun hsub ↦ lacks htake hsub⟩
      · intro err w' hrun
        dsimp only
        rw [wp_bind, closeQuietly, wp_modify, wp_pure]
        exact .inr ⟨⟨_, rfl⟩, .refl _, fun hsub ↦ lacks htake hsub⟩
where
  /-- A label that is not in the pool is not among the pool's. -/
  lacks {e : ℕ × Entry} {es : List (ℕ × Entry)} {pool : List Slot}
      (htake : take (labelOf origin e) pool = none)
      (hsub : ((e :: es).map (labelOf origin)).Subperm (pool.map Slot.label)) : False := by
    obtain ⟨s, rest, hs⟩ := Pool.exists_take (hsub.subset List.mem_cons_self)
    rw [take, hs] at htake
    cases htake

/-! ## One file -/

/-- A file's entries were built and admitted. -/
def Accepts (h : Host) (origin : String) (entries : List Entry) (d d' : Desk) : Prop :=
  ∃ (b : Built) (pool : List Slot) (claimed : Claimed),
    Filling h (fileAsks origin entries) d.pool {} pool b ∧
      admitAll (pipesOf b.slots) d.claimed = .ok (.ok claimed) ∧
      d' = { d with
        pool, claimed
        accepted := d.accepted ++ [(origin, b.slots)]
        good := d.good ++ [(origin, entries)]
        fresh := d.fresh ++ b.fresh }

/-- A file's entries were not accepted, and the desk is as before: an entry's label was not in the
pool and it did not build, or a pipeline collided. -/
def Rejects (h : Host) (origin : String) (entries : List Entry) (d d' : Desk) : Prop :=
  ∃ pool : List Slot, pool.Perm d.pool ∧ d' = { d with pool } ∧
    (¬ (fileLabels origin entries).Subperm (d.pool.map Slot.label) ∨
      ∃ (b : Built) (pool₁ : List Slot) (reason : String),
        Filling h (fileAsks origin entries) d.pool {} pool₁ b ∧
          admitAll (pipesOf b.slots) d.claimed = .ok (.error reason))

theorem wp_tryFile (origin : String) (entries : List Entry) (d : Desk) (w : World) :
    wp (tryFile h origin entries d)
      (fun r _ ↦ (r.1 = .ok () ∧ Accepts h origin entries d r.2) ∨
        (∃ reason, r.1 = .error reason) ∧ Rejects h origin entries d r.2)
      (fun _ _ ↦ True) (fun _ ↦ False) w := by
  rw [tryFile, wp_bind]
  refine wp_mono (wp_buildFile origin (enumerate entries) d.pool {} w) ?_ (fun _ _ h ↦ h.elim)
    fun _ h ↦ h
  rintro ⟨built, pool⟩ w' (⟨b, rfl, hf⟩ | ⟨⟨reason, rfl⟩, hperm, hlack⟩)
  · dsimp only
    rw [wp_bind, wp_ofExcept]
    split
    · rename_i verdict hv
      cases verdict with
      | error reason =>
        dsimp only
        rw [wp_bind, closeQuietly, wp_modify, wp_pure]
        refine .inr ⟨⟨reason, rfl⟩, pool ++ b.taken, ?_, rfl, .inr ⟨b, pool, reason, hf, hv⟩⟩
        obtain ⟨slots, taken, made, -, htaken, -, -, -, hpool, -⟩ := hf.spec
        rw [htaken]
        exact List.perm_append_comm.trans hpool.symm
      | ok claimed => exact .inl ⟨rfl, b, pool, claimed, hf, hv, rfl⟩
    · trivial
  · refine .inr ⟨⟨reason, rfl⟩, pool, ?_, rfl, .inl hlack⟩
    simpa using hperm

/-- What the loop makes of one file: its new entries are accepted; or it is refused, and what it
last built is accepted again; or it is refused and runs nothing. -/
inductive Settled (h : Host) (l : Layout) (prevGood : List (String × List Entry))
    (origin : String) (d : Desk) : Desk → Prop
  | built {d' : Desk} (hload : l.refusal origin = none)
      (ha : Accepts h origin (l.inFile origin) d d') : Settled h l prevGood origin d d'
  | kept {d' : Desk} {r : Refusal} {pool : List Slot} {last : List Entry}
      (hrow : l.refusal origin = some r ∨ r.file = fileOf origin) (hpool : pool.Perm d.pool)
      (hlast : prevGood.lookup origin = some last)
      (ha : Accepts h origin last { d with pool, refused := d.refused ++ [r] } d') :
      Settled h l prevGood origin d d'
  | dropped {r : Refusal} {pool : List Slot}
      (hrow : l.refusal origin = some r ∨ r.file = fileOf origin) (hpool : pool.Perm d.pool)
      (hlast : ∀ last, prevGood.lookup origin = some last →
        ∃ pool₁ d', pool₁.Perm d.pool ∧
          Rejects h origin last { d with pool := pool₁, refused := d.refused ++ [r] } d') :
      Settled h l prevGood origin d { d with pool, refused := d.refused ++ [r] }

theorem wp_keepLast {l : Layout} {prevGood : List (String × List Entry)} {origin : String}
    {d : Desk} {r : Refusal} {pool : List Slot}
    (hrow : l.refusal origin = some r ∨ r.file = fileOf origin) (hpool : pool.Perm d.pool)
    (w : World) :
    wp (keepLast h prevGood origin { d with pool, refused := d.refused ++ [r] })
      (fun d' _ ↦ Settled h l prevGood origin d d') (fun _ _ ↦ True) (fun _ ↦ False) w := by
  rw [keepLast]
  split
  · rename_i hnone
    refine .dropped hrow hpool fun last hlast ↦ ?_
    rw [hnone] at hlast
    cases hlast
  · rename_i last hlast
    rw [wp_bind]
    refine wp_mono_ok (wp_tryFile origin last _ w) ?_
    rintro ⟨verdict, d'⟩ w' (⟨-, ha⟩ | ⟨-, hr⟩)
    · exact .kept hrow hpool hlast ha
    · obtain ⟨pool₂, hperm, rfl, hwhy⟩ := hr
      refine .dropped hrow (hperm.trans hpool) fun last' hlast' ↦ ?_
      rw [hlast] at hlast'
      cases hlast'
      exact ⟨pool, _, hpool, pool₂, hperm, rfl, hwhy⟩

theorem wp_settleFile (l : Layout) (prevGood : List (String × List Entry)) (origin : String)
    (d : Desk) (w : World) :
    wp (settleFile h l prevGood origin d) (fun d' _ ↦ Settled h l prevGood origin d d')
      (fun _ _ ↦ True) (fun _ ↦ False) w := by
  rw [settleFile]
  split
  · rename_i r hr
    exact wp_keepLast (.inl hr) (.refl _) w
  · rename_i hload
    rw [wp_bind]
    refine wp_mono_ok (wp_tryFile origin _ d w) ?_
    rintro ⟨verdict, d'⟩ w' (⟨hok, ha⟩ | ⟨⟨reason, hreason⟩, hr⟩)
    · cases hok
      exact .built hload ha
    · cases hreason
      obtain ⟨pool, hperm, rfl, -⟩ := hr
      exact wp_keepLast (r := ⟨fileOf origin, stem (fileOf origin), reason⟩) (.inr rfl) hperm w'

/-- What the loop makes of some files, one after the other. -/
inductive SettledAll (h : Host) (l : Layout) (prevGood : List (String × List Entry)) :
    List String → Desk → Desk → Prop
  | nil (d : Desk) : SettledAll h l prevGood [] d d
  | cons {origin : String} {order : List String} {d d₁ d' : Desk}
      (first : Settled h l prevGood origin d d₁) (rest : SettledAll h l prevGood order d₁ d') :
      SettledAll h l prevGood (origin :: order) d d'

theorem wp_settleFiles (l : Layout) (prevGood : List (String × List Entry)) (order : List String)
    (d : Desk) (w : World) :
    wp (settleFiles h l prevGood order d) (fun d' _ ↦ SettledAll h l prevGood order d d')
      (fun _ _ ↦ True) (fun _ ↦ False) w := by
  induction order generalizing d w with
  | nil => exact .nil d
  | cons origin order ih =>
    rw [settleFiles, wp_bind]
    refine wp_mono_ok (wp_settleFile l prevGood origin d w) fun d₁ w₁ h₁ ↦ ?_
    exact wp_mono_ok (ih d₁ w₁) fun d' _ h' ↦ .cons h₁ h'

/-! ## A build -/

/-- What a build is made of. -/
structure Assembled (h : Host) (l : Layout) (previous : Option Build) (build : Build) : Prop where
  intro ::
  exists_desk : ∃ (legacy : Built) (pool : List Slot) (claimed : Claimed) (d : Desk),
    Filling h (legacyAsks (l.inFile LEGACY)) (previous.elim [] Build.slots) {} pool legacy ∧
      claimLegacy (pipesOf legacy.slots) {} = .ok claimed ∧
      SettledAll h l (previous.elim [] Build.good) (l.order (previous.elim [] Build.good))
        { pool, claimed, fresh := legacy.fresh } d ∧
      build.slots = legacy.slots ++ d.inOrder ∧ build.pipelines = pipesOf build.slots ∧
      build.refused = d.refused ∧ build.good = d.good

theorem wp_assemble (l : Layout) (previous : Option Build) (strict : Bool) (w : World) :
    wp (assemble h l previous strict) (fun build _ ↦ Assembled h l previous build)
      (fun _ _ ↦ True) (fun _ ↦ False) w := by
  rw [assemble, wp_bind]
  refine wp_mono (wp_buildLegacy strict _ _ w) ?_ (fun _ _ _ ↦ trivial) fun _ h ↦ h
  rintro ⟨legacy, pool⟩ w₁ hlegacy
  dsimp only
  rw [wp_bind, wp_ofExcept]
  split
  · rename_i claimed hclaimed
    rw [wp_bind]
    refine wp_mono_ok (wp_settleFiles l _ _ _ w₁) fun d w₂ hd ↦ ?_
    exact ⟨legacy, pool, claimed, d, hlegacy, hclaimed, hd, rfl, rfl, rfl, rfl⟩
  · trivial

end Daemon
end HsUploader
