import Mathlib.Data.List.Pairwise
import HsUploader.Daemon.Reuse

/-!
# A refused file, and a file that did not change

Both keep exactly the pipelines they have, unless one of these collides with a pipeline that was
taken up before: a legacy entry's, or, for a file that was refused, one of another edited file
earlier in name order.

## What is here

* `Among` — the loop over the files cut at one of them: what came before, its own step, and the
  rest.
* `Layout.Formed` — the origins of a layout are those that names of files give.
* `Rebuilt` — a build of a daemon's life, and the one made from it.
* `Among.keeps` and `Rebuilt.keeps` — the slots, and the pipelines of the file.
* `file_keeps_pipelines` — the same pipelines as objects, or none and a collision, which is named.
* `editedBeside` — an edited file that takes the name of one that no longer parses.
-/

set_option autoImplicit false

namespace HsUploader
namespace Daemon

open Prog

variable {h : Host}

/-! ## One file among those settled -/

/-- One file of a run over some files: what was settled before it, its own step, and the rest. -/
structure Among (h : Host) (l : Layout) (prevGood : List (String × List Entry))
    (order : List String) (origin : String) (d d₁ d₂ d' : Desk) (done rest : List String) :
    Prop where
  order : order = done ++ origin :: rest
  before : SettledAll h l prevGood done d d₁
  step : Settled h l prevGood origin d₁ d₂
  after : SettledAll h l prevGood rest d₂ d'

theorem SettledAll.exists_among {l : Layout} {prevGood : List (String × List Entry)}
    {order : List String} {d d' : Desk} (hs : SettledAll h l prevGood order d d')
    {origin : String} (ho : origin ∈ order) :
    ∃ d₁ d₂ done rest, Among h l prevGood order origin d d₁ d₂ d' done rest := by
  induction hs with
  | nil d => cases ho
  | @cons first order d d₁ d' hfirst hrest ih =>
    by_cases heq : origin = first
    · subst heq
      exact ⟨d, d₁, [], order, rfl, .nil d, hfirst, hrest⟩
    · obtain ⟨e₁, e₂, done, rest, ho, hb, hst, ha⟩ := ih ((List.mem_cons.mp ho).resolve_left heq)
      exact ⟨e₁, e₂, first :: done, rest, by rw [ho, List.cons_append], .cons hfirst hb, hst, ha⟩

/-- A step refuses its file or leaves the refusals as they were. -/
theorem Settled.refused_or {l : Layout} {prevGood : List (String × List Entry)} {origin : String}
    {d d' : Desk} (hs : Settled h l prevGood origin d d') :
    d'.refused = d.refused ∨ ∃ r, d'.refused = d.refused ++ [r] ∧
      (l.refusal origin = some r ∨ r.file = fileOf origin) := by
  cases hs with
  | built _ ha =>
    obtain ⟨b, pool, claimed, -, -, rfl⟩ := ha
    exact .inl rfl
  | @kept d' r pool last hrow _ _ ha =>
    obtain ⟨b, pool, claimed, -, -, rfl⟩ := ha
    exact .inr ⟨r, rfl, hrow⟩
  | @dropped r pool hrow _ _ => exact .inr ⟨r, rfl, hrow⟩

/-- Each refusal is some file's. -/
theorem SettledAll.exists_refused {l : Layout} {prevGood : List (String × List Entry)}
    {order : List String} {d d' : Desk} (hs : SettledAll h l prevGood order d d') {r : Refusal}
    (hr : r ∈ d'.refused) (hnew : r ∉ d.refused) :
    ∃ origin d₁ d₂ done rest, Among h l prevGood order origin d d₁ d₂ d' done rest ∧
      d₂.refused ≠ d₁.refused ∧ (l.refusal origin = some r ∨ r.file = fileOf origin) := by
  induction hs with
  | nil d => exact absurd hr hnew
  | @cons first order d d₁ d' hfirst hrest ih =>
    by_cases hmem : r ∈ d₁.refused
    · rcases hfirst.refused_or with heq | ⟨r', heq, hrow⟩
      · rw [heq] at hmem
        exact absurd hmem hnew
      · rw [heq, List.mem_append, List.mem_singleton] at hmem
        cases hmem.resolve_left hnew
        exact ⟨first, d, d₁, [], order, ⟨rfl, .nil d, hfirst, hrest⟩, by rw [heq]; simp, hrow⟩
    · obtain ⟨origin, e₁, e₂, done, rest, ⟨ho, hb, hst, ha⟩, hne, hrow⟩ := ih hr hmem
      exact ⟨origin, e₁, e₂, first :: done, rest,
        ⟨by rw [ho, List.cons_append], .cons hfirst hb, hst, ha⟩, hne, hrow⟩

/-- What is accepted stays, and what comes after it is of other files. -/
theorem SettledAll.accepted_append {l : Layout} {prevGood : List (String × List Entry)}
    {order : List String} {d d' : Desk} (hs : SettledAll h l prevGood order d d') :
    ∃ extra, d'.accepted = d.accepted ++ extra ∧ ∀ a ∈ extra, a.1 ∈ order := by
  induction hs with
  | nil d => exact ⟨[], by simp, by simp⟩
  | @cons first order d d₁ d' hfirst _ ih =>
    obtain ⟨extra, hacc, hin⟩ := ih
    rcases hfirst.effect.entered with ⟨hsame, -⟩ | ⟨slots, entries, hsame, -, -⟩
    · exact ⟨extra, by rw [hacc, hsame], fun a ha ↦ List.mem_cons_of_mem _ (hin a ha)⟩
    · refine ⟨(first, slots) :: extra, by rw [hacc, hsame, List.append_assoc]; rfl, ?_⟩
      rw [List.forall_mem_cons]
      exact ⟨List.mem_cons_self, fun a ha ↦ List.mem_cons_of_mem _ (hin a ha)⟩

/-- While other files are settled, a file's free slots stay. -/
theorem SettledAll.free {l : Layout} {prevGood : List (String × List Entry)} {order : List String}
    {d d' : Desk} (hs : SettledAll h l prevGood order d d') {origin : String}
    (ho : origin ∉ order) : (slotsAt d'.pool origin).Perm (slotsAt d.pool origin) := by
  induction hs with
  | nil d => exact .refl _
  | cons first _ ih =>
    rw [List.mem_cons, not_or] at ho
    exact (ih ho.2).trans (first.effect.pool origin ho.1)

/-! ## The order of the files -/

/-- `originFor` and `fileOf` are inverse to each other. -/
theorem fileOf_originFor (filename : String) : fileOf (originFor filename) = filename := by
  rw [fileOf, originFor, PIPELINES_DIR, String.toList_append, String.toList_append]
  have hdrop : (("pipelines.d".toList ++ "/".toList ++ filename.toList).dropWhile
      fun c ↦ decide (c ≠ '/')).drop 1 = filename.toList := rfl
  rw [hdrop, String.ofList_toList]

/-- Every origin is the legacy manifest's or a file's. -/
def Layout.Formed (l : Layout) : Prop :=
  ∀ e ∈ l.entries, e.2 = LEGACY ∨ ∃ filename, e.2 = originFor filename

theorem layoutOf_formed (manifest : Manifest) (sig : Signature) (seen : List (String × Seen)) :
    (layoutOf manifest sig seen).Formed := by
  intro e he
  rcases List.mem_append.mp he with he | he
  · obtain ⟨e', -, rfl⟩ := List.mem_map.mp he
    exact .inl rfl
  · obtain ⟨s, -, hs⟩ := List.mem_flatMap.mp he
    split at hs
    · obtain ⟨e', -, rfl⟩ := List.mem_map.mp hs
      exact .inr ⟨s.1, rfl⟩
    · cases hs

theorem Layout.mem_order {l : Layout} {prevGood : List (String × List Entry)} {origin : String} :
    origin ∈ l.order prevGood ↔ origin ∈ l.origins := by
  rw [Layout.order, List.mem_append, List.mem_filter, List.mem_filter]
  cases l.unchanged prevGood origin <;> simp

theorem Layout.Formed.origin {l : Layout} (hl : l.Formed) {origin : String}
    (ho : origin ∈ l.origins) : originFor (fileOf origin) = origin := by
  rw [Layout.origins, List.mem_insertionSort, List.mem_dedup, List.mem_append] at ho
  rcases ho with ho | ho
  · rw [List.mem_filter, decide_eq_true_eq] at ho
    obtain ⟨e, he, rfl⟩ := List.mem_map.mp ho.1
    rcases hl e he with hlegacy | ⟨f, hf⟩
    · exact absurd hlegacy ho.2
    · rw [hf, fileOf_originFor]
  · obtain ⟨r, -, rfl⟩ := List.mem_map.mp ho
    rw [Refusal.rowName, fileOf_originFor]

theorem originFor_ne_legacy (filename : String) : originFor filename ≠ LEGACY := by
  intro heq
  have hlist := congrArg String.toList heq
  rw [originFor, PIPELINES_DIR, String.toList_append, String.toList_append] at hlist
  have hhead : 'p' = 'l' := (List.cons.inj hlist).1
  exact absurd hhead (by decide)

theorem Layout.ne_legacy {l : Layout} {origin : String} (ho : origin ∈ l.origins) :
    origin ≠ LEGACY := by
  rw [Layout.origins, List.mem_insertionSort, List.mem_dedup, List.mem_append] at ho
  rcases ho with ho | ho
  · exact of_decide_eq_true (List.mem_filter.mp ho).2
  · obtain ⟨r, -, rfl⟩ := List.mem_map.mp ho
    exact originFor_ne_legacy r.file

/-- A refusal names the file it was made for. -/
theorem Layout.Formed.rowName {l : Layout} (hl : l.Formed) {origin : String}
    (ho : origin ∈ l.origins) {r : Refusal}
    (hrow : l.refusal origin = some r ∨ r.file = fileOf origin) : r.rowName = origin := by
  rcases hrow with hrow | hrow
  · simpa using List.find?_some hrow
  · rw [Refusal.rowName, hrow, hl.origin ho]

/-- Of two files in the order they are built, the earlier did not change, or both changed and they
stand in name order. -/
theorem Layout.order_pairwise (l : Layout) (prevGood : List (String × List Entry)) :
    (l.order prevGood).Pairwise fun a b ↦ l.unchanged prevGood a = true ∨
      l.unchanged prevGood b = false ∧ a < b := by
  have hsorted : l.origins.Pairwise (· < ·) := by
    have hnodup : l.origins.Nodup :=
      (List.perm_insertionSort _ _).nodup_iff.mpr (List.nodup_dedup _)
    exact (List.pairwise_insertionSort _ _).imp₂ (fun a b hle hne ↦ lt_of_le_of_ne hle hne) hnodup
  rw [Layout.order, List.pairwise_append]
  refine ⟨?_, ?_, fun a ha b hb ↦ .inl (List.mem_filter.mp ha).2⟩
  · exact List.pairwise_of_forall_mem_list fun a ha b _ ↦ .inl (List.mem_filter.mp ha).2
  · refine (hsorted.filter _).imp_of_mem fun {a b} _ hb hlt ↦ .inr ⟨?_, hlt⟩
    simpa using (List.mem_filter.mp hb).2

/-! ## What a file keeps -/

/-- The pipelines of one origin. -/
def Build.of (b : Build) (origin : String) : List Pipeline :=
  b.pipelines.filter fun p ↦ p.origin = origin

/-- They are those of the slots of this origin. -/
theorem Build.Sound.of_eq {b : Build} (hb : b.Sound h) (origin : String) :
    b.of origin = pipesOf (slotsAt b.slots origin) := by
  have hslots : ∀ slots : List Slot, (∀ s ∈ slots, Hatched h s) →
      (pipesOf slots).filter (fun p ↦ p.origin = origin) = pipesOf (slotsAt slots origin) := by
    intro slots
    induction slots with
    | nil => exact fun _ ↦ rfl
    | cons s slots ih =>
      intro hs
      rw [List.forall_mem_cons] at hs
      have hsplit : pipesOf (s :: slots) = s.pipes ++ pipesOf slots := rfl
      rw [hsplit, List.filter_append, ih hs.2]
      by_cases ho : s.origin = origin
      · have hall : s.pipes.filter (fun p ↦ p.origin = origin) = s.pipes :=
          List.filter_eq_self.mpr fun p hp ↦ by
            rw [decide_eq_true_eq, hs.1.origin p hp, ho]
        rw [hall, slotsAt, slotsAt, List.filter_cons_of_pos (by simpa using ho)]
        rfl
      · have hnone : s.pipes.filter (fun p ↦ p.origin = origin) = [] :=
          List.filter_eq_nil_iff.mpr fun p hp ↦ by
            rw [decide_eq_true_eq, hs.1.origin p hp]
            exact ho
        rw [hnone, List.nil_append, slotsAt, slotsAt, List.filter_cons_of_neg (by simpa using ho)]
  rw [Build.of, hb.pipelines, hslots b.slots hb.hatched]

/-- Two pipelines of one build with different origins, one of them a file's, differ. -/
theorem Build.Sound.differ {b : Build} (hb : b.Sound h) {p q : Pipeline} (hp : p ∈ b.pipelines)
    (hq : q ∈ b.pipelines) (hne : q.origin ≠ p.origin) (hfile : p.origin ≠ LEGACY) :
    Differ q p := by
  have : Std.Symm Apart := ⟨fun _ _ ↦ Apart.symm⟩
  have hpq : q ≠ p := fun heq ↦ hne (by rw [heq])
  exact hb.apart.forall hq hp hpq (.inr hfile)

/-! ## Looking a file up at the end -/

section among

variable {l : Layout} {prevGood : List (String × List Entry)} {order done rest : List String}
  {origin : String} {d d₁ d₂ d' : Desk}

theorem Among.not_mem (ha : Among h l prevGood order origin d d₁ d₂ d' done rest)
    (hnodup : order.Nodup) : origin ∉ done ∧ origin ∉ rest := by
  rw [ha.order, List.nodup_append] at hnodup
  exact ⟨fun hmem ↦ hnodup.2.2 origin hmem origin List.mem_cons_self rfl,
    (List.nodup_cons.mp hnodup.2.1).1⟩

/-- The file's slots at the end are what its own step entered. -/
theorem Among.lookup_eq (ha : Among h l prevGood order origin d d₁ d₂ d' done rest)
    (hnodup : order.Nodup) (hd : d.Ledger []) {entered : List (String × List Slot)}
    (hacc : d₂.accepted = d₁.accepted ++ entered) :
    d'.accepted.lookup origin = entered.lookup origin := by
  obtain ⟨hdone, hrest⟩ := ha.not_mem hnodup
  have hsub : ([] ++ done).Nodup := by
    rw [ha.order, List.nodup_append] at hnodup
    exact hnodup.1
  obtain ⟨-, -, hin⟩ := (hd.settleAll hsub ha.before) origin
  obtain ⟨extra, hextra, hkeys⟩ := ha.after.accepted_append
  have hbefore : d₁.accepted.lookup origin = none := by
    cases hlook : d₁.accepted.lookup origin with
    | none => rfl
    | some v =>
      rw [hlook] at hin
      exact absurd (hin rfl) hdone
  have hafter : extra.lookup origin = none := by
    rw [List.lookup_eq_none_iff]
    intro a hmem
    rw [bne_iff_ne]
    exact fun heq ↦ hrest (heq ▸ hkeys a hmem)
  rw [hextra, hacc, List.lookup_append, List.lookup_append, hbefore, hafter, Option.none_or,
    Option.or_none]

end among

/-! ## What a rebuild keeps of a file -/

/-- A previous build that a daemon reached, and a build made from it. -/
structure Rebuilt (h : Host) (l : Layout) (prev b : Build) : Prop where
  sound : prev.Sound h
  aligned : prev.Aligned
  made : Assembled h l (some prev) b

section rebuilt

variable {l : Layout} {prev b : Build} {origin : String}

/-- The pipelines of a file in a build differ from each other. -/
theorem Build.Sound.own_differ (hb : prev.Sound h) (hfile : origin ≠ LEGACY) :
    (pipesOf (slotsAt prev.slots origin)).Pairwise Differ := by
  rw [← hb.of_eq]
  refine (hb.apart.filter _).imp_of_mem fun {p q} hp _ ha ↦ ha (.inl ?_)
  have ho := of_decide_eq_true (List.mem_filter.mp hp).2
  rw [ho]
  exact hfile

/-- **A file that is refused or did not change** keeps its slots, or enters nothing and collides. -/
theorem Among.keeps {legacy : List Pipeline} {order done rest : List String} {d d₁ d₂ d' : Desk}
    (ha : Among h l prev.good order origin d d₁ d₂ d' done rest) (hnodup : order.Nodup)
    (hprev : prev.Sound h) (haligned : prev.Aligned) (hfile : origin ≠ LEGACY)
    (hd : d.Sound h legacy) (hled : d.Ledger [])
    (hpool : (slotsAt d.pool origin).Perm (slotsAt prev.slots origin))
    (hwhich : d₂.refused ≠ d₁.refused ∨ l.unchanged prev.good origin = true) :
    ((d'.accepted.lookup origin).getD []).Perm (slotsAt prev.slots origin) ∨
      d'.accepted.lookup origin = none ∧
        ∃ q ∈ legacy ++ pipesOf d₁.standing, ∃ p ∈ pipesOf (slotsAt prev.slots origin),
          ¬ Differ q p := by
  cases hlast : prev.good.lookup origin with
  | none =>
    -- It has no last good build, so it had no pipelines, and it keeps none.
    have hown : slotsAt prev.slots origin = [] := by
      have hlabels := haligned origin hfile
      rw [hlast] at hlabels
      exact List.map_eq_nil_iff.mp hlabels.eq_nil
    have hrefused : d₂.refused ≠ d₁.refused := hwhich.resolve_right fun hun ↦ by
      rw [Layout.unchanged, hlast, Bool.and_false] at hun
      cases hun
    refine .inl ?_
    rw [hown]
    have hacc : d₂.accepted = d₁.accepted ++ [] := by
      rw [List.append_nil]
      cases ha.step with
      | built _ hacc =>
        obtain ⟨e, pool, claimed, -, -, rfl⟩ := hacc
        exact absurd rfl hrefused
      | kept _ _ hl' _ =>
        rw [hlast] at hl'
        cases hl'
      | dropped _ _ _ => rfl
    rw [ha.lookup_eq hnodup hled hacc]
    exact .refl _
  | some last =>
    have howned : Owned origin last (slotsAt prev.slots origin) d₁.pool := by
      refine ⟨(ha.before.free (ha.not_mem hnodup).1).trans hpool, ?_, hprev.own_differ hfile⟩
      have hlabels := haligned origin hfile
      rw [hlast] at hlabels
      exact hlabels
    rcases ha.step.outcome (hd.settleAll ha.before) hlast howned with
      ⟨hsame, hun⟩ | ⟨slots, hacc, hperm⟩ | ⟨hacc, hclash⟩
    · rcases hwhich with hne | hun'
      · exact absurd hsame hne
      · rw [hun] at hun'
        cases hun'
    · rw [ha.lookup_eq hnodup hled hacc, Toml.lookup_cons_eq, if_pos rfl]
      exact .inl hperm
    · rw [← List.append_nil d₁.accepted] at hacc
      exact .inr ⟨ha.lookup_eq hnodup hled hacc, hclash⟩

/-- The slots accepted before this file are accepted at the end. -/
theorem Among.standing_subset {prevGood : List (String × List Entry)}
    {order done rest : List String} {d d₁ d₂ d' : Desk}
    (ha : Among h l prevGood order origin d d₁ d₂ d' done rest) :
    d₁.standing ⊆ d'.standing := by
  obtain ⟨extra, hextra, -⟩ := (SettledAll.cons ha.step ha.after).accepted_append
  rw [Desk.standing, Desk.standing, hextra, List.flatMap_append]
  exact List.subset_append_left _ _

/-- A pipeline of a file settled before this one, unless the previous build has it for that file, is
one of a changed file, earlier in name order than this one, which changed too. -/
theorem Among.earlier {legacy : List Pipeline} {done rest : List String} {d d₁ d₂ d' : Desk}
    (ha : Among h l prev.good (l.order prev.good) origin d d₁ d₂ d' done rest)
    (hnodup : (l.order prev.good).Nodup) (hprev : prev.Sound h) (haligned : prev.Aligned)
    (hd : d.Sound h legacy) (hled : d.Ledger [])
    (hfree : ∀ o, o ≠ LEGACY → (slotsAt d.pool o).Perm (slotsAt prev.slots o))
    {q : Pipeline} (hq : q ∈ pipesOf d₁.standing)
    (hold : ¬ (q ∈ prev.pipelines ∧ q.origin ≠ origin)) :
    l.unchanged prev.good origin = false ∧ l.unchanged prev.good q.origin = false ∧
      q.origin < origin := by
  have hdone : ([] ++ done).Nodup := by
    rw [ha.order] at hnodup
    exact hnodup.of_append_left
  have hled₁ := hled.settleAll hdone ha.before
  obtain ⟨t, ht, hqt⟩ := mem_pipesOf.mp hq
  have hqo : q.origin = t.origin := ((hd.settleAll ha.before).standing t ht).origin q hqt
  have htown : t ∈ slotsAt d₁.standing t.origin := List.mem_filter.mpr ⟨ht, by simp⟩
  obtain ⟨hstand, -, hin⟩ := hled₁ t.origin
  rw [hstand] at htown
  have hdone : t.origin ∈ done := by
    cases hlook : d₁.accepted.lookup t.origin with
    | none =>
      rw [hlook] at htown
      cases htown
    | some v =>
      rw [hlook] at hin
      exact hin rfl
  have hne : t.origin ≠ origin := fun heq ↦ (ha.not_mem hnodup).1 (heq ▸ hdone)
  have hrel := l.order_pairwise prev.good
  rw [ha.order, List.pairwise_append] at hrel
  have horder : t.origin ∈ l.order prev.good := by
    rw [ha.order]
    exact List.mem_append_left _ hdone
  rw [hqo]
  cases hun : l.unchanged prev.good t.origin with
  | true =>
    -- That file did not change, so it has its own slots, and `q` is of the previous build.
    obtain ⟨e₁, e₂, done', rest', ha'⟩ := ha.before.exists_among hdone
    have hfile' := Layout.ne_legacy (Layout.mem_order.mp horder)
    have hnodup' : done.Nodup := by
      rw [ha.order] at hnodup
      exact hnodup.of_append_left
    rcases ha'.keeps hnodup' hprev haligned hfile' hd hled (hfree _ hfile') (.inr hun) with
      hperm | ⟨hnone, -⟩
    · have htprev := List.mem_of_mem_filter (hperm.subset htown)
      refine absurd ⟨?_, hqo ▸ hne⟩ hold
      rw [hprev.pipelines]
      exact mem_pipesOf.mpr ⟨t, htprev, hqt⟩
    · rw [hnone] at htown
      cases htown
  | false =>
    rcases hrel.2.2 t.origin hdone origin List.mem_cons_self with hun' | ⟨hown, hlt⟩
    · rw [hun] at hun'
      cases hun'
    · exact ⟨hown, rfl, hlt⟩

/-- **What a rebuild keeps of a file.**  A file that is refused, and one that did not change, has
after the rebuild the pipelines it had; or it has none, and one of those it had has the name or the
key of a pipeline that was taken up before it: a legacy entry's, or, when the file did change, that
of another changed file earlier in name order. -/
theorem Rebuilt.keeps (hr : Rebuilt h l prev b) (hl : l.Formed) (hfile : origin ≠ LEGACY)
    (hwhich : (∃ r ∈ b.refused, r.rowName = origin) ∨ l.unchanged prev.good origin = true) :
    (b.of origin).Perm (prev.of origin) ∨
      b.of origin = [] ∧ ∃ q ∈ b.pipelines, ∃ p ∈ prev.of origin, ¬ Differ q p ∧
        (q.origin = LEGACY ∨ l.unchanged prev.good origin = false ∧
          l.unchanged prev.good q.origin = false ∧ q.origin < origin) := by
  obtain ⟨hprev, haligned, hmade⟩ := hr
  have hsound : b.Sound h := hmade.sound fun a ha ↦ by
    cases ha
    exact hprev
  obtain ⟨legacy, pool, claimed, d, hf, hc, hd, hslots, hpipes, hrefused, -⟩ := hmade
  simp only [Option.elim_some] at hf hd
  have hnodup := l.order_nodup prev.good
  have hstart := Desk.sound_start hf hprev.hatched hc
  have hled := ledger_start pool claimed legacy.fresh
  have hfree : ∀ o, o ≠ LEGACY → (slotsAt pool o).Perm (slotsAt prev.slots o) := fun o ho ↦
    hf.other (by rw [map_fst_legacyAsks]; exact legacyLabels_origin _) ho
  have hlegacy := hf.legacy hprev.hatched
  -- What the build holds of a file is what was entered for it.
  have hof : ∀ o, o ≠ LEGACY → (slotsAt b.slots o).Perm ((d.accepted.lookup o).getD []) := by
    intro o ho
    obtain ⟨hstanding, -, -⟩ := (hled.settleAll (by simpa using hnodup) hd) o
    rw [hslots, slotsAt_append, slotsAt_of_ne hlegacy.1 ho, List.nil_append, ← hstanding]
    exact slotsAt_perm d.inOrder_perm o
  have hmem : origin ∈ l.order prev.good ∧
      ∀ {d₁ d₂ : Desk} {done rest : List String},
        Among h l prev.good (l.order prev.good) origin { pool, claimed, fresh := legacy.fresh }
          d₁ d₂ d done rest →
        (∃ e₁ e₂ done' rest', Among h l prev.good (l.order prev.good) origin
          { pool, claimed, fresh := legacy.fresh } e₁ e₂ d done' rest' ∧
          (e₂.refused ≠ e₁.refused ∨ l.unchanged prev.good origin = true)) := by
    rcases hwhich with ⟨r, hr, hrow⟩ | hun
    · rw [hrefused] at hr
      obtain ⟨o, e₁, e₂, done', rest', ha, hne, hrow'⟩ := hd.exists_refused hr (by simp)
      have hin : o ∈ l.order prev.good := by
        rw [ha.order]
        simp
      have ho : o = origin := (hl.rowName (Layout.mem_order.mp hin) hrow').symm.trans hrow
      subst ho
      exact ⟨hin, fun _ ↦ ⟨e₁, e₂, done', rest', ha, .inl hne⟩⟩
    · refine ⟨Layout.mem_order.mpr ?_, fun ha ↦ ⟨_, _, _, _, ha, .inr hun⟩⟩
      rw [Layout.unchanged, Bool.and_eq_true, Bool.not_eq_true', List.isEmpty_eq_false_iff] at hun
      obtain ⟨e, he⟩ := List.exists_mem_of_ne_nil _ hun.1
      obtain ⟨e', he', hsome⟩ := List.mem_filterMap.mp he
      split at hsome
      · rename_i horigin
        rw [Layout.origins, List.mem_insertionSort, List.mem_dedup, List.mem_append,
          List.mem_filter, decide_eq_true_eq]
        exact .inl ⟨List.mem_map.mpr ⟨e', he', horigin⟩, hfile⟩
      · cases hsome
  obtain ⟨hin, hwitness⟩ := hmem
  obtain ⟨x₁, x₂, y, z, hx⟩ := hd.exists_among hin
  obtain ⟨d₁, d₂, done, rest, ha, hwhich'⟩ := hwitness hx
  rw [hsound.of_eq, hprev.of_eq]
  rcases ha.keeps hnodup hprev haligned hfile hstart hled (hfree origin hfile) hwhich' with
    hperm | ⟨hnone, q, hq, p, hp, hclash⟩
  · exact .inl (((hof origin hfile).trans hperm).flatMap_right _)
  · have hempty : slotsAt b.slots origin = [] := by
      have hp := hof origin hfile
      rw [hnone] at hp
      exact hp.eq_nil
    refine .inr ⟨by rw [hempty]; rfl, q, ?_, p, hp, hclash, ?_⟩
    · rw [hpipes, hslots, pipesOf_append]
      rcases List.mem_append.mp hq with hq | hq
      · exact List.mem_append_left _ hq
      · obtain ⟨t, ht, hqt⟩ := mem_pipesOf.mp hq
        exact List.mem_append_right _
          (mem_pipesOf.mpr ⟨t, d.inOrder_perm.symm.subset (ha.standing_subset ht), hqt⟩)
    · rcases List.mem_append.mp hq with hq | hq
      · exact .inl (hlegacy.2 q hq)
      · -- It was taken up with a file settled before this one.
        refine .inr (ha.earlier hnodup hprev haligned hstart hled hfree hq fun hqprev ↦ hclash ?_)
        obtain ⟨s, hs, hps⟩ := mem_pipesOf.mp hp
        have hsown := of_decide_eq_true (List.mem_filter.mp hs).2
        have hpo : p.origin = origin := by
          rw [(hprev.hatched s (List.mem_of_mem_filter hs)).origin p hps, hsown]
        have hpprev : p ∈ prev.pipelines := by
          rw [hprev.pipelines]
          exact mem_pipesOf.mpr ⟨s, List.mem_of_mem_filter hs, hps⟩
        refine hprev.differ hpprev hqprev.1 ?_ ?_
        · rw [hpo]
          exact hqprev.2
        · rw [hpo]
          exact hfile

end rebuilt

/-- **A file refused in a rebuild, or not changed since its last good build, keeps exactly the
pipelines it had**, unless one of them has the name or the send-record key of a pipeline taken up
before it: then it runs none.  That other pipeline is a legacy entry's, or, when the file itself
changed, one of another changed file earlier in name order. -/
theorem file_keeps_pipelines (h : Host) (manifest manifest' : Manifest) (s : State)
    (hs : Reached h manifest s) (sig : Signature) (seen : List (String × Seen)) (strict : Bool)
    (w w' : World) (b : Build)
    (hrun : assemble h (layoutOf manifest' sig seen) (some s.self.build) strict w = (.ok b, w'))
    (file : String)
    (hwhich : (∃ r ∈ b.refused, r.file = file) ∨
      (layoutOf manifest' sig seen).unchanged s.self.build.good (originFor file) = true) :
    let l := layoutOf manifest' sig seen
    let prev := s.self.build
    let origin := originFor file
    (b.of origin).Perm (prev.of origin) ∨
      b.of origin = [] ∧ ∃ q ∈ b.pipelines, ∃ p ∈ prev.of origin, ¬ Differ q p ∧
        (q.origin = LEGACY ∨ l.unchanged prev.good origin = false ∧
          l.unchanged prev.good q.origin = false ∧ q.origin < origin) := by
  intro l prev origin
  have hwp := wp_assemble (h := h) l (some prev) strict w
  have hmade := wp_ok hwp hrun
  have hr : Rebuilt h l prev b := ⟨hs.sound.build, hs.aligned, hmade⟩
  refine hr.keeps (layoutOf_formed manifest' sig seen) (originFor_ne_legacy file) ?_
  rcases hwhich with ⟨r, hmem, rfl⟩ | hun
  · exact .inl ⟨r, hmem, rfl⟩
  · exact .inr hun

/-! ## Two files -/

/-- A host with two files, `a.toml` and `z.toml`. -/
def twoFiles : Host :=
  hostOf fun _ ↦ diskOf 0 [("a.toml", namesFile "a" ["a1"]), ("z.toml", namesFile "z" ["z1"])]

def twoFilesState : State := (start twoFiles (.initial {} true [])).2

theorem twoFiles_reached : Reached twoFiles {} twoFilesState := by
  have hok : start twoFiles (.initial {} true []) =
      (.ok (), (start twoFiles (.initial {} true [])).2) :=
    run_ok (by decide)
  exact .start hok

/-- `a.toml` is edited to hold a pipeline of this name, and `z.toml` no longer parses. -/
def editedBeside (name : String) : List (String × Seen) :=
  [("a.toml", .data [("pipeline", .arr [.table (namedEntry name "a")])]),
    ("z.toml", .broken "Invalid value")]

/-- What the rebuild of that layout gives. -/
def builtBeside (name : String) : Build :=
  ((assemble twoFiles (layoutOf {} .missing (editedBeside name)) (some twoFilesState.self.build)
    false {}).1.value).getD {}

theorem builtBeside_run {name : String}
    (hok : (assemble twoFiles (layoutOf {} .missing (editedBeside name))
      (some twoFilesState.self.build) false {}).1.value.isSome = true) :
    assemble twoFiles (layoutOf {} .missing (editedBeside name)) (some twoFilesState.self.build)
      false {} = (.ok (builtBeside name), (assemble twoFiles (layoutOf {} .missing
        (editedBeside name)) (some twoFilesState.self.build) false {}).2) := by
  obtain ⟨b, hb⟩ := Option.isSome_iff_exists.mp hok
  refine run_ok ?_
  rw [builtBeside, hb, Option.getD_some]

theorem file_keeps_pipelines_twoFiles :
    let l := layoutOf {} .missing (editedBeside "a2")
    let prev := twoFilesState.self.build
    let b := builtBeside "a2"
    let origin := originFor "z.toml"
    (b.of origin).map Pipeline.name = ["z1"] ∧
      ((b.of origin).Perm (prev.of origin) ∨
        b.of origin = [] ∧ ∃ q ∈ b.pipelines, ∃ p ∈ prev.of origin, ¬ Differ q p ∧
          (q.origin = LEGACY ∨ l.unchanged prev.good origin = false ∧
            l.unchanged prev.good q.origin = false ∧ q.origin < origin)) := by
  intro l prev b origin
  refine ⟨by decide, ?_⟩
  have hrefused : (b.refused.any fun r ↦ r.file = "z.toml") = true := by decide
  obtain ⟨r, hr, hfile⟩ := List.any_eq_true.mp hrefused
  exact file_keeps_pipelines twoFiles {} {} twoFilesState twoFiles_reached .missing
    (editedBeside "a2") false {} _ b (builtBeside_run (by decide)) "z.toml"
    (.inl ⟨r, hr, by simpa using hfile⟩)

/-- The edited file comes first in name order and takes the name; the broken one runs nothing. -/
theorem edited_file_takes_name :
    ¬ ∀ (h : Host) (manifest manifest' : Manifest) (s : State) (sig : Signature)
      (seen : List (String × Seen)) (w w' : World) (b : Build) (file : String),
      Reached h manifest s →
      assemble h (layoutOf manifest' sig seen) (some s.self.build) false w = (.ok b, w') →
      ((∃ r ∈ b.refused, r.file = file) ∨
        (layoutOf manifest' sig seen).unchanged s.self.build.good (originFor file) = true) →
      (b.of (originFor file)).Perm (s.self.build.of (originFor file)) := by
  intro hevery
  have hrefused : ((builtBeside "z1").refused.any fun r ↦ r.file = "z.toml") = true := by
    decide
  obtain ⟨r, hr, hfile⟩ := List.any_eq_true.mp hrefused
  have hperm := hevery twoFiles {} {} twoFilesState .missing (editedBeside "z1") {} _
    (builtBeside "z1") "z.toml"
    twoFiles_reached (builtBeside_run (by decide))
    (.inl ⟨r, hr, by simpa using hfile⟩)
  have hlen := hperm.length_eq
  revert hlen
  decide

end Daemon
end HsUploader
