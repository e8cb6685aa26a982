import HsUploader.Daemon.Identity

/-!
# A directory that cannot be listed

`load_layout` reads a listing that fails like an empty one: every legacy entry is built, whatever
files stand in the directory, and no pipeline of a file is.

## What is here

* `listsAt` — the step of a rebuild at which the directory is listed for its files.
* `Build.SparesPresent` and `State.KeepsFiles` — what a rebuild should not do: build a legacy
  entry of a client whose file stands there, and drop a running pipeline that came from a file.
* `failed_listing_iff` — after a listing that failed, both hold exactly where neither could have
  failed: no such entry is in the manifest, and no such pipeline ran.
* `unlistable` — a station on its way from the manifest to a file.
-/

set_option autoImplicit false

namespace HsUploader
namespace Daemon

open Prog

variable {h : Host}

/-- The step at which a reading that starts at `w` lists the directory for its files. -/
def listsAt (h : Host) (w : World) : ℕ := (pipelinesSignature h w).2.now

/-- The clients whose file stands in the directory, readable or not. -/
def Disk.present (d : Disk) : List String := (d.names.filter isPipelineFile).map stem

/-- No legacy entry of a client whose file is present is built. -/
def Build.SparesPresent (b : Build) (manifest : Manifest) (d : Disk) : Prop :=
  ∀ e ∈ manifest.pipeline, e.text "client" "" ∈ d.present →
    ¬ ∃ s ∈ b.slots, s.origin = LEGACY ∧ s.entry.code = e.code

/-- No running pipeline that came from a pipeline file is dropped. -/
def State.KeepsFiles (s s' : State) : Prop :=
  ∀ p ∈ s.pumping, p.origin ≠ LEGACY → p ∈ s'.pumping

theorem Reads.of_fault {w w' : World} {sig : Signature} {seen : List (String × Seen)}
    (hread : Reads h w sig seen w') {e : OsError} (hfault : (h.disk (listsAt h w)).fault = some e) :
    seen = [] := by
  obtain ⟨sig', w₁, hsig⟩ := exists_run (wp_pipelinesSignature (h := h) w)
  have hnow : listsAt h w = w₁.now := by rw [listsAt, hsig]
  rw [hnow] at hfault
  have hwp : wp (readDirectory h) (fun r _ ↦ r.2 = []) (fun _ _ ↦ False) (fun _ ↦ False) w := by
    rw [readDirectory, wp_bind, wp, hsig]
    dsimp only
    rw [wp_bind, wp_look, Disk.listing, hfault]
    rfl
  have hnil := wp_ok hwp hread
  exact hnil

/-- The layout of a reading that found nothing: the legacy entries, all of them. -/
theorem layoutOf_nil (manifest : Manifest) (sig : Signature) :
    (layoutOf manifest sig []).inFile LEGACY = manifest.pipeline ∧
      ∀ prevGood, (layoutOf manifest sig []).order prevGood = [] := by
  have hentries : (layoutOf manifest sig []).entries = manifest.pipeline.map (·, LEGACY) := by
    simp [layoutOf, legacyEntries]
  constructor
  · rw [Layout.inFile, hentries, List.filterMap_map]
    simp
  · intro prevGood
    have hfiles : ((layoutOf manifest sig []).entries.map Prod.snd).filter (· ≠ LEGACY) = [] := by
      rw [hentries, List.filter_eq_nil_iff]
      simp
    have horigins : (layoutOf manifest sig []).origins = [] := by
      rw [Layout.origins, hfiles]
      rfl
    rw [Layout.order, horigins]
    rfl

/-- What is built when nothing was read: the legacy entries, and nothing else. -/
theorem Drafted.of_fault {manifest : Manifest} {previous : Option Build} {w w' : World} {d : Draft}
    (hd : Drafted h manifest previous w w' d) (hprev : ∀ b ∈ previous, b.Sound h) {e : OsError}
    (hfault : (h.disk (listsAt h w)).fault = some e) :
    d.build.slots.map Slot.label = legacyLabels manifest.pipeline ∧
      ∀ p ∈ d.build.pipelines, p.origin = LEGACY := by
  obtain ⟨seen, strict, version, w₁, w₂, hread, -, hrun, -⟩ := hd
  cases hread.of_fault hfault
  obtain ⟨legacy, pool, claimed, desk, hf, -, hdesk, hslots, hpipes, -, -⟩ :=
    wp_ok (wp_assemble _ previous strict w₁) hrun
  obtain ⟨hlegacy, horder⟩ := layoutOf_nil manifest d.signature
  rw [horder] at hdesk
  cases hdesk
  have hpool : ∀ s ∈ previous.elim [] Build.slots, Hatched h s := by
    cases previous with
    | none => simp
    | some a => exact (hprev a rfl).hatched
  have hslots' : d.build.slots = legacy.slots := by
    rw [hslots]
    simp [Desk.inOrder]
  rw [hlegacy] at hf
  rw [hpipes, hslots', ← map_fst_legacyAsks]
  exact ⟨(hf.hatched hpool).2.2, (hf.legacy hpool).2⟩

/-- Every legacy entry asks for a label. -/
theorem exists_legacyLabel {entries : List Entry} {e : Entry} (he : e ∈ entries) :
    ∃ l ∈ legacyLabels entries, l.1 = LEGACY ∧ l.2.2 = e.code := by
  rw [legacyLabels, List.map_append]
  by_cases hb : e.has "builder" = true
  · refine ⟨labelOf LEGACY (0, e), List.mem_append_right _ (List.mem_map_of_mem ?_), rfl, rfl⟩
    exact List.mem_map_of_mem (List.mem_filter.mpr ⟨he, hb⟩)
  · have hmem : e ∈ entries.filter fun e ↦ !Entry.has e "builder" :=
      List.mem_filter.mpr ⟨he, by simpa using hb⟩
    obtain ⟨i, hi, hget⟩ := List.mem_iff_getElem.mp hmem
    refine ⟨labelOf LEGACY (i, e), List.mem_append_left _ (List.mem_map_of_mem ?_), rfl, rfl⟩
    refine List.mem_map.mpr ⟨(e, i), ?_, rfl⟩
    rw [List.mk_mem_zipIdx_iff_getElem?, ← hget]
    exact List.getElem?_eq_getElem hi

/-- A build of the legacy entries alone spares the clients with a file when no legacy entry is one
of theirs. -/
theorem sparesPresent_iff {manifest : Manifest} {b : Build} {d : Disk}
    (hlabels : b.slots.map Slot.label = legacyLabels manifest.pipeline) :
    b.SparesPresent manifest d ↔
      ∀ e ∈ manifest.pipeline, e.text "client" "" ∉ d.present := by
  constructor
  · intro hspares e he hpresent
    obtain ⟨l, hl, horigin, hcode⟩ := exists_legacyLabel he
    rw [← hlabels] at hl
    obtain ⟨s, hs, rfl⟩ := List.mem_map.mp hl
    exact hspares e he hpresent ⟨s, hs, horigin, hcode⟩
  · exact fun hnone e he hpresent _ ↦ hnone e he hpresent

/-- **A failed listing changes who ships exactly when there is something to change**: after a
rebuild whose listing failed with anything but the directory's absence, no legacy entry of a client
with a file is built and no running pipeline of a file is dropped if and only if no legacy entry
names a client with a file and no running pipeline came from one; and the same, for the entries, of
a start. -/
theorem failed_listing_iff (h : Host) (manifest : Manifest) (type text : String) :
    (∀ (s s' : State) (b : Bool), Reached h manifest s → rebuild h s = (.ok b, s') →
      (h.disk (listsAt h s.world)).fault = some (.other type text) →
      (s'.self.build.SparesPresent manifest (h.disk (listsAt h s.world)) ∧ s.KeepsFiles s' ↔
        (∀ e ∈ manifest.pipeline,
          e.text "client" "" ∉ (h.disk (listsAt h s.world)).present) ∧
        ∀ p ∈ s.pumping, p.origin = LEGACY)) ∧
    ∀ (marker : Bool) (records : List (Key × Bytes)) (s' : State),
      start h (.initial manifest marker records) = (.ok (), s') →
      (h.disk (listsAt h {})).fault = some (.other type text) →
      (s'.self.build.SparesPresent manifest (h.disk (listsAt h {})) ↔
        ∀ e ∈ manifest.pipeline, e.text "client" "" ∉ (h.disk (listsAt h {})).present) := by
  constructor
  · intro s s' b hs hrun hfault
    have hsound := hs.sound
    obtain ⟨S, hS⟩ := hs.tracked
    obtain ⟨draft, s₁, hk, hd, hids, hc⟩ := wp_ok (wp_rebuild s) hrun
    have hprev : ∀ a ∈ some s.self.build, a.Sound h := by
      rintro a ⟨⟩
      exact hsound.build
    obtain ⟨hlabels, hlegacy⟩ := hd.of_fault hprev hfault
    obtain ⟨hbuilt, hsub⟩ := hd.sound hprev
    rw [hsound.manifest] at hlabels
    have hrunning : ∀ p ∈ draft.running, p.origin = LEGACY := fun p hp ↦ hlegacy p (hsub.subset hp)
    have hbuild : s'.self.build = draft.build := by
      cases b with
      | true => exact (show Committed _ _ _ _ _ from hc).build
      | false => exact (show Committed _ _ _ _ _ from hc).build
    have hkeeps : s.KeepsFiles s' ↔ ∀ p ∈ s.pumping, p.origin = LEGACY := by
      cases b with
      | true =>
        have hp : s'.pumping = draft.running := (show Committed _ _ _ _ _ from hc).pumping
        refine ⟨fun hkeep p hpump ↦ ?_, fun hall p hpump hne ↦ absurd (hall p hpump) hne⟩
        by_contra hne
        have hin := hkeep p hpump hne
        rw [hp] at hin
        exact hne (hrunning p hin)
      | false =>
        -- Nothing changed, so what runs is what was just built: legacy pipelines alone.
        obtain ⟨T, hST, hT, -, hdraft⟩ := hd.tracked hS.known hS.build hbuilt.pipelines
        have hsame := hT.eq_of_ids hdraft (fun p hp ↦ hST (hS.running p hp)) (hids rfl)
        have hall : ∀ p ∈ s.pumping, p.origin = LEGACY := by
          rw [← hsound.running, ← hsame]
          exact hrunning
        exact ⟨fun _ ↦ hall, fun _ p hp hne ↦ absurd (hall p hp) hne⟩
    rw [hkeeps, hbuild, sparesPresent_iff hlabels]
  · intro marker records s' hrun hfault
    obtain ⟨draft, w, hd, -, -, hb, -⟩ := wp_ok (wp_start _) hrun
    obtain ⟨hlabels, -⟩ := hd.of_fault (by simp) hfault
    rw [hb]
    exact sparesPresent_iff hlabels

/-- A station that moves from its legacy entry to a file, and whose directory then cannot be
listed. -/
def unlistable : Host :=
  hostOf fun n ↦
    let disk := diskOf 0 [("a.toml", namesFile "a" ["a1"])]
    if n < 40 then disk else { disk with fault := some (.other "PermissionError" "denied") }

/-- Its legacy manifest still names the client of the file. -/
def unlistableManifest : Manifest := ⟨[namedEntry "old" "a"]⟩

def unlistableState : State := (start unlistable (.initial unlistableManifest true [])).2.at 40

theorem unlistable_reached : Reached unlistable unlistableManifest unlistableState := by
  have hok : start unlistable (.initial unlistableManifest true []) =
      (.ok (), (start unlistable (.initial unlistableManifest true [])).2) :=
    run_ok (by decide)
  exact (Reached.start hok).wait (by decide)

theorem unlistable_rebuild : rebuild unlistable unlistableState =
    (.ok true, (rebuild unlistable unlistableState).2) :=
  run_ok (by decide)

theorem failed_listing_iff_unlistable :
    let s' := (rebuild unlistable unlistableState).2
    let d := unlistable.disk (listsAt unlistable unlistableState.world)
    (s'.self.build.SparesPresent unlistableManifest d ∧ unlistableState.KeepsFiles s' ↔
      (∀ e ∈ unlistableManifest.pipeline, e.text "client" "" ∉ d.present) ∧
      ∀ p ∈ unlistableState.pumping, p.origin = LEGACY) :=
  (failed_listing_iff unlistable unlistableManifest "PermissionError" "denied").1 _ _ _
    unlistable_reached unlistable_rebuild (by decide)

/-- The rebuild drops the file's pipeline and builds the legacy entry the file silences. -/
theorem failed_listing_revives :
    ¬ ∀ (h : Host) (manifest : Manifest) (type text : String) (s s' : State) (b : Bool),
      Reached h manifest s → rebuild h s = (.ok b, s') →
      (h.disk (listsAt h s.world)).fault = some (.other type text) →
      s'.self.build.SparesPresent manifest (h.disk (listsAt h s.world)) ∧ s.KeepsFiles s' := by
  intro hevery
  have hspares := (hevery _ _ "PermissionError" "denied" _ _ _ unlistable_reached
    unlistable_rebuild (by decide)).1
  refine hspares (namedEntry "old" "a") (by simp [unlistableManifest]) (by decide) ?_
  have hslots : ((rebuild unlistable unlistableState).2.self.build.slots.any fun s ↦
      s.origin = LEGACY ∧ s.entry.code = (namedEntry "old" "a").code) = true := by decide
  obtain ⟨slot, hslot, hs⟩ := List.any_eq_true.mp hslots
  exact ⟨slot, hslot, by simpa using hs⟩

end Daemon
end HsUploader
