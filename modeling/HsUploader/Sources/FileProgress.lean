import Mathlib.Data.List.Perm.Subperm
import HsUploader.Sources.FilePolls

/-!
# Files that give no record

Files that cannot be read, whose parser raises or that parse to nothing stand in the window like any
other: they are not deleted, and the cursor passes them only with a file that gives records.  A
window of nothing else stops the source.  Each file that gives records is shipped where every window
reached holds one more of them (`Clear`, `parsed_is_shipped`).

## What is here

* `Clear` — what a poll meets: a condition on the tree and the cursor before it.
* `ClearRun` — each poll of a run that still has the file before it.
* `parsed_is_shipped` — each file that gives records is shipped after finitely many polls.
* `blocked` — a file that cannot be read, which a limit of one never gets past.
-/

set_option autoImplicit false

namespace HsUploader.Files.FileTreeSource

variable {C : Type} {src : FileTreeSource C} {it : Interpreter C} {os : Os} {oss : ℕ → Os}
  {limit : ℕ} {st : Polled} {files : List Entry}

/-! ## Clear polls -/

variable (src it) in
/-- What a poll meets that a later file is not kept from by the files of its window: the window
raises nothing, holds a file that parses where one lies beyond it, which is deleted or which the
cursor passes, and the cursor passes nothing beyond it. -/
structure Clear (os : Os) (limit : ℕ) (files : List Entry) : Prop where
  quiet : ∀ e ∈ files.take limit, src.Quiet it e
  reaches : (∃ e ∈ files.drop limit, src.Parses it e) → ∃ g ∈ files.take limit, src.Parses it g ∧
    (src.keep = false → g.kind = .file ∧ os.refuses g.path = false)
  apart : src.keep = true → ∀ g ∈ files.take limit, src.Parses it g →
    ∀ e ∈ files.drop limit, src.Parses it e → g.mtimeNs ≠ e.mtimeNs

variable (src it) in
/-- Each poll that has a file to ship before it is clear. -/
def ClearRun (oss : ℕ → Os) (limit : ℕ) (st : Polled) : Prop :=
  ∀ n files, Eligible src it (oss n) (polled src it oss limit st n) files →
    (∃ e ∈ files, src.Parses it e) → Clear src it (oss n) limit files

theorem polled_shift (n : ℕ) :
    polled src it (fun k ↦ oss (k + 1)) limit (poll src it (oss 0) limit st).2 n =
      polled src it oss limit st (n + 1) := by
  induction n with
  | zero => rfl
  | succ n ih => rw [polled, ih, ← polled]

theorem ClearRun.shift (h : ClearRun src it oss limit st) :
    ClearRun src it (fun k ↦ oss (k + 1)) limit (poll src it (oss 0) limit st).2 := by
  intro n files
  rw [polled_shift]
  exact h (n + 1) files

/-- A clear poll leaves what lies beyond its window before the next one, and has one file less
to ship. -/
theorem Clear.poll (h : Eligible src it os st files) (hclear : Clear src it os limit files)
    (hdistinct : (st.tree.map (·.path)).Nodup) {e : Entry} (he : e ∈ files.drop limit)
    (hlate : e ∉ files.take limit) (hkind : e.kind = .file) (hparses : src.Parses it e) :
    (((poll src it os limit st).2.tree).map (·.path)).Nodup ∧
      ∃ g ∈ files, src.Parses it g ∧ ∀ os', ∃ files',
        Eligible src it os' (poll src it os limit st).2 files' ∧ e ∈ files' ∧ g ∉ files' ∧
          ∀ f ∈ files', f ∈ files := by
  obtain ⟨g, hg, hgp, hgdel⟩ := hclear.reaches ⟨e, he, hparses⟩
  have hefiles := List.mem_of_mem_drop he
  have hgfiles := List.mem_of_mem_take hg
  obtain ⟨hetree, hewanted⟩ := h.mem hefiles
  cases hkeep : src.keep with
  | true =>
    obtain ⟨found, c', -, hpoll, hle, g', hg', hgp', rfl⟩ :=
      poll_keep hkeep h hclear.quiet ⟨g, hg, hgp⟩
    rw [hpoll]
    refine ⟨hdistinct, g, hgfiles, hgp, fun os' ↦ ⟨_, (eligible_keep hkeep
      (decodeKeepCursor_encode _)).mpr rfl, ?_, ?_, ?_⟩⟩
    · refine List.mem_filter.mpr ⟨mem_collectFiles.mpr ⟨hetree, hewanted⟩, decide_eq_true ?_⟩
      exact lt_of_le_of_ne (h.le_drop hg' he) (hclear.apart hkeep g' hg' hgp' e he hparses)
    · intro hin
      have hlt := of_decide_eq_true (List.mem_filter.mp hin).2
      exact absurd hlt (not_lt.mpr (hle g hg hgp))
    · intro f hf
      obtain ⟨hfcollect, hflt⟩ := List.mem_filter.mp hf
      rw [Eligible, afterCursor, hkeep, if_pos rfl] at h
      obtain ⟨c, hc, h⟩ := Except.bind_eq_ok.mp h
      have hfiles := Except.pure_eq_ok.mp h
      have hgc : c < g'.mtimeNs := by
        have hin := List.mem_of_mem_take hg'
        rw [← hfiles] at hin
        exact of_decide_eq_true (List.mem_filter.mp hin).2
      rw [← hfiles]
      exact List.mem_filter.mpr ⟨mem_collectFiles.mpr (mem_collectFiles.mp hfcollect),
        decide_eq_true (hgc.trans (of_decide_eq_true hflt))⟩
  | false =>
    obtain ⟨found, hfound, -, hpoll⟩ := exists_batch h hclear.quiet ⟨g, hg, hgp⟩
    have htoken : ∀ f : Entry, f.path ∈ (src.batchOf found.flatten).commitToken →
        ∃ f' ∈ files.take limit, src.Parses it f' ∧ f'.path = f.path := by
      intro f hf
      rw [batchOf, hkeep, if_neg Bool.false_ne_true, List.mem_eraseDups] at hf
      obtain ⟨r, hr, hrf⟩ := List.mem_map.mp hf
      obtain ⟨hin, hrp⟩ := (exists_record_iff hfound).mp ⟨r, hr, rfl⟩
      exact ⟨r.file, hin, hrp, hrf⟩
    have hgtoken : g.path ∈ deletedOf os.refuses (src.batchOf found.flatten).commitToken := by
      rw [deletedOf, List.mem_filter, (hgdel hkeep).2, batchOf, hkeep, if_neg Bool.false_ne_true,
        List.mem_eraseDups]
      obtain ⟨r, hr, hrg⟩ := (exists_record_iff hfound).mpr ⟨hg, hgp⟩
      exact ⟨List.mem_map.mpr ⟨r, hr, by rw [hrg]⟩, rfl⟩
    obtain ⟨after, hafter, hsub, hfiles⟩ := commit_files src os.dirs os.refuses
      (src.batchOf found.flatten).commitToken hkeep hdistinct
    rw [hpoll, hafter, Option.getD_some]
    refine ⟨hdistinct.sublist (hsub.map _), g, hgfiles, hgp, fun os' ↦ ⟨_,
      (eligible_delete hkeep).mpr rfl, ?_, ?_, ?_⟩⟩
    · refine mem_collectFiles.mpr ⟨(hfiles e hetree (by simp [hkind])).mpr fun hin ↦ hlate ?_,
        hewanted⟩
      obtain ⟨f, hf, -, hfe⟩ := htoken e (List.mem_of_mem_filter hin)
      rwa [← List.inj_on_of_nodup_map hdistinct (h.mem (List.mem_of_mem_take hf)).1 hetree hfe]
    · intro hin
      have hkindg : g.kind ≠ .dir := by simp [(hgdel hkeep).1]
      exact (hfiles g (h.mem hgfiles).1 hkindg).mp (mem_collectFiles.mp hin).1 hgtoken
    · intro f hf
      obtain ⟨hfafter, hfwanted⟩ := mem_collectFiles.mp hf
      rw [(eligible_delete hkeep).mp h]
      exact mem_collectFiles.mpr ⟨hsub.subset hfafter, hfwanted⟩

/-- The files still to ship get fewer with each clear poll. -/
theorem ClearRun.ships {len : ℕ} {e : Entry} (h : Eligible src it (oss 0) st files)
    (hlen : (files.filter fun f ↦ src.Parses it f).length ≤ len)
    (hclear : ClearRun src it oss limit st) (hdistinct : (st.tree.map (·.path)).Nodup)
    (he : e ∈ files) (hkind : e.kind = .file) (hparses : src.Parses it e) :
    ∃ n rs, src.recordsOf it e = .ok rs ∧ rs ≠ [] ∧ shipped src it oss limit st n e = rs := by
  induction len generalizing oss st files with
  | zero =>
    have hin : e ∈ files.filter fun f ↦ src.Parses it f :=
      List.mem_filter.mpr ⟨he, decide_eq_true hparses⟩
    rw [List.eq_nil_of_length_eq_zero (Nat.le_zero.mp hlen)] at hin
    cases hin
  | succ len ih =>
    have hnow := hclear 0 files h ⟨e, he, hparses⟩
    by_cases hwindow : e ∈ files.take limit
    · obtain ⟨found, hfound, -, hpoll⟩ := exists_batch h hnow.quiet ⟨e, hwindow, hparses⟩
      obtain ⟨rs, hrs, hne⟩ := recordsOf_of_parses (hnow.quiet e hwindow) hparses
      have hsame := (shipped_eq hpoll hfound (h.nodup hdistinct)).1 hwindow
      rw [hrs] at hsame
      cases hsame
      exact ⟨0, _, hrs, hne, rfl⟩
    · have hdrop : e ∈ files.drop limit := by
        rw [← List.take_append_drop limit files, List.mem_append] at he
        exact he.resolve_left hwindow
      obtain ⟨hdistinct', g, hg, hgp, hnext⟩ := hnow.poll h hdistinct hdrop hwindow hkind hparses
      obtain ⟨files', hfiles', he', hg', hsub⟩ := hnext (oss 1)
      have hless : (files'.filter fun f ↦ src.Parses it f).length ≤ len := by
        have hperm : (files'.filter fun f ↦ src.Parses it f).Subperm
            ((files.filter fun f ↦ src.Parses it f).erase g) := by
          refine List.Nodup.subperm ((hfiles'.nodup hdistinct').filter _) fun f hf ↦ ?_
          obtain ⟨hf, hfp⟩ := List.mem_filter.mp hf
          have hfg : f ≠ g := fun heq ↦ hg' (heq ▸ hf)
          exact (List.mem_erase_of_ne hfg).mpr (List.mem_filter.mpr ⟨hsub f hf, hfp⟩)
        have hle := hperm.length_le
        rw [List.length_erase_of_mem (List.mem_filter.mpr ⟨hg, decide_eq_true hgp⟩)] at hle
        omega
      obtain ⟨n, rs, hrs, hne, hships⟩ := ih hfiles' hless hclear.shift hdistinct' he'
      refine ⟨n + 1, rs, hrs, hne, ?_⟩
      rw [← hships, shipped, shipped, polled_shift]

/-- **Each file that parses to a record is shipped, where every poll with such a file before it is
clear.** -/
theorem parsed_is_shipped (src : FileTreeSource C) (it : Interpreter C) (oss : ℕ → Os) (limit : ℕ)
    (st : Polled) (e : Entry) (hdistinct : (st.tree.map (·.path)).Nodup)
    (hclear : ClearRun src it oss limit st) (he : e ∈ st.tree) (hwanted : src.wanted e)
    (hkind : e.kind = .file) (hparses : ∃ items, src.parse it e = .ok items ∧ items ≠ [])
    (hpast : src.keep = true → ∃ c, decodeKeepCursor it st.cursor = .ok c ∧ c < e.mtimeNs) :
    ∃ n rs, src.recordsOf it e = .ok rs ∧ rs ≠ [] ∧ shipped src it oss limit st n e = rs := by
  obtain ⟨files, hfiles, hin⟩ : ∃ files, Eligible src it (oss 0) st files ∧ e ∈ files := by
    have hcollect : e ∈ src.collectFiles (oss 0).files st.tree := mem_collectFiles.mpr ⟨he, hwanted⟩
    cases hkeep : src.keep with
    | false => exact ⟨_, (eligible_delete hkeep).mpr rfl, hcollect⟩
    | true =>
      obtain ⟨c, hcursor, hlt⟩ := hpast hkeep
      exact ⟨_, (eligible_keep hkeep hcursor).mpr rfl,
        List.mem_filter.mpr ⟨hcollect, decide_eq_true hlt⟩⟩
  obtain ⟨items, hitems, hne⟩ := hparses
  refine ClearRun.ships hfiles le_rfl hclear hdistinct hin hkind ?_
  rw [Parses, count, hitems]
  exact List.length_pos_of_ne_nil hne

theorem parsed_is_shipped_archive :
    ∃ n rs, archive.recordsOf plainInterpreter
        { path := ["archive", "b"], kind := .file, mtimeNs := 2 } = .ok rs ∧ rs ≠ [] ∧
      shipped archive plainInterpreter (fun _ ↦ plainOs) 1 (stored 1 2) n
        { path := ["archive", "b"], kind := .file, mtimeNs := 2 } = rs := by
  have hparses : ∀ e, archive.Parses plainInterpreter e := fun e ↦ Nat.one_pos
  have hquiet : ∀ e, archive.Quiet plainInterpreter e := fun e ↦ ⟨⟨_, rfl⟩, fun _ ↦ ⟨_, rfl⟩⟩
  have htree : ∀ n, (polled archive plainInterpreter (fun _ ↦ plainOs) 1 (stored 1 2) n).tree =
      twoFiles 1 2 := fun n ↦
    (polled_keep (c := 0) _ _ rfl rfl (fun e _ _ ↦ hparses e) (fun e _ _ _ ↦ hquiet e) n).1
  refine parsed_is_shipped archive plainInterpreter (fun _ ↦ plainOs) 1 (stored 1 2) _ (by decide)
    (fun n files h hsome ↦ ?_) (by decide) (by decide) rfl ⟨_, rfl, by simp⟩
    fun _ ↦ ⟨0, rfl, by decide⟩
  refine ⟨fun e _ ↦ hquiet e, fun _ ↦ ?_, fun _ g hg _ e he _ hge ↦ ?_⟩
  · obtain ⟨e, he, -⟩ := hsome
    obtain ⟨g, files, rfl⟩ := List.exists_cons_of_ne_nil (List.ne_nil_of_mem he)
    exact ⟨g, List.mem_cons_self, hparses g, fun h ↦ Bool.noConfusion h⟩
  · have hnodup := h.nodup (by rw [htree]; decide)
    have hgtree := (h.mem (List.mem_of_mem_take hg)).1
    have hetree := (h.mem (List.mem_of_mem_drop he)).1
    rw [htree] at hgtree hetree
    have heq : g = e := by
      have hinj : ∀ a ∈ twoFiles 1 2, ∀ b ∈ twoFiles 1 2, a.mtimeNs = b.mtimeNs → a = b := by
        decide
      exact hinj g hgtree e hetree hge
    exact List.disjoint_take_drop hnodup le_rfl hg (heq ▸ he)

/-- An archive whose files are deleted once they are shipped. -/
def spooled : FileTreeSource Unit where
  root := ["archive"]
  specs := [{ globs := fun _ ↦ true, pathMatch := fun _ ↦ true
              parser := some fun _ _ ↦ .mapping { columns := () } }]

/-- A file that cannot be read, and a later one that can. -/
def blocked : Polled where
  tree :=
    [{ path := ["archive", "a"], kind := .file, mtimeNs := 1 },
     { path := ["archive", "b"], kind := .file, mtimeNs := 2, content := some [] }]
  cursor := []

/-- A file that cannot be read keeps a later one from being shipped where a batch holds one
file. -/
theorem parsed_is_shipped_fails :
    ¬ ∀ (C : Type) (src : FileTreeSource C) (it : Interpreter C) (oss : ℕ → Os) (limit : ℕ)
      (st : Polled) (e : Entry), 1 ≤ limit → (st.tree.map (·.path)).Nodup → e ∈ st.tree →
      src.wanted e → e.kind = .file → (∃ items, src.parse it e = .ok items ∧ items ≠ []) →
      (src.keep = true → ∃ c, decodeKeepCursor it st.cursor = .ok c ∧ c < e.mtimeNs) →
      ∃ n, shipped src it oss limit st n e ≠ [] := by
  intro h
  obtain ⟨n, hn⟩ := h Unit spooled plainInterpreter (fun _ ↦ plainOs) 1 blocked
    { path := ["archive", "b"], kind := .file, mtimeNs := 2, content := some [] } le_rfl (by decide)
    (by decide) (by decide) rfl ⟨[{ columns := () }], rfl, by simp⟩ fun h ↦ Bool.noConfusion h
  have hcollect : spooled.collectFiles plainOs.files blocked.tree = blocked.tree :=
    List.mergeSort_of_pairwise (by decide)
  have hpoll : poll spooled plainInterpreter plainOs 1 blocked = (none, blocked) := by
    refine poll_barren ((eligible_delete rfl).mpr hcollect.symm) fun e he ↦ ?_
    rw [List.mem_singleton.mp (he : e ∈ [_])]
    decide
  have hstuck : ∀ n, polled spooled plainInterpreter (fun _ ↦ plainOs) 1 blocked n = blocked := by
    intro n
    induction n with
    | zero => rfl
    | succ n ih => rw [polled, ih, hpoll]
  exact hn (by rw [shipped, hstuck, hpoll])

end HsUploader.Files.FileTreeSource
