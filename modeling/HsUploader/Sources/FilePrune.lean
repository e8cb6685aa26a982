import HsUploader.Sources.Files

/-!
# What a commit prunes

A commit deletes the files of its token and then tries the directories it deleted in, the parent of
each one it removes after it.  The loop ends, and the directories it removes are
those below the root that held, at any depth, a deleted file and nothing else that stays
(`Gone`, `commit_prunes`).

## What is here

* `TreeBelow` — a tree as a file system has one, with a directory around each entry below the root.
* `Gone` — which directories a commit is to remove, as an inductive predicate on the tree before it.
* `deletedOf` — the deletions the operating system lets through.
* `Pruning` — the invariant of the worklist, in whatever order its set is taken.
* `prune_files` — the loop ends, and no file is touched by it.
* `commit_prunes` — a commit ends with just these directories gone.
-/

set_option autoImplicit false

namespace HsUploader.Files

/-- The paths of a token that the operating system lets be deleted. -/
def deletedOf (refuses : Path → Bool) (token : List Path) : List Path :=
  token.filter fun p ↦ !refuses p

/-- A tree of a file system: one entry a path, and a directory around each entry below the root. -/
structure TreeBelow (root : Path) (tree : List Entry) : Prop where
  distinct : (tree.map (·.path)).Nodup
  rooted : ∀ e ∈ tree, root <+: e.path → e.path ≠ root → parent e.path ≠ root →
    ∃ d ∈ tree, d.path = parent e.path ∧ d.kind = .dir

/-- A directory strictly below the root, above a deleted file, in which all that is not deleted is
itself such a directory. -/
inductive Gone (root : Path) (tree : List Entry) (deleted : List Path) : Path → Prop
  | mk (d : Entry) (htree : d ∈ tree) (hkind : d.kind = .dir) (hroot : root <+: d.path)
      (hne : d.path ≠ root) (habove : ∃ p ∈ deleted, d.path <+: p ∧ d.path ≠ p)
      (hin : ∀ e ∈ tree, parent e.path = d.path → e.path ∉ deleted →
        Gone root tree deleted e.path) :
      Gone root tree deleted d.path

theorem Gone.inv {root p : Path} {tree : List Entry} {deleted : List Path}
    (h : Gone root tree deleted p) : (root <+: p ∧ p ≠ root) ∧
      ∀ e ∈ tree, parent e.path = p → e.path ∉ deleted → Gone root tree deleted e.path := by
  cases h with
  | mk d _ _ hroot hne _ hin => exact ⟨⟨hroot, hne⟩, hin⟩

namespace FileTreeSource

variable {C : Type} {src : FileTreeSource C} {refuses : Path → Bool} {tree cur : List Entry}
  {token work removed deleted : List Path}

/-! ## Paths -/

theorem below_iff {d : Path} : src.below d = true ↔ src.root <+: d ∧ d ≠ src.root := by
  rw [below, Bool.and_eq_true, List.isPrefixOf_iff_prefix, decide_eq_true_eq]

theorem parent_le (p : Path) : parent p <+: p := List.dropLast_prefix p

theorem parent_ne {p : Path} (h : p ≠ []) : parent p ≠ p := by
  intro heq
  have hlength := congrArg List.length heq
  rw [parent, List.length_dropLast] at hlength
  have hpos := List.length_pos_of_ne_nil h
  omega

theorem ne_nil_of_below {d : Path} (h : src.below d = true) : d ≠ [] := by
  rintro rfl
  obtain ⟨hstart, hne⟩ := below_iff.mp h
  exact hne (List.prefix_nil.mp hstart).symm

/-- A path above another is above its parent or is the parent. -/
theorem prefix_parent {d p : Path} (h : d <+: p) (hne : d ≠ p) : d <+: parent p := by
  obtain ⟨rest, rfl⟩ := h
  have hrest : rest ≠ [] := fun hnil ↦ hne (by rw [hnil, List.append_nil])
  rw [parent, List.dropLast_append_of_ne_nil hrest]
  exact List.prefix_append d rest.dropLast

/-- The step down from a path to one that lies below it. -/
theorem exists_child {d p : Path} (h : d <+: p) (hne : d ≠ p) :
    ∃ c, c <+: p ∧ parent c = d ∧ c ≠ [] := by
  obtain ⟨rest, rfl⟩ := h
  have hrest : rest ≠ [] := fun hnil ↦ hne (by rw [hnil, List.append_nil])
  obtain ⟨x, rest, rfl⟩ := List.exists_cons_of_ne_nil hrest
  refine ⟨d ++ [x], ⟨rest, by simp⟩, ?_, by simp⟩
  rw [parent, List.dropLast_concat]

/-- What lies above an entry, strictly below the root, is an entry. -/
theorem TreeBelow.exists_above {root c : Path} (hwf : TreeBelow root tree)
    (hroot : root <+: c) (hne : root ≠ c) {e : Entry} (hce : c <+: e.path) (he : e ∈ tree) :
    ∃ g ∈ tree, g.path = c := by
  obtain ⟨n, hn⟩ : ∃ n, n = e.path.length := ⟨_, rfl⟩
  induction n generalizing e with
  | zero =>
    rw [List.eq_nil_of_length_eq_zero hn.symm] at hce
    rw [List.prefix_nil.mp hce] at hroot hne
    exact absurd (List.prefix_nil.mp hroot) hne
  | succ n ih =>
    by_cases heq : c = e.path
    · exact ⟨e, he, heq.symm⟩
    · have hparent := prefix_parent hce heq
      have hlt : root.length < c.length :=
        lt_of_le_of_ne hroot.length_le fun hlen ↦ hne (hroot.eq_of_length hlen)
      have hne₁ : e.path ≠ root := fun her ↦ by
        have hle := hce.length_le
        rw [her] at hle
        omega
      have hne₂ : parent e.path ≠ root := fun her ↦ by
        have hle := hparent.length_le
        rw [her] at hle
        omega
      obtain ⟨g, hg, hgpath, -⟩ := hwf.rooted e he (hroot.trans hce) hne₁ hne₂
      refine ih (hgpath.symm ▸ hparent) hg ?_
      rw [hgpath, parent, List.length_dropLast, ← hn]
      rfl

/-! ## The loop over the token -/

theorem unlinkAll_spec (hfile : ∀ p ∈ token, ∀ e ∈ tree, e.path = p → e.kind ≠ .dir)
    (dirs : List Path) :
    (unlinkAll refuses token tree dirs).1 =
        tree.filter (fun e ↦ e.path ∉ deletedOf refuses token) ∧
      ∀ d, d ∈ (unlinkAll refuses token tree dirs).2 ↔
        d ∈ dirs ∨ ∃ p ∈ deletedOf refuses token, parent p = d := by
  induction token generalizing tree dirs with
  | nil => simp [unlinkAll, deletedOf]
  | cons p token ih =>
    have hany : tree.any (fun e ↦ e.path = p && e.kind = .dir) = false := by
      rw [List.any_eq_false]
      intro e he
      simpa using hfile p List.mem_cons_self e he
    rw [unlinkAll, unlink, hany, Bool.or_false]
    cases hrefused : refuses p with
    | true =>
      have hsame : deletedOf refuses (p :: token) = deletedOf refuses token := by
        rw [deletedOf, List.filter_cons_of_neg (by simp [hrefused]), deletedOf]
      rw [hsame]
      exact ih (fun q hq ↦ hfile q (List.mem_cons_of_mem p hq)) dirs
    | false =>
      have hcons : deletedOf refuses (p :: token) = p :: deletedOf refuses token := by
        rw [deletedOf, List.filter_cons_of_pos (by simp [hrefused]), deletedOf]
      have hfile' : ∀ q ∈ token, ∀ e ∈ tree.filter (fun e ↦ e.path ≠ p), e.path = q →
          e.kind ≠ .dir :=
        fun q hq e he ↦ hfile q (List.mem_cons_of_mem p hq) e (List.mem_of_mem_filter he)
      have hrest := ih hfile' (if parent p ∈ dirs then dirs else dirs ++ [parent p])
      rw [hcons]
      refine ⟨hrest.1.trans ?_, fun d ↦ (hrest.2 d).trans ?_⟩
      · rw [List.filter_filter]
        refine List.filter_congr fun e _ ↦ ?_
        rw [← Bool.decide_and]
        refine decide_eq_decide.mpr ?_
        rw [List.mem_cons, not_or, and_comm]
      · have hmem : d ∈ (if parent p ∈ dirs then dirs else dirs ++ [parent p]) ↔
            d ∈ dirs ∨ parent p = d := by
          split_ifs with hin
          · exact ⟨Or.inl, fun h ↦ h.elim id fun heq ↦ heq ▸ hin⟩
          · rw [List.mem_append, List.mem_singleton, eq_comm (a := d)]
        rw [hmem, or_assoc]
        simp

theorem unlinkAll_sublist (dirs : List Path) :
    (unlinkAll refuses token tree dirs).1.Sublist tree := by
  induction token generalizing tree dirs with
  | nil => exact .refl tree
  | cons p token ih =>
    rw [unlinkAll]
    cases hunlink : unlink refuses p tree with
    | ok after =>
      rw [unlink] at hunlink
      split_ifs at hunlink
      cases hunlink
      exact (ih _).trans List.filter_sublist
    | error => exact ih dirs

/-- A file is deleted when the token names it and the operating system lets it be. -/
theorem mem_unlinkAll {e : Entry} (hdistinct : (tree.map (·.path)).Nodup) (he : e ∈ tree)
    (hkind : e.kind ≠ .dir) (dirs : List Path) :
    e ∈ (unlinkAll refuses token tree dirs).1 ↔ e.path ∉ deletedOf refuses token := by
  have hgone : ∀ (token : List Path) (tree : List Entry) (dirs : List Path), e ∉ tree →
      e ∉ (unlinkAll refuses token tree dirs).1 :=
    fun token tree dirs hno hin ↦ hno ((unlinkAll_sublist dirs).subset hin)
  induction token generalizing tree dirs with
  | nil => simpa [unlinkAll, deletedOf] using he
  | cons p token ih =>
    rw [unlinkAll]
    cases hunlink : unlink refuses p tree with
    | ok after =>
      rw [unlink] at hunlink
      split_ifs at hunlink with hrefused
      cases hunlink
      rw [Bool.or_eq_true, not_or, Bool.not_eq_true] at hrefused
      have hcons : deletedOf refuses (p :: token) = p :: deletedOf refuses token := by
        rw [deletedOf, List.filter_cons_of_pos (by simp [hrefused.1]), deletedOf]
      rw [hcons, List.mem_cons, not_or]
      by_cases hep : e.path = p
      · exact iff_of_false (hgone _ _ _ (by simp [hep])) (by simp [hep])
      · have hafter : e ∈ tree.filter fun e ↦ e.path ≠ p :=
          List.mem_filter.mpr ⟨he, decide_eq_true hep⟩
        exact (ih (hdistinct.sublist (List.filter_sublist.map _)) hafter _).trans
          (and_iff_right hep).symm
    | error =>
      refine (ih hdistinct he dirs).trans ?_
      rw [unlink] at hunlink
      split_ifs at hunlink with hrefused
      rw [Bool.or_eq_true] at hrefused
      rcases hrefused with hrefused | hdir
      · rw [deletedOf, deletedOf, List.filter_cons_of_neg (by simp [hrefused])]
      · have hep : e.path ≠ p := by
          obtain ⟨d, hd, hdp⟩ := List.any_eq_true.mp hdir
          simp only [Bool.and_eq_true, decide_eq_true_eq] at hdp
          intro hep
          have hed := List.inj_on_of_nodup_map hdistinct he hd (hep.trans hdp.1.symm)
          exact hkind (hed ▸ hdp.2)
        simp [deletedOf, List.mem_filter, hep]

/-! ## The loop over the directories -/

/-- The work left and the tree, with the directories removed so far. -/
structure Pruning (src : FileTreeSource C) (tree : List Entry) (deleted removed work : List Path)
    (cur : List Entry) : Prop where
  cur_eq : cur = tree.filter fun e ↦ e.path ∉ deleted ∧ e.path ∉ removed
  gone : ∀ r ∈ removed, Gone src.root tree deleted r
  above : ∀ d ∈ work, ∃ p ∈ deleted, d <+: p ∧ d ≠ p
  -- a directory in which something went is still to be tried, or holds something
  tried : ∀ d ∈ cur, d.kind = .dir → src.below d.path = true →
    (∃ p, (p ∈ deleted ∨ p ∈ removed) ∧ p ≠ [] ∧ parent p = d.path) →
    d.path ∈ work ∨ ∃ e ∈ cur, parent e.path = d.path

theorem rmdir_eq_ok {d : Path} {after : List Entry} : rmdir d cur = .ok after ↔
    (∃ e ∈ cur, e.path = d ∧ e.kind = .dir) ∧ (∀ e ∈ cur, e.path ≠ d → parent e.path ≠ d) ∧
      after = cur.filter fun e ↦ e.path ≠ d := by
  have hempty : (cur.any fun e ↦ e.path ≠ d && parent e.path = d) = false ↔
      ∀ e ∈ cur, e.path ≠ d → parent e.path ≠ d := by
    rw [List.any_eq_false]
    refine forall₂_congr fun e _ ↦ ?_
    simp
  have hdir : (cur.any fun e ↦ e.path = d && e.kind = .dir) = true ↔
      ∃ e ∈ cur, e.path = d ∧ e.kind = .dir := by
    rw [List.any_eq_true]
    refine exists_congr fun e ↦ and_congr_right fun _ ↦ ?_
    simp
  rw [rmdir]
  split_ifs with h
  · rw [Bool.and_eq_true, Bool.not_eq_true', hdir, hempty] at h
    constructor
    · intro hok
      cases hok
      exact ⟨h.1, h.2, rfl⟩
    · rintro ⟨-, -, rfl⟩
      rfl
  · constructor
    · intro hok
      cases hok
    · rintro ⟨hd, he, -⟩
      exact absurd (by rw [Bool.and_eq_true, Bool.not_eq_true']; exact ⟨hdir.mpr hd, hempty.mpr he⟩) h

/-- A directory that is not below the root is passed over. -/
theorem Pruning.skip {d : Path} (h : Pruning src tree deleted removed (d :: work) cur)
    (hbelow : src.below d = false) : Pruning src tree deleted removed work cur where
  cur_eq := h.cur_eq
  gone := h.gone
  above w hw := h.above w (List.mem_cons_of_mem d hw)
  tried e he hkind hb hlost := by
    rcases h.tried e he hkind hb hlost with hw | hfull
    · rcases List.mem_cons.mp hw with heq | hw
      · rw [heq, hbelow] at hb
        cases hb
      · exact Or.inl hw
    · exact Or.inr hfull

/-- A directory that cannot be removed holds something. -/
theorem Pruning.kept {d : Path} {e : Exn} (h : Pruning src tree deleted removed (d :: work) cur)
    (hrm : rmdir d cur = .error e) : Pruning src tree deleted removed work cur where
  cur_eq := h.cur_eq
  gone := h.gone
  above w hw := h.above w (List.mem_cons_of_mem d hw)
  tried f hf hkind hb hlost := by
    rcases h.tried f hf hkind hb hlost with hw | hfull
    · rcases List.mem_cons.mp hw with heq | hw
      · by_contra hno
        rw [not_or, not_exists] at hno
        have hok : rmdir d cur = .ok (cur.filter fun e ↦ e.path ≠ d) :=
          rmdir_eq_ok.mpr ⟨⟨f, hf, heq, hkind⟩,
            fun g hg _ hparent ↦ hno.2 g ⟨hg, hparent.trans heq.symm⟩, rfl⟩
        rw [hrm] at hok
        cases hok
      · exact Or.inl hw
    · exact Or.inr hfull

/-- A directory that is removed was such a one, and its parent is tried next. -/
theorem Pruning.taken {d : Path} {after : List Entry}
    (h : Pruning src tree deleted removed (d :: work) cur) (hbelow : src.below d = true)
    (hrm : rmdir d cur = .ok after) :
    Pruning src tree deleted (d :: removed)
      (if parent d ≠ src.root then work ++ [parent d] else work) after := by
  obtain ⟨⟨e, he, heq, hkind⟩, hempty, rfl⟩ := rmdir_eq_ok.mp hrm
  have hnil := ne_nil_of_below hbelow
  obtain ⟨hstart, hne⟩ := below_iff.mp hbelow
  have hetree : e ∈ tree := by
    rw [h.cur_eq] at he
    exact List.mem_of_mem_filter he
  obtain ⟨p, hp, hdp, hdne⟩ := h.above d List.mem_cons_self
  have hgone : Gone src.root tree deleted d := by
    rw [← heq]
    refine .mk e hetree hkind (heq ▸ hstart) (heq ▸ hne) ⟨p, hp, heq ▸ hdp, heq ▸ hdne⟩ ?_
    intro f hf hparent hfd
    rw [heq] at hparent
    have hfnotd : f.path ≠ d := fun hfeq ↦ parent_ne hnil (hfeq ▸ hparent)
    by_cases hfr : f.path ∈ removed
    · exact h.gone f.path hfr
    · have hfcur : f ∈ cur := by
        rw [h.cur_eq, List.mem_filter]
        exact ⟨hf, by simpa using ⟨hfd, hfr⟩⟩
      exact absurd hparent (hempty f hfcur hfnotd)
  have hwork : ∀ w, w ∈ work → w ∈ if parent d ≠ src.root then work ++ [parent d] else work := by
    intro w hw
    split_ifs
    · exact List.mem_append_left _ hw
    · exact hw
  refine ⟨?_, ?_, ?_, ?_⟩
  · rw [h.cur_eq, List.filter_filter]
    refine List.filter_congr fun f _ ↦ ?_
    by_cases hfd : f.path = d <;> simp [hfd]
  · intro r hr
    rcases List.mem_cons.mp hr with rfl | hr
    · exact hgone
    · exact h.gone r hr
  · intro w hw
    have hor : w ∈ work ∨ w = parent d := by
      split_ifs at hw
      · exact (List.mem_append.mp hw).imp_right List.mem_singleton.mp
      · exact Or.inl hw
    rcases hor with hw | rfl
    · exact h.above w (List.mem_cons_of_mem d hw)
    · refine ⟨p, hp, (parent_le d).trans hdp, fun hpd ↦ ?_⟩
      exact parent_ne hnil (((parent_le d).eq_of_length_le (hpd ▸ hdp.length_le)))
  · intro f hf hfkind hfb hlost
    obtain ⟨hfcur, hfd⟩ := List.mem_filter.mp hf
    have hfd : f.path ≠ d := by simpa using hfd
    obtain ⟨hfstart, hfroot⟩ := below_iff.mp hfb
    -- the parent of what was just removed stands on the list again
    have hparent : parent d = f.path →
        f.path ∈ if parent d ≠ src.root then work ++ [parent d] else work := by
      intro hpd
      rw [hpd, if_pos hfroot]
      exact List.mem_append_right _ List.mem_cons_self
    have hold : (∃ p, (p ∈ deleted ∨ p ∈ removed) ∧ p ≠ [] ∧ parent p = f.path) →
        f.path ∈ (if parent d ≠ src.root then work ++ [parent d] else work) ∨
          ∃ g ∈ cur.filter fun e ↦ e.path ≠ d, parent g.path = f.path := by
      intro hlost
      rcases h.tried f hfcur hfkind hfb hlost with hw | ⟨g, hg, hgf⟩
      · exact Or.inl (hwork _ ((List.mem_cons.mp hw).resolve_left hfd))
      · by_cases hgd : g.path = d
        · exact Or.inl (hparent (hgd ▸ hgf))
        · exact Or.inr ⟨g, List.mem_filter.mpr ⟨hg, by simpa using hgd⟩, hgf⟩
    obtain ⟨q, hq, hqnil, hqf⟩ := hlost
    rcases hq with hq | hq
    · exact hold ⟨q, Or.inl hq, hqnil, hqf⟩
    · rcases List.mem_cons.mp hq with rfl | hq
      · exact Or.inl (hparent hqf)
      · exact hold ⟨q, Or.inr hq, hqnil, hqf⟩

/-- A turn that removes a directory adds at most one to the list. -/
theorem length_rmdir {d : Path} {after : List Entry} (hrm : rmdir d cur = .ok after) :
    (if parent d ≠ src.root then work ++ [parent d] else work).length + after.length ≤
      work.length + cur.length := by
  obtain ⟨⟨e, he, heq, -⟩, -, rfl⟩ := rmdir_eq_ok.mp hrm
  have hless : (cur.filter fun e ↦ e.path ≠ d).length < cur.length := by
    rw [List.length_filter_lt_length_iff_exists]
    exact ⟨e, he, by simpa using heq⟩
  have hmore : (if parent d ≠ src.root then work ++ [parent d] else work).length ≤
      work.length + 1 := by
    split_ifs
    · rw [List.length_append, List.length_singleton]
    · omega
  omega

/-- A run of the loop with enough fuel: each turn takes a directory off the list or one out of the
tree. -/
theorem Pruning.run {fuel : ℕ} (h : Pruning src tree deleted removed work cur)
    (hfuel : work.length + cur.length ≤ fuel) :
    ∃ removed' after, src.prune fuel work cur = some after ∧
      Pruning src tree deleted removed' [] after := by
  induction fuel generalizing removed work cur with
  | zero =>
    have hnil : work = [] := List.eq_nil_of_length_eq_zero (by omega)
    subst hnil
    exact ⟨removed, cur, rfl, h⟩
  | succ fuel ih =>
    cases work with
    | nil => exact ⟨removed, cur, rfl, h⟩
    | cons d work =>
      rw [List.length_cons] at hfuel
      rw [prune]
      cases hbelow : src.below d with
      | false => exact ih (h.skip hbelow) (by omega)
      | true =>
        cases hrm : rmdir d cur with
        | error e => exact ih (h.kept hrm) (by omega)
        | ok after =>
          exact ih (h.taken hbelow hrm) ((length_rmdir hrm).trans (by omega))

/-- Only directories are pruned. -/
theorem prune_files {fuel : ℕ} (hfuel : work.length + cur.length ≤ fuel)
    (hdistinct : (cur.map (·.path)).Nodup) :
    ∃ after, src.prune fuel work cur = some after ∧ after.Sublist cur ∧
      ∀ e ∈ cur, e.kind ≠ .dir → e ∈ after := by
  induction fuel generalizing work cur with
  | zero =>
    have hnil : work = [] := List.eq_nil_of_length_eq_zero (by omega)
    subst hnil
    exact ⟨cur, rfl, .refl cur, fun e he _ ↦ he⟩
  | succ fuel ih =>
    cases work with
    | nil => exact ⟨cur, rfl, .refl cur, fun e he _ ↦ he⟩
    | cons d work =>
      rw [List.length_cons] at hfuel
      rw [prune]
      cases src.below d with
      | false => exact ih (by omega) hdistinct
      | true =>
        cases hrm : rmdir d cur with
        | error e => exact ih (by omega) hdistinct
        | ok after =>
          have hless : (if parent d ≠ src.root then work ++ [parent d] else work).length +
              after.length ≤ fuel := (length_rmdir hrm).trans (by omega)
          obtain ⟨⟨g, hg, hgd, hgkind⟩, -, rfl⟩ := rmdir_eq_ok.mp hrm
          obtain ⟨after, hafter, hsub, hfiles⟩ :=
            ih hless (hdistinct.sublist (List.filter_sublist.map _))
          refine ⟨after, hafter, hsub.trans List.filter_sublist, fun e he hkind ↦ ?_⟩
          refine hfiles e (List.mem_filter.mpr ⟨he, decide_eq_true fun hed ↦ hkind ?_⟩) hkind
          rw [List.inj_on_of_nodup_map hdistinct he hg (hed.trans hgd.symm)]
          exact hgkind

/-- Once the list is empty, no directory that was to go is left. -/
theorem Pruning.complete (hwf : TreeBelow src.root tree)
    (hfile : ∀ p ∈ deleted, ∃ e ∈ tree, e.path = p ∧ e.kind ≠ .dir)
    (h : Pruning src tree deleted removed [] cur) {d : Path}
    (hd : Gone src.root tree deleted d) : ∀ e ∈ cur, e.path ≠ d := by
  induction hd with
  | mk d htree hkind hroot hne habove hin ih =>
    intro e he heq
    have hcur : ∀ {g : Entry}, g ∈ cur → g ∈ tree ∧ g.path ∉ deleted ∧ g.path ∉ removed := by
      intro g hg
      rw [h.cur_eq, List.mem_filter] at hg
      exact ⟨hg.1, by simpa using hg.2⟩
    have hunique : ∀ {g g' : Entry}, g ∈ tree → g' ∈ tree → g.path = g'.path → g = g' :=
      fun hg hg' hgg ↦ List.inj_on_of_nodup_map hwf.distinct hg hg' hgg
    have hed : e = d := hunique (hcur he).1 htree heq
    subst hed
    have hbelow : src.below e.path = true := below_iff.mpr ⟨hroot, hne⟩
    obtain ⟨p, hp, hep, hepne⟩ := habove
    obtain ⟨c, hcp, hparent, hcnil⟩ := exists_child hep hepne
    -- what stood on the way to the deleted file is deleted or removed
    have hlost : c ∈ deleted ∨ c ∈ removed := by
      by_cases hcd : c ∈ deleted
      · exact Or.inl hcd
      · have hcroot : src.root <+: c := hroot.trans (hparent ▸ parent_le c)
        have hlt : src.root ≠ c := by
          rintro rfl
          exact parent_ne hcnil (hparent.symm ▸ (hroot.eq_of_length_le
            (hparent ▸ (parent_le src.root)).length_le).symm)
        obtain ⟨f, hf, hfp, -⟩ := hfile p hp
        obtain ⟨g, hg, rfl⟩ := TreeBelow.exists_above hwf hcroot hlt (hfp ▸ hcp) hf
        by_contra hno
        rw [not_or] at hno
        have hgcur : g ∈ cur := by
          rw [h.cur_eq, List.mem_filter]
          exact ⟨hg, by simpa using hno⟩
        exact ih g hg hparent hcd g hgcur rfl
    rcases h.tried e he hkind hbelow ⟨c, hlost, hcnil, hparent⟩ with hw | ⟨g, hg, hge⟩
    · cases hw
    · exact ih g (hcur hg).1 hge (hcur hg).2.1 g hg rfl

/-! ## A commit -/

/-- The tree after the deletions, with the directories to try. -/
theorem Pruning.start (ord : SetOrder Path)
    (hfile : ∀ p ∈ token, ∀ e ∈ tree, e.path = p → e.kind ≠ .dir)
    (hnil : ∀ p ∈ token, p ≠ []) :
    Pruning src tree (deletedOf refuses token) []
      ((ord.order (unlinkAll refuses token tree []).2).mergeSort fun a b ↦ b.length ≤ a.length)
      (unlinkAll refuses token tree []).1 := by
  obtain ⟨htree, hdirs⟩ : (unlinkAll refuses token tree []).1 =
      tree.filter (fun e ↦ e.path ∉ deletedOf refuses token) ∧
      ∀ d, d ∈ (unlinkAll refuses token tree []).2 ↔
        d ∈ [] ∨ ∃ p ∈ deletedOf refuses token, parent p = d := unlinkAll_spec hfile []
  have hwork : ∀ d, d ∈ ((ord.order (unlinkAll refuses token tree []).2).mergeSort
      fun a b ↦ b.length ≤ a.length) ↔ ∃ p ∈ deletedOf refuses token, parent p = d := by
    intro d
    rw [List.mem_mergeSort, (ord.perm _).mem_iff, hdirs]
    simp
  refine ⟨by simpa using htree, fun r hr ↦ absurd hr List.not_mem_nil, ?_, ?_⟩
  · intro d hd
    obtain ⟨p, hp, rfl⟩ := (hwork d).mp hd
    exact ⟨p, hp, parent_le p, parent_ne (hnil p (List.mem_of_mem_filter hp))⟩
  · rintro d - - - ⟨p, hp, -, hparent⟩
    exact Or.inl ((hwork d.path).mpr ⟨p, hp.resolve_right List.not_mem_nil, hparent⟩)

/-- What a commit does to files: those that it deletes go, and no other. -/
theorem commit_files (src : FileTreeSource C) (ord : SetOrder Path) (refuses : Path → Bool)
    (token : List Path) (hdelete : src.keep = false) (hdistinct : (tree.map (·.path)).Nodup) :
    ∃ after, src.commit ord refuses token tree = some after ∧ after.Sublist tree ∧
      ∀ e ∈ tree, e.kind ≠ .dir → (e ∈ after ↔ e.path ∉ deletedOf refuses token) := by
  have hsub : (unlinkAll refuses token tree []).1.Sublist tree := unlinkAll_sublist []
  rw [commit, hdelete, if_neg Bool.false_ne_true]
  cases src.pruneEmptyDirs with
  | false =>
    exact ⟨_, rfl, hsub, fun e he hkind ↦ mem_unlinkAll hdistinct he hkind []⟩
  | true =>
    obtain ⟨after, hafter, hsub', hfiles⟩ :=
      prune_files (le_refl _) (hdistinct.sublist (hsub.map _))
    refine ⟨after, hafter, hsub'.trans hsub, fun e he hkind ↦ ?_⟩
    have hunlinked : e ∈ (unlinkAll refuses token tree []).1 ↔ e.path ∉ deletedOf refuses token :=
      mem_unlinkAll hdistinct he hkind []
    rw [← hunlinked]
    exact ⟨fun hin ↦ hsub'.subset hin, fun hin ↦ hfiles e hin hkind⟩

/-- **The worklist ends, and the directories it removes are those that `Gone` describes.**  The root,
what lies outside it and what still holds something remain. -/
theorem commit_prunes (src : FileTreeSource C) (ord : SetOrder Path) (refuses : Path → Bool)
    (tree : List Entry) (token : List Path) (hdelete : src.keep = false)
    (hprune : src.pruneEmptyDirs = true) (hwf : TreeBelow src.root tree)
    (htoken : ∀ p ∈ token, src.below p = true ∧ ∃ e ∈ tree, e.path = p ∧ e.kind ≠ .dir) :
    ∃ after, src.commit ord refuses token tree = some after ∧
      (∀ e, e ∈ after ↔ e ∈ tree ∧ e.path ∉ deletedOf refuses token ∧
        ¬ Gone src.root tree (deletedOf refuses token) e.path) ∧
      (∀ e ∈ tree, e.kind = .dir → src.below e.path = false → e ∈ after) ∧
      ∀ e ∈ tree, e.kind = .dir → (∃ f ∈ after, f.path ≠ e.path ∧ parent f.path = e.path) →
        e ∈ after := by
  have hfile : ∀ p ∈ token, ∀ e ∈ tree, e.path = p → e.kind ≠ .dir := by
    intro p hp e he hep
    obtain ⟨-, f, hf, hfp, hkind⟩ := htoken p hp
    rwa [List.inj_on_of_nodup_map hwf.distinct he hf (hep.trans hfp.symm)]
  have hdeleted : ∀ p ∈ deletedOf refuses token, ∃ e ∈ tree, e.path = p ∧ e.kind ≠ .dir :=
    fun p hp ↦ (htoken p (List.mem_of_mem_filter hp)).2
  obtain ⟨removed, after, hrun, hend⟩ :=
    (Pruning.start ord hfile fun p hp ↦ ne_nil_of_below (htoken p hp).1).run (le_refl _)
  have hmem : ∀ e, e ∈ after ↔ e ∈ tree ∧ e.path ∉ deletedOf refuses token ∧
      ¬ Gone src.root tree (deletedOf refuses token) e.path := by
    intro e
    constructor
    · intro he
      have hcur := he
      rw [hend.cur_eq, List.mem_filter, decide_eq_true_eq] at hcur
      exact ⟨hcur.1, hcur.2.1, fun hgone ↦ hend.complete hwf hdeleted hgone e he rfl⟩
    · rintro ⟨he, hed, hgone⟩
      rw [hend.cur_eq, List.mem_filter, decide_eq_true_eq]
      exact ⟨he, hed, fun her ↦ hgone (hend.gone e.path her)⟩
  have hkept : ∀ e ∈ tree, e.kind = .dir → e.path ∉ deletedOf refuses token := by
    intro e he hkind hed
    exact hfile e.path (List.mem_of_mem_filter hed) e he rfl hkind
  refine ⟨after, ?_, hmem, fun e he hkind hbelow ↦ ?_, fun e he hkind hfull ↦ ?_⟩
  · rw [commit, hdelete, hprune]
    exact hrun
  · refine (hmem e).mpr ⟨he, hkept e he hkind, fun hgone ↦ ?_⟩
    rw [below_iff.mpr hgone.inv.1] at hbelow
    cases hbelow
  · refine (hmem e).mpr ⟨he, hkept e he hkind, fun hgone ↦ ?_⟩
    obtain ⟨f, hf, -, hparent⟩ := hfull
    obtain ⟨hftree, hfdeleted, hfgone⟩ := (hmem f).mp hf
    exact hfgone (hgone.inv.2 f hftree hparent hfdeleted)

/-- A spool with a directory in another, and a file in the inner one. -/
def nested : List Entry :=
  [{ path := ["spool", "kiwi"], kind := .dir, mtimeNs := 0 },
   { path := ["spool", "kiwi", "20"], kind := .dir, mtimeNs := 0 },
   { path := ["spool", "kiwi", "20", "a.txt"], kind := .file, mtimeNs := 0 }]

theorem treeBelow_nested : TreeBelow ["spool"] nested :=
  ⟨by decide, by decide⟩

theorem commit_prunes_nested :
    ∃ after, FileTreeSource.commit ({ root := ["spool"], specs := [] } : FileTreeSource Unit)
        ⟨id, fun l ↦ .refl l⟩ (fun _ ↦ false) [["spool", "kiwi", "20", "a.txt"]] nested =
          some after ∧
      ∀ e, e ∈ after ↔ e ∈ nested ∧ e.path ∉ [["spool", "kiwi", "20", "a.txt"]] ∧
        ¬ Gone ["spool"] nested [["spool", "kiwi", "20", "a.txt"]] e.path := by
  obtain ⟨after, hcommit, hmem, -⟩ := commit_prunes
    ({ root := ["spool"], specs := [] } : FileTreeSource Unit) ⟨id, fun l ↦ .refl l⟩
    (fun _ ↦ false) nested [["spool", "kiwi", "20", "a.txt"]] rfl rfl treeBelow_nested (by decide)
  exact ⟨after, hcommit, hmem⟩

end FileTreeSource

end HsUploader.Files
