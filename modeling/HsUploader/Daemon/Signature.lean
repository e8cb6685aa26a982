import HsUploader.Daemon.Lifecycle

/-!
# No edit is lost

The signature is taken before anything is read, and it is taken one `stat` after the other.  Each
part of it vouches for one part of the content: the directory's own key for which files there are,
a file's key for what the file holds.  `Telling` is what the file system promises of these parts,
each for itself: while a part stands as it stood, so does what it vouches for.

An edit that lands between taking a part of the signature and reading what it vouches for has
changed that part by the time `due` takes it again.

## What is here

* `File.content` and `Disk.content` — what there is to be read, at one instant.
* `Telling` — the assumption on the file system, part by part.
* `Taken` and `ReadAt` — a signature with the steps it was taken at, and a file with the steps it
  was read at; the reading of a file has two steps of its own.
* `content_of_same_signature` — a signature that is found again.
* `due_of_content_ne` — in every reached state: if the content differs from what the build was read
  from, `due` answers true, whenever the edit landed.
-/

set_option autoImplicit false

namespace HsUploader
namespace Daemon

open Prog

variable {h : Host}

/-- A file's part of the signature. -/
def File.key (f : File) : Option StatKey := f.stat.toOption.map Stat.key

/-- What a file holds for a reader: whether it is a regular file, and what its bytes parse to. -/
def File.content (f : File) : Except OsError Bool × Parsed := (f.stat.map Stat.regular, f.parsed)

/-- What the two steps of reading a file come to. -/
def seenOf (name : String) (stat : Except OsError Bool) (parsed : Parsed) : Seen :=
  if fileClient name = none then .illegal
  else match stat with
    | .error e => .broken e.text
    | .ok false => .notRegular
    | .ok true =>
      match parsed with
      | .error text => .broken text
      | .ok table => .data table

/-- The content of the directory at one instant: its pipeline files, each with what reading it
gives. -/
def Disk.content (d : Disk) : List (String × Seen) :=
  (listedFiles d.listing).map fun name ↦
    (name, seenOf name (d.file name).content.1 (d.file name).content.2)

/-- What the file system promises.  The directory can be listed; while its key stands, no file of
it was made or removed; and while the key of a file in it stands, the file's content stands. -/
structure Telling (h : Host) : Prop where
  top : ∀ n, ∃ key, (h.disk n).top = .ok key
  listed : ∀ n, (h.disk n).fault = none
  names : ∀ t t', t ≤ t' → (h.disk t).top = (h.disk t').top →
    ∀ u, t ≤ u → u ≤ t' → (h.disk u).names.Perm (h.disk t).names
  files : ∀ name t t', t ≤ t' → name ∈ (h.disk t).names →
    ((h.disk t).file name).key = ((h.disk t').file name).key →
    ∀ u, t ≤ u → u ≤ t' → ((h.disk u).file name).content = ((h.disk t).file name).content

theorem sortNames_perm {names names' : List String} (hp : names.Perm names') :
    sortNames names = sortNames names' := by
  refine List.Perm.eq_of_pairwise (fun a b _ _ ↦ le_antisymm)
    (List.pairwise_insertionSort _ _) (List.pairwise_insertionSort _ _) ?_
  exact (List.perm_insertionSort _ _).trans (hp.trans (List.perm_insertionSort _ _).symm)

theorem Telling.listing (ht : Telling h) (n : ℕ) : (h.disk n).listing = .ok (h.disk n).names := by
  rw [Disk.listing, ht.listed n]

/-! ## What a signature and a reading say -/

theorem wp_statFiles_keys (names : List String) (w : World) :
    wp (statFiles h names)
      (fun files w' ↦ w.now ≤ w'.now ∧ files.map Prod.fst = names ∧ ∀ f ∈ files, ∃ j, w.now ≤ j ∧
        j ≤ w'.now ∧ f.2 = ((h.disk j).file f.1).key)
      (fun _ _ ↦ False) (fun _ ↦ False) w := by
  induction names generalizing w with
  | nil => exact ⟨le_rfl, rfl, by simp⟩
  | cons name names ih =>
    rw [statFiles, wp_bind, wp_look, wp_bind]
    refine wp_mono_ok (ih _) fun files w' hfiles ↦ ?_
    obtain ⟨hle, hnames, hkeys⟩ := hfiles
    have hle' : w.now ≤ w'.now := (Nat.le_succ _).trans hle
    rw [wp_pure]
    refine ⟨hle', by rw [List.map_cons, hnames], ?_⟩
    rw [List.forall_mem_cons]
    refine ⟨⟨w.now, le_rfl, hle', rfl⟩, fun f hf ↦ ?_⟩
    obtain ⟨j, hj, hj', hkey⟩ := hkeys f hf
    exact ⟨j, (Nat.le_succ _).trans hj, hj', hkey⟩

/-- A signature taken from the instant `a` to the instant `b`. -/
def Taken (h : Host) (a b : ℕ) (sig : Signature) : Prop :=
  ∃ top files k, sig = .listed top files ∧ (h.disk a).top = .ok top ∧ a ≤ k ∧ k ≤ b ∧
    files.map Prod.fst = sortNames (h.disk k).names ∧
    ∀ f ∈ files, ∃ j, a ≤ j ∧ j ≤ b ∧ f.2 = ((h.disk j).file f.1).key

theorem wp_pipelinesSignature_taken (ht : Telling h) (w : World) :
    wp (pipelinesSignature h) (fun sig w' ↦ w.now ≤ w'.now ∧ Taken h w.now w'.now sig)
      (fun _ _ ↦ False) (fun _ ↦ False) w := by
  obtain ⟨top, htop⟩ := ht.top w.now
  rw [pipelinesSignature, wp_bind, wp_look, htop]
  dsimp only
  rw [wp_bind, wp_look, ht.listing]
  dsimp only
  rw [wp_bind]
  refine wp_mono_ok (wp_statFiles_keys _ _) fun files w' hfiles ↦ ?_
  obtain ⟨hle, hnames, hkeys⟩ := hfiles
  have hle' : w.now + 1 ≤ w'.now := (Nat.le_succ _).trans hle
  rw [wp_pure]
  refine ⟨(Nat.le_succ _).trans hle', top, files, w.now + 1, rfl, htop, Nat.le_succ _, hle',
    hnames, fun f hf ↦ ?_⟩
  obtain ⟨j, hj, hj', hkey⟩ := hkeys f hf
  exact ⟨j, ((Nat.le_succ _).trans (Nat.le_succ _)).trans hj, hj', hkey⟩

/-- The file was read between two instants, its `stat` before its bytes. -/
def ReadAt (h : Host) (a b : ℕ) (s : String × Seen) : Prop :=
  ∃ r r', a ≤ r ∧ r ≤ b ∧ a ≤ r' ∧ r' ≤ b ∧
    s.2 = seenOf s.1 ((h.disk r).file s.1).content.1 ((h.disk r').file s.1).content.2

theorem wp_readFile_at (name : String) (w : World) :
    wp (readFile h name) (fun seen w' ↦ w.now ≤ w'.now ∧ ReadAt h w.now w'.now (name, seen))
      (fun _ _ ↦ False) (fun _ ↦ False) w := by
  rw [readFile]
  split
  · rename_i hclient
    rw [wp_pure]
    exact ⟨le_rfl, w.now, w.now, le_rfl, le_rfl, le_rfl, le_rfl, by simp only [seenOf, if_pos hclient]⟩
  · rename_i hclient
    rw [wp_bind, wp_look]
    split
    · rename_i e he
      rw [wp_pure]
      refine ⟨Nat.le_succ _, w.now, w.now, le_rfl, Nat.le_succ _, le_rfl, Nat.le_succ _, ?_⟩
      simp only [seenOf, if_neg hclient, File.content, he, Except.map]
    · rename_i st hst
      split
      · rename_i hregular
        rw [wp_bind, wp_look]
        have hle : w.now ≤ w.now + 1 + 1 := (Nat.le_succ _).trans (Nat.le_succ _)
        split
        · rename_i text htext
          rw [wp_pure]
          refine ⟨hle, w.now, w.now + 1, le_rfl, hle, Nat.le_succ _, Nat.le_succ _, ?_⟩
          simp only [seenOf, if_neg hclient, File.content, hst, Except.map, hregular]
          exact (congrArg (fun p : Parsed ↦ match p with
            | .error text => Seen.broken text
            | .ok table => .data table) htext).symm
        · rename_i table htable
          rw [wp_pure]
          refine ⟨hle, w.now, w.now + 1, le_rfl, hle, Nat.le_succ _, Nat.le_succ _, ?_⟩
          simp only [seenOf, if_neg hclient, File.content, hst, Except.map, hregular]
          exact (congrArg (fun p : Parsed ↦ match p with
            | .error text => Seen.broken text
            | .ok table => .data table) htable).symm
      · rename_i hregular
        rw [wp_pure]
        refine ⟨Nat.le_succ _, w.now, w.now, le_rfl, Nat.le_succ _, le_rfl, Nat.le_succ _, ?_⟩
        simp only [seenOf, if_neg hclient, File.content, hst, Except.map,
          Bool.eq_false_iff.mpr hregular]

theorem ReadAt.mono {a b a' b' : ℕ} {s : String × Seen} (hr : ReadAt h a b s) (ha : a' ≤ a)
    (hb : b ≤ b') : ReadAt h a' b' s := by
  obtain ⟨r, r', h₁, h₂, h₃, h₄, hs⟩ := hr
  exact ⟨r, r', ha.trans h₁, h₂.trans hb, ha.trans h₃, h₄.trans hb, hs⟩

theorem wp_readFiles_at (names : List String) (w : World) :
    wp (readFiles h names)
      (fun seen w' ↦ w.now ≤ w'.now ∧ seen.map Prod.fst = names ∧
        ∀ s ∈ seen, ReadAt h w.now w'.now s)
      (fun _ _ ↦ False) (fun _ ↦ False) w := by
  induction names generalizing w with
  | nil => exact ⟨le_rfl, rfl, by simp⟩
  | cons name names ih =>
    rw [readFiles, wp_bind]
    refine wp_mono_ok (wp_readFile_at name w) fun seen w₁ hseen ↦ ?_
    rw [wp_bind]
    refine wp_mono_ok (ih w₁) fun rest w' hrest ↦ ?_
    rw [wp_pure]
    refine ⟨hseen.1.trans hrest.1, by rw [List.map_cons, hrest.2.1], ?_⟩
    rw [List.forall_mem_cons]
    exact ⟨hseen.2.mono le_rfl hrest.1, fun s hs ↦ (hrest.2.2 s hs).mono hseen.1 le_rfl⟩

/-- **A reading of the directory**: the signature is taken first, then the files that are there are
read. -/
theorem wp_readDirectory_at (ht : Telling h) (w : World) :
    wp (readDirectory h)
      (fun r w' ↦ ∃ b, w.now ≤ b ∧ b ≤ w'.now ∧ Taken h w.now b r.1 ∧
        r.2.map Prod.fst = listedFiles (h.disk b).listing ∧ ∀ s ∈ r.2, ReadAt h b w'.now s)
      (fun _ _ ↦ False) (fun _ ↦ False) w := by
  rw [readDirectory, wp_bind]
  refine wp_mono_ok (wp_pipelinesSignature_taken ht w) fun sig w₁ hsig ↦ ?_
  rw [wp_bind, wp_look, wp_bind]
  refine wp_mono_ok (wp_readFiles_at _ _) fun seen w' hseen ↦ ?_
  rw [wp_pure]
  exact ⟨w₁.now, hsig.1, (Nat.le_succ _).trans hseen.1, hsig.2, hseen.2.1,
    fun s hs ↦ (hseen.2.2 s hs).mono (Nat.le_succ _) le_rfl⟩

/-! ## The same signature again -/

/-- **A signature that is found again vouches for the content in between**: at any instant from the
end of the reading to the taking of the second signature, the directory holds what was read. -/
theorem content_of_same_signature (ht : Telling h) {w w' : World} {sig : Signature}
    {seen : List (String × Seen)} (hread : Reads h w sig seen w') {a b t : ℕ}
    (htaken : Taken h a b sig) (hwt : w'.now ≤ t) (hta : t ≤ a) :
    (h.disk t).content = seen := by
  obtain ⟨m, hwm, hmw, ⟨top, files, k, hsig, htop, hk, hk', hnames, hkeys⟩, hlisted, hseen⟩ :=
    wp_ok (wp_readDirectory_at ht w) hread
  dsimp only at hsig hlisted hseen
  obtain ⟨top', files', k', hsig', htop', -, -, -, hkeys'⟩ := htaken
  rw [hsig] at hsig'
  cases hsig'
  have hwa : w.now ≤ a := (hwm.trans hmw).trans (hwt.trans hta)
  have hsame : (h.disk w.now).top = (h.disk a).top := by rw [htop, htop']
  have hperm : ∀ u, w.now ≤ u → u ≤ a → (h.disk u).names.Perm (h.disk w.now).names :=
    ht.names w.now a hwa hsame
  have hwt' : w.now ≤ t := (hwm.trans hmw).trans hwt
  have hfiles : listedFiles (h.disk t).listing = listedFiles (h.disk m).listing := by
    rw [ht.listing, ht.listing]
    refine sortNames_perm (List.Perm.filter _ ?_)
    exact (hperm t hwt' hta).trans (hperm m hwm (hmw.trans (hwt.trans hta))).symm
  have hone : ∀ s ∈ seen,
      s = (s.1, seenOf s.1 ((h.disk t).file s.1).content.1 ((h.disk t).file s.1).content.2) := by
    intro s hs
    have hmem : s.1 ∈ (h.disk m).names := by
      have hin : s.1 ∈ seen.map Prod.fst := List.mem_map_of_mem hs
      rw [hlisted, ht.listing] at hin
      exact (List.mem_filter.mp ((List.mem_insertionSort _).mp hin)).1
    have hmem' : s.1 ∈ files.map Prod.fst := by
      rw [hnames]
      refine (List.mem_insertionSort _).mpr ?_
      exact ((hperm k hk (hk'.trans (hmw.trans (hwt.trans hta)))).symm.subset
        ((hperm m hwm (hmw.trans (hwt.trans hta))).subset hmem))
    obtain ⟨f, hf, hfs⟩ := List.mem_map.mp hmem'
    obtain ⟨j, hj, hj', hkey⟩ := hkeys f hf
    obtain ⟨j₂, hj₂, -, hkey₂⟩ := hkeys' f hf
    have hja : j ≤ a := hj'.trans (hmw.trans (hwt.trans hta))
    have hconst := ht.files s.1 j j₂ (hja.trans hj₂)
      ((hperm j hj hja).symm.subset ((hperm m hwm (hmw.trans (hwt.trans hta))).subset hmem))
      (by rw [← hfs, ← hkey, ← hkey₂])
    obtain ⟨r, r', hr, hrw, hr', hrw', hval⟩ := hseen s hs
    have hlate : ∀ u, u ≤ w'.now → u ≤ j₂ := fun u hu ↦ (hu.trans (hwt.trans hta)).trans hj₂
    rw [hconst r (hj'.trans hr) (hlate r hrw), hconst r' (hj'.trans hr') (hlate r' hrw')] at hval
    rw [hconst t (hj'.trans (hmw.trans hwt)) (hta.trans hj₂), ← hval]
  rw [Disk.content, hfiles, ← hlisted, List.map_map]
  exact (List.map_congr_left fun s hs ↦ (hone s hs).symm).trans (List.map_id seen)

/-- What the recorded build was read from: the reading ended, and the build was made of it, before
now. -/
def State.ReadFrom (h : Host) (s : State) (seen : List (String × Seen)) (ended : ℕ) : Prop :=
  ∃ sig w w' previous strict, s.self.signature = some sig ∧ Reads h w sig seen w' ∧
    w'.now = ended ∧ ended ≤ s.world.now ∧
    ∃ w'', assemble h (layoutOf s.self.manifest sig seen) previous strict w' =
      (.ok s.self.build, w'')

theorem State.ReadFrom.kept {s s' : State} {seen : List (String × Seen)} {ended : ℕ}
    (hs : s.ReadFrom h seen ended) (hk : s.Kept s') : s'.ReadFrom h seen ended := by
  obtain ⟨sig, w, w', previous, strict, hsig, hread, hended, hle, w'', hrun⟩ := hs
  refine ⟨sig, w, w', previous, strict, hk.signature.trans hsig, hread, hended,
    hle.trans hk.later.now, w'', ?_⟩
  rw [hk.manifest, hk.build]
  exact hrun

/-- The build a draft makes was read from what the draft read. -/
theorem Drafted.readFrom {manifest : Manifest} {previous : Option Build} {w w' : World} {d : Draft}
    (hd : Drafted h manifest previous w w' d) {s : State} (hm : s.self.manifest = manifest)
    (hb : s.self.build = d.build) (hsig : s.self.signature = some d.signature)
    (hle : w'.Later s.world) : ∃ seen ended, s.ReadFrom h seen ended := by
  obtain ⟨seen, strict, version, w₁, w₂, hread, -, hrun, h₁, h₂, -⟩ := hd
  refine ⟨seen, w₁.now, d.signature, w, w₁, previous, strict, hsig, hread, rfl,
    (h₁.now.trans h₂.now).trans hle.now, w₂, ?_⟩
  rw [hm, hb]
  exact hrun

/-- In every state a daemon reaches, its build was read from some reading. -/
theorem Reached.readFrom {manifest : Manifest} {s : State} (hs : Reached h manifest s) :
    ∃ seen ended, s.ReadFrom h seen ended := by
  induction hs with
  | @start marker records s hrun =>
    obtain ⟨draft, w, hd, hle, hm, hb, hsig, -⟩ := wp_ok (wp_start _) hrun
    exact hd.readFrom hm hb hsig hle
  | @rebuild s s' r hs hrun ih =>
    have hwp := wp_rebuild (h := h) s
    rw [wp, hrun] at hwp
    rcases r with b | e | _ | _
    · obtain ⟨draft, s₁, hk, hd, -, hc⟩ := hwp
      cases b with
      | true =>
        rw [if_pos rfl] at hc
        exact hd.readFrom (hc.manifest.trans hk.manifest) hc.build hc.signature hc.later
      | false => exact hd.readFrom (hc.manifest.trans hk.manifest) hc.build hc.signature hc.later
    · rcases hwp with hk | ⟨draft, s₁, hk, hd, hc⟩
      · obtain ⟨seen, ended, hseen⟩ := ih
        exact ⟨seen, ended, hseen.kept hk⟩
      · exact hd.readFrom (hc.manifest.trans hk.manifest) hc.build hc.signature hc.later
    · exact hwp.elim
    · exact hwp.elim
  | other _ hk ih =>
    obtain ⟨seen, ended, hseen⟩ := ih
    exact ⟨seen, ended, hseen.kept hk⟩

/-- **No lost edit.**  In every state a daemon reaches, its build was read from some reading; and if
the content of the directory has differed from it at any instant since, `due` answers true. -/
theorem due_of_content_ne (h : Host) (ht : Telling h) (manifest : Manifest) (s : State)
    (hs : Reached h manifest s) :
    ∃ seen ended, s.ReadFrom h seen ended ∧
      ∀ t, ended ≤ t → t ≤ s.world.now → (h.disk t).content ≠ seen →
        wp (due h) (fun b _ ↦ b = true) (fun _ _ ↦ False) (fun _ ↦ False) s := by
  obtain ⟨seen, ended, hseen⟩ := hs.readFrom
  refine ⟨seen, ended, hseen, fun t hended hnow hne ↦ ?_⟩
  obtain ⟨sig, w, w', previous, strict, hsig, hread, rfl, -, -⟩ := hseen
  rw [due, wp_bind, onWorld, wp_zoom]
  refine wp_mono_ok (wp_pipelinesSignature_taken ht s.world) fun sig' w₁ htaken ↦ ?_
  rw [wp_bind, wp_get, wp_pure, decide_eq_true_eq, hsig]
  intro heq
  cases heq
  exact hne (content_of_same_signature ht hread htaken.2 hended hnow)

/-- A directory that changes once, its key and every file's with it, keeps what it promises. -/
theorem telling_hostOf (k : ℕ) (before after : List (String × Parsed)) :
    Telling (hostOf fun n ↦ if n < k then diskOf 0 before else diskOf 1 after) where
  top n := by
    dsimp only [hostOf]
    split
    · exact ⟨_, rfl⟩
    · exact ⟨_, rfl⟩
  listed n := by
    dsimp only [hostOf]
    split <;> rfl
  names t t' hle htop u hu hu' := by
    dsimp only [hostOf] at htop ⊢
    split at htop <;> split at htop
    · rw [if_pos (by omega), if_pos (by omega)]
    · simp [diskOf] at htop
    · simp [diskOf] at htop
    · rw [if_neg (by omega), if_neg (by omega)]
  files name t t' hle _ hkey u hu hu' := by
    dsimp only [hostOf] at hkey ⊢
    split at hkey <;> split at hkey
    · rw [if_pos (by omega), if_pos (by omega)]
    · simp [diskOf, File.key, Except.toOption] at hkey
    · simp [diskOf, File.key, Except.toOption] at hkey
    · rw [if_neg (by omega), if_neg (by omega)]

theorem due_of_content_ne_editedName :
    let s := (start editedName (.initial {} true [])).2.at 40
    ∃ seen ended, s.ReadFrom editedName seen ended ∧
      ∀ t, ended ≤ t → t ≤ s.world.now → (editedName.disk t).content ≠ seen →
        wp (due editedName) (fun b _ ↦ b = true) (fun _ _ ↦ False) (fun _ ↦ False) s := by
  intro s
  have hok : start editedName (.initial {} true []) =
      (.ok (), (start editedName (.initial {} true [])).2) :=
    run_ok (by decide)
  have hreached : Reached editedName {} ((start editedName (.initial {} true [])).2.at 40) :=
    (Reached.start hok).wait (by decide)
  exact due_of_content_ne editedName (telling_hostOf 40 _ _) {} s hreached

end Daemon
end HsUploader
