import HsUploader.Library.Mirror
import HsUploader.Transports.PswsServer

/-!
# A dataset that is a directory

The batch for a directory makes its directories and writes its files in the order of `os.walk`.  The
walk meets every file that is there, once it does not lead through a link (`mem_walk_iff`), and a
directory is always announced before it is gone into (`walk_announced`), which is why every line
finds the directory it needs.

A trigger is only made once every file of the tree stands whole on the server, and an upload that
nothing comes between brings the tree.

## What is here

* `Listing.Has` and `mem_walk_iff` — what stands in a tree, by the names that lead to it, and that a
  walk meets exactly that.
* `remoteDir_inj` — a path on the server tells the names that lead to it, so that no two places of
  the tree are one place on the server (`agree_dataOps`).
* `trigger_not_touched` — the trigger has a hash in its name and no name of the tree has one.
* `fitting_tree` — the server has a place for the lines of the session, as `sftp` needs it.
* `TreePlace` and `TreePlace.kept` — nothing but directories stand where directories go, and no
  attempt changes that: what an attempt leaves behind is never in the way of the next.

The file lines of a tree write under the final name at once, there is no `.part` beside a tree.  So
a reader on the server may find a part of a file while the upload goes on, and the trigger is what
tells it that the tree is whole.
-/

set_option autoImplicit false

namespace HsUploader.Psws

open Transfer Sftp
open Wsprdaemon (FilePath slashJoin)

/-! ## What the walk meets -/

/-- What an entry of a directory is. -/
inductive Kind where
  | file
  | dir
  deriving DecidableEq

namespace Listing

/-- The entries of a kind. -/
def entries (l : Listing) : Kind → List Name
  | .file => l.files
  | .dir => l.dirs

/-- An entry stands in the tree, by the names that lead to it through directories that are
walked. -/
def Has (kind : Kind) : Listing → List Name → Prop
  | nil, _ => False
  | file name rest, p => (kind = .file ∧ p = [name]) ∨ rest.Has kind p
  | sub name walked inner rest, p => (kind = .dir ∧ p = [name]) ∨
    (walked = true ∧ ∃ q, p = name :: q ∧ inner.Has kind q) ∨ rest.Has kind p

end Listing

/-- The entries of a kind. -/
def Visit.entries (v : Visit) : Kind → List Name
  | .file => v.files
  | .dir => v.dirs

namespace Listing

variable {l : Listing} {rel p : List Name} {v : Visit} {kind : Kind}

theorem mem_visit_entries {kind : Kind} {n : Name} :
    n ∈ (l.visit rel).entries kind ↔ n ∈ l.entries kind := by
  cases kind with
  | file => exact (List.mergeSort_perm ..).mem_iff
  | dir => exact (List.mergeSort_perm ..).mem_iff

theorem mem_visit_dirs {n : Name} : n ∈ (l.visit rel).dirs ↔ n ∈ l.dirs :=
  (List.mergeSort_perm ..).mem_iff

/-- The entries of a directory itself. -/
theorem has_singleton {n : Name} (h : n ∈ l.entries kind) : l.Has kind [n] := by
  induction l with
  | nil => cases kind <;> cases h
  | file name rest ih =>
    cases kind with
    | file =>
      rcases List.mem_cons.mp h with rfl | h
      · exact .inl ⟨rfl, rfl⟩
      · exact .inr (ih h)
    | dir => exact .inr (ih h)
  | sub name walked inner rest _ ih =>
    cases kind with
    | file => exact .inr (.inr (ih h))
    | dir =>
      rcases List.mem_cons.mp h with rfl | h
      · exact .inl ⟨rfl, rfl⟩
      · exact .inr (.inr (ih h))

theorem inside_sub {name : Name} {walked : Bool} {inner rest : Listing} :
    (sub name walked inner rest).inside rel =
      (name, if walked then inner.walk (rel ++ [name]) else []) :: rest.inside rel := rfl

/-- A turn is the one for the directory itself or one of those below it. -/
theorem mem_walk : v ∈ l.walk rel ↔ v = l.visit rel ∨ ∃ b ∈ l.inside rel, v ∈ b.2 := by
  rw [walk, List.mem_cons, List.mem_flatMap]
  simp only [List.mem_mergeSort]

theorem has_of_inside {b : Name × List Visit} (hb : b ∈ l.inside rel) (hv : v ∈ b.2) {n : Name}
    (hn : n ∈ v.entries kind) : ∃ p, v.rel ++ [n] = rel ++ p ∧ l.Has kind p := by
  induction l generalizing rel b with
  | nil => cases hb
  | file name rest ih =>
    obtain ⟨p, hp, hhas⟩ := ih hb hv
    exact ⟨p, hp, .inr hhas⟩
  | sub name walked inner rest ihinner ihrest =>
    rw [inside_sub] at hb
    rcases List.mem_cons.mp hb with rfl | hb
    · cases walked with
      | false => cases hv
      | true =>
        rcases mem_walk.mp hv with rfl | ⟨b, hb, hv⟩
        · refine ⟨[name, n], by simp [visit], .inr (.inl ⟨rfl, [n], rfl, ?_⟩)⟩
          exact has_singleton (mem_visit_entries.mp hn)
        · obtain ⟨p, hp, hhas⟩ := ihinner hb hv
          exact ⟨name :: p, by rw [hp, List.append_assoc, List.singleton_append],
            .inr (.inl ⟨rfl, p, rfl, hhas⟩)⟩
    · obtain ⟨p, hp, hhas⟩ := ihrest hb hv
      exact ⟨p, hp, .inr (.inr hhas)⟩

theorem inside_of_has (rel : List Name) (h : l.Has kind p) : (∃ n ∈ l.entries kind, p = [n]) ∨
    ∃ b ∈ l.inside rel, ∃ v ∈ b.2, ∃ n ∈ v.entries kind, v.rel ++ [n] = rel ++ p := by
  induction l generalizing rel p with
  | nil => cases h
  | file name rest ih =>
    rcases h with ⟨rfl, rfl⟩ | h
    · exact .inl ⟨name, List.mem_cons_self, rfl⟩
    · rcases ih rel h with ⟨n, hn, rfl⟩ | h
      · refine .inl ⟨n, ?_, rfl⟩
        cases kind with
        | file => exact List.mem_cons_of_mem _ hn
        | dir => exact hn
      · exact .inr h
  | sub name walked inner rest ihinner ihrest =>
    rw [inside_sub]
    rcases h with ⟨rfl, rfl⟩ | ⟨rfl, q, rfl, h⟩ | h
    · exact .inl ⟨name, List.mem_cons_self, rfl⟩
    · refine .inr ⟨_, List.mem_cons_self, ?_⟩
      rcases ihinner (rel ++ [name]) h with ⟨n, hn, rfl⟩ | ⟨b, hb, v, hv, n, hn, heq⟩
      · exact ⟨inner.visit (rel ++ [name]), mem_walk.mpr (.inl rfl), n, mem_visit_entries.mpr hn,
          by simp [visit]⟩
      · refine ⟨v, mem_walk.mpr (.inr ⟨b, hb, hv⟩), n, hn, ?_⟩
        rw [heq, List.append_assoc, List.singleton_append]
    · rcases ihrest rel h with ⟨n, hn, rfl⟩ | ⟨b, hb, h⟩
      · refine .inl ⟨n, ?_, rfl⟩
        cases kind with
        | file => exact hn
        | dir => exact List.mem_cons_of_mem _ hn
      · exact .inr ⟨b, List.mem_cons_of_mem _ hb, h⟩

/-- **What the walk meets** is what stands in the tree. -/
theorem mem_walk_iff (rel : List Name) :
    (∃ v ∈ l.walk rel, ∃ n ∈ v.entries kind, v.rel ++ [n] = rel ++ p) ↔
    l.Has kind p := by
  constructor
  · rintro ⟨v, hv, n, hn, heq⟩
    rcases mem_walk.mp hv with rfl | ⟨b, hb, hv⟩
    · obtain rfl : [n] = p := List.append_cancel_left heq
      exact has_singleton (mem_visit_entries.mp hn)
    · obtain ⟨q, hq, hhas⟩ := has_of_inside hb hv hn
      obtain rfl : q = p := List.append_cancel_left (hq.symm.trans heq)
      exact hhas
  · intro h
    rcases inside_of_has rel h with ⟨n, hn, rfl⟩ | ⟨b, hb, v, hv, n, hn, heq⟩
    · exact ⟨l.visit rel, mem_walk.mpr (.inl rfl), n, mem_visit_entries.mpr hn, rfl⟩
    · exact ⟨v, mem_walk.mpr (.inr ⟨b, hb, hv⟩), n, hn, heq⟩

/-! ## The order of the walk -/

/-- A turn is for a directory that is known, or that a turn before it has named. -/
def Announced : (List Name → Prop) → List Visit → Prop
  | _, [] => True
  | known, v :: vs => known v.rel ∧ Announced (fun q ↦ known q ∨ ∃ d ∈ v.dirs, q = v.rel ++ [d]) vs

theorem Announced.mono {known known' : List Name → Prop} {vs : List Visit}
    (h : Announced known vs) (hle : ∀ q, known q → known' q) : Announced known' vs := by
  induction vs generalizing known known' with
  | nil => trivial
  | cons v vs ih => exact ⟨hle _ h.1, ih h.2 fun q ↦ Or.imp_left (hle q)⟩

theorem Announced.append {known : List Name → Prop} {vs vs' : List Visit}
    (h : Announced known vs) (h' : Announced known vs') : Announced known (vs ++ vs') := by
  induction vs generalizing known with
  | nil => exact h'
  | cons v vs ih => exact ⟨h.1, ih h.2 (h'.mono fun q ↦ Or.inl)⟩

theorem Announced.flatMap {α : Type} {known : List Name → Prop} {f : α → List Visit} {xs : List α}
    (h : ∀ x ∈ xs, Announced known (f x)) : Announced known (xs.flatMap f) := by
  induction xs with
  | nil => trivial
  | cons x xs ih =>
    rw [List.forall_mem_cons] at h
    rw [List.flatMap_cons]
    exact h.1.append (ih h.2)

theorem announced_walk_of_inside {known : List Name → Prop} (hrel : known rel)
    (h : ∀ b ∈ l.inside rel, b.1 ∈ l.dirs ∧
      ∀ known', known' (rel ++ [b.1]) → Announced known' b.2) :
    Announced known (l.walk rel) := by
  refine ⟨hrel, .flatMap fun b hb ↦ ?_⟩
  obtain ⟨hdir, hannounced⟩ := h b (List.mem_mergeSort.mp hb)
  exact hannounced _ (.inr ⟨b.1, mem_visit_dirs.mpr hdir, rfl⟩)

theorem inside_announced : ∀ b ∈ l.inside rel,
    b.1 ∈ l.dirs ∧ ∀ known, known (rel ++ [b.1]) → Announced known b.2 := by
  induction l generalizing rel with
  | nil => exact fun b hb ↦ absurd hb List.not_mem_nil
  | file name rest ih => exact ih
  | sub name walked inner rest ihinner ihrest =>
    rw [inside_sub]
    refine List.forall_mem_cons.mpr ⟨⟨List.mem_cons_self, fun known hknown ↦ ?_⟩, fun b hb ↦ ?_⟩
    · cases walked with
      | false => trivial
      | true => exact announced_walk_of_inside hknown ihinner
    · exact ⟨List.mem_cons_of_mem _ (ihrest b hb).1, (ihrest b hb).2⟩

/-- **A directory is announced before it is gone into.** -/
theorem walk_announced (known : List Name → Prop) (h : known rel) : Announced known (l.walk rel) :=
  announced_walk_of_inside h inside_announced

end Listing

/-! ## The lines for a tree -/

variable {tr : Transport} {disk : Disk} {path : FilePath} {l : Listing} {now : WsprNet.DateTime}
  {identity : Identity} {srv : Server PyText} {c : Connection} {t t' : Tree PyText UInt8}
  {answer : Answer} {base : PyText}

theorem Name.ext {n m : Name} (h : n.text = m.text) : n = m := by
  cases n
  cases m
  cases h
  rfl

theorem remoteDir_concat (rel : List Name) (n : Name) :
    remoteDir base rel ++ [.scalar '/'] ++ n.text = remoteDir base (rel ++ [n]) := by
  have hne : rel ++ [n] ≠ [] := by simp
  rw [remoteDir, remoteDir, if_neg hne, List.map_append, List.map_singleton, slashJoin, slashJoin]
  by_cases hrel : rel = []
  · rw [if_pos hrel, hrel, List.map_nil, List.nil_append, List.intercalate_singleton]
  · have hmap : rel.map Name.text ≠ [] := fun hnil ↦ hrel (List.map_eq_nil_iff.mp hnil)
    rw [if_neg hrel, Joined.intercalate_concat hmap]
    simp

/-- A path on the server tells the names that lead to it. -/
theorem remoteDir_inj {p q : List Name} (h : remoteDir base p = remoteDir base q) : p = q := by
  have hlength : ∀ r : List Name, r ≠ [] → base ≠ remoteDir base r := by
    intro r hr heq
    rw [remoteDir, if_neg hr] at heq
    have hlen := congrArg List.length heq
    simp only [List.length_append, List.length_singleton] at hlen
    omega
  by_cases hp : p = []
  · by_cases hq : q = []
    · rw [hp, hq]
    · rw [hp] at h
      exact absurd h (hlength q hq)
  · by_cases hq : q = []
    · rw [hq] at h
      exact absurd h.symm (hlength p hp)
    · rw [remoteDir, remoteDir, if_neg hp, if_neg hq] at h
      have hnames : ∀ r : List Name, r ≠ [] → r.map Name.text ≠ [] :=
        fun r hr hnil ↦ hr (List.map_eq_nil_iff.mp hnil)
      have hslash : ∀ r : List Name, ∀ s ∈ r.map Name.text, PyChar.scalar '/' ∉ s := by
        intro r s hs
        obtain ⟨n, -, rfl⟩ := List.mem_map.mp hs
        exact n.noSlash
      have htexts := Joined.intercalate_inj (hnames p hp) (hnames q hq) (hslash p) (hslash q)
        (List.append_cancel_left h)
      exact List.map_injective_iff.mpr (fun _ _ ↦ Name.ext) htexts

theorem osJoin_rootText (rel : List Name) (n : Name) :
    osJoin (rootText path rel) n.text = rootText path (rel ++ [n]) := by
  rw [rootText, rootText, List.map_append, List.foldl_append]
  rfl

theorem mem_visitOps {v : Visit} {line : Line PyText UInt8} :
    line ∈ Transport.visitOps disk base path v ↔
      (∃ d ∈ v.dirs, line = ⟨true, .makeDir (remoteDir base (v.rel ++ [d]))⟩) ∨
      ∃ f ∈ v.files, line = ⟨false, .put (disk.content (rootText path (v.rel ++ [f])))
        (remoteDir base (v.rel ++ [f]))⟩ := by
  simp only [Transport.visitOps, List.mem_append, List.mem_map, remoteDir_concat, osJoin_rootText,
    @eq_comm _ line]

/-- **What a batch for a directory does**: it makes the directories of the tree and writes its
files. -/
theorem mem_dataOps_dir {line : Line PyText UInt8} : line ∈ tr.dataOps disk path (.dir l) ↔
    line = ⟨true, .makeDir (tr.remotePathOf path.name)⟩ ∨
    (∃ q, l.Has .dir q ∧ line = ⟨true, .makeDir (remoteDir (tr.remotePathOf path.name) q)⟩) ∨
    ∃ q, l.Has .file q ∧ line = ⟨false, .put (disk.content (rootText path q))
      (remoteDir (tr.remotePathOf path.name) q)⟩ := by
  rw [Transport.dataOps, List.mem_cons, List.mem_flatMap]
  refine or_congr_right ?_
  constructor
  · rintro ⟨v, hv, hline⟩
    rcases mem_visitOps.mp hline with ⟨d, hd, rfl⟩ | ⟨f, hf, rfl⟩
    · exact .inl ⟨_, (Listing.mem_walk_iff []).mp ⟨v, hv, d, hd, rfl⟩, rfl⟩
    · exact .inr ⟨_, (Listing.mem_walk_iff []).mp ⟨v, hv, f, hf, rfl⟩, rfl⟩
  · rintro (⟨q, hq, rfl⟩ | ⟨q, hq, rfl⟩)
    · obtain ⟨v, hv, d, hd, heq⟩ := (Listing.mem_walk_iff []).mpr hq
      obtain rfl : v.rel ++ [d] = q := heq
      exact ⟨v, hv, mem_visitOps.mpr (.inl ⟨d, hd, rfl⟩)⟩
    · obtain ⟨v, hv, f, hf, heq⟩ := (Listing.mem_walk_iff []).mpr hq
      obtain rfl : v.rel ++ [f] = q := heq
      exact ⟨v, hv, mem_visitOps.mpr (.inr ⟨f, hf, rfl⟩)⟩

theorem mirror_dataOps : Mirror (tr.dataOps disk path (.dir l)) := by
  intro line hline
  rcases mem_dataOps_dir.mp hline with rfl | ⟨q, -, rfl⟩ | ⟨q, -, rfl⟩
  · exact .inl ⟨_, rfl⟩
  · exact .inl ⟨_, rfl⟩
  · exact .inr ⟨_, _, rfl⟩

theorem mem_put {data : Option Bytes} {p : PyText}
    (h : (⟨false, .put data p⟩ : Line PyText UInt8) ∈ tr.dataOps disk path (.dir l)) :
    ∃ q, l.Has .file q ∧ data = disk.content (rootText path q) ∧
      p = remoteDir (tr.remotePathOf path.name) q := by
  rcases mem_dataOps_dir.mp h with heq | ⟨q, -, heq⟩ | ⟨q, hq, heq⟩
  · cases heq
  · cases heq
  · obtain ⟨rfl, rfl⟩ := Op.put.inj (congrArg Line.op heq)
    exact ⟨q, hq, rfl, rfl⟩

theorem mem_makeDir {p : PyText}
    (h : (⟨true, .makeDir p⟩ : Line PyText UInt8) ∈ tr.dataOps disk path (.dir l)) :
    p = tr.remotePathOf path.name ∨
      ∃ q, l.Has .dir q ∧ p = remoteDir (tr.remotePathOf path.name) q := by
  rcases mem_dataOps_dir.mp h with heq | ⟨q, hq, heq⟩ | ⟨q, -, heq⟩
  · exact .inl (Op.makeDir.inj (congrArg Line.op heq))
  · exact .inr ⟨q, hq, Op.makeDir.inj (congrArg Line.op heq)⟩
  · cases heq

/-- One place on the server is for one file. -/
theorem agree_dataOps : Agree (tr.dataOps disk path (.dir l)) := by
  intro data data' p h h'
  obtain ⟨q, -, rfl, hp⟩ := mem_put h
  obtain ⟨q', -, rfl, hp'⟩ := mem_put h'
  rw [remoteDir_inj (hp.symm.trans hp')]

/-! ## The trigger -/

/-- No hash is in a name of the tree. -/
def Listing.Unmarked (l : Listing) : Prop :=
  ∀ kind q, l.Has kind q → ∀ n ∈ q, PyChar.scalar '#' ∉ n.text

/-- Every file of the tree stands whole in its place. -/
def Arrived (tr : Transport) (disk : Disk) (path : FilePath) (l : Listing) (t : Tree PyText UInt8) :
    Prop :=
  ∀ q, l.Has .file q → ∃ z, disk.content (rootText path q) = some z ∧
    t (remoteDir (tr.remotePathOf path.name) q) = some (.file z)

theorem hash_not_mem_remoteDir (hbase : PyChar.scalar '#' ∉ base) {q : List Name}
    (hq : ∀ n ∈ q, PyChar.scalar '#' ∉ n.text) : PyChar.scalar '#' ∉ remoteDir base q := by
  rw [remoteDir]
  split
  · exact hbase
  · intro hmem
    rw [List.append_assoc, List.mem_append, List.singleton_append, List.mem_cons] at hmem
    rcases hmem with hmem | hmem | hmem
    · exact hbase hmem
    · cases hmem
    · rcases mem_slashJoin hmem with hmem | ⟨s, hs, hmem⟩
      · cases hmem
      · obtain ⟨n, hn, rfl⟩ := List.mem_map.mp hs
        exact hq n hn hmem

theorem touched_dataOps {line : Line PyText UInt8} {p : PyText}
    (hline : line ∈ tr.dataOps disk path (.dir l)) (hp : p ∈ line.op.touched) :
    p = tr.remotePathOf path.name ∨
      ∃ kind q, l.Has kind q ∧ p = remoteDir (tr.remotePathOf path.name) q := by
  rcases mem_dataOps_dir.mp hline with rfl | ⟨q, hq, rfl⟩ | ⟨q, hq, rfl⟩
  · exact .inl (List.mem_singleton.mp hp)
  · exact .inr ⟨.dir, q, hq, List.mem_singleton.mp hp⟩
  · exact .inr ⟨.file, q, hq, List.mem_singleton.mp hp⟩

/-- The trigger is none of the paths of the data. -/
theorem trigger_not_touched (disk : Disk) (now : WsprNet.DateTime) (hmarked : tr.Unmarked path)
    (hnames : l.Unmarked) :
    ∀ line ∈ tr.openingOps ++ tr.dataOps disk path (.dir l),
      tr.trigger path (.dir l) now ∉ line.op.touched := by
  intro line hline hmem
  have hbase := hash_not_mem_dest hmarked
  rcases List.mem_append.mp hline with hline | hline
  · exact trigger_ne_remote hmarked (mem_touched_openingOps hline hmem)
  · rcases touched_dataOps hline hmem with heq | ⟨kind, q, hq, heq⟩
    · exact hbase (heq ▸ hash_mem_trigger)
    · exact hash_not_mem_remoteDir hbase (hnames kind q hq) (heq ▸ hash_mem_trigger)

/-- A session that goes on has brought every file. -/
theorem arrived_of_goesOn {faults : ℕ → Fault}
    (h : (srv.steps faults 0 (tr.openingOps ++ tr.dataOps disk path (.dir l)) t).2 = true) :
    Arrived tr disk path l
      (srv.steps faults 0 (tr.openingOps ++ tr.dataOps disk path (.dir l)) t).1 := by
  obtain ⟨t₁, i, -, heq | heq⟩ := data_cases tr srv faults
    (tr.dataOps disk path (.dir l)) t
  · rw [heq] at h
    cases h
  · rw [heq] at h ⊢
    intro q hq
    exact Server.steps_delivered mirror_dataOps agree_dataOps h _ _
      (mem_dataOps_dir.mpr (.inr (.inr ⟨q, hq, rfl⟩)))

theorem treeSession_sent (hmarked : tr.Unmarked path) (hnames : l.Unmarked) (faults : ℕ → Fault)
    (t : Tree PyText UInt8) :
    ((srv.session faults (tr.sessionOps disk path (.dir l) now) t).1
        (tr.trigger path (.dir l) now) ≠ t (tr.trigger path (.dir l) now) →
      Arrived tr disk path l (srv.session faults (tr.sessionOps disk path (.dir l) now) t).1) ∧
    ((srv.session faults (tr.sessionOps disk path (.dir l) now) t).2 = true →
      Arrived tr disk path l (srv.session faults (tr.sessionOps disk path (.dir l) now) t).1 ∧
      ((srv.session faults (tr.sessionOps disk path (.dir l) now) t).1
          (tr.trigger path (.dir l) now) ≠ none ∨
        srv.room (srv.session faults (tr.sessionOps disk path (.dir l) now) t).1
          (tr.trigger path (.dir l) now) = false ∨
        ∃ i written, faults i = .refused written)) := by
  obtain ⟨hkept, hnew, hok⟩ := Server.mark_cases srv faults t
    (trigger_not_touched disk now hmarked hnames)
  have harrived : (srv.steps faults 0 (tr.openingOps ++ tr.dataOps disk path (.dir l)) t).2 = true →
      Arrived tr disk path l (srv.session faults (tr.sessionOps disk path (.dir l) now) t).1 := by
    intro hgo q hq
    obtain ⟨z, hz, hstands⟩ := arrived_of_goesOn hgo q hq
    refine ⟨z, hz, (hkept _ fun heq ↦ ?_).trans hstands⟩
    exact hash_not_mem_remoteDir (hash_not_mem_dest hmarked) (hnames .file q hq)
      (heq ▸ hash_mem_trigger)
  exact ⟨fun hne ↦ harrived (hnew hne), fun h ↦ ⟨harrived (hok h).1, (hok h).2⟩⟩

/-! ## A retry that nothing comes between -/

/-- The server has a place for the tree: where the data is to go there is a directory or one can be
made, nothing but directories stand where directories are to be, and none where files are to be. -/
structure TreePlace (tr : Transport) (srv : Server PyText) (path : FilePath) (l : Listing)
    (t : Tree PyText UInt8) : Prop where
  home : tr.remotePath = [] → srv.room t (tr.remotePathOf path.name) = true
  free : tr.remotePath ≠ [] → (t tr.remotePath).all Node.isDir = true
  made : tr.remotePath ≠ [] → (t tr.remotePath).any Node.isDir = true ∨
    srv.room t tr.remotePath = true
  base : (t (tr.remotePathOf path.name)).all Node.isDir = true
  dirs : ∀ q, l.Has .dir q → (t (remoteDir (tr.remotePathOf path.name) q)).all Node.isDir = true
  files : ∀ q, l.Has .file q →
    (t (remoteDir (tr.remotePathOf path.name) q)).any Node.isDir = false

/-- The tree can be read, and no name in it is both a file's and a directory's. -/
structure Sound (disk : Disk) (path : FilePath) (l : Listing) : Prop where
  name : path.parts ≠ []
  read : ∀ q, l.Has .file q → (disk.content (rootText path q)).isSome = true
  apart : ∀ q, l.Has .file q → ¬ l.Has .dir q

theorem Listing.ne_nil_of_has {kind : Kind} {q : List Name} (h : l.Has kind q) : q ≠ [] := by
  induction l generalizing q with
  | nil => cases h
  | file name rest ih =>
    rcases h with ⟨-, rfl⟩ | h
    · exact List.cons_ne_nil _ _
    · exact ih h
  | sub name walked inner rest _ ih =>
    rcases h with ⟨-, rfl⟩ | ⟨-, r, rfl, -⟩ | h
    · exact List.cons_ne_nil _ _
    · exact List.cons_ne_nil _ _
    · exact ih h

theorem remoteDir_nil (base : PyText) : remoteDir base [] = base := if_pos rfl

theorem remoteDir_ne_remote (h : tr.remotePath ≠ []) (q : List Name) :
    remoteDir (tr.remotePathOf path.name) q ≠ tr.remotePath := by
  rw [remoteDir]
  split
  · have hne := under_ne h path.name []
    rw [List.append_nil] at hne
    exact hne
  · rw [List.append_assoc]
    exact under_ne h _ _

theorem orderly_visits (hparent : ∀ dir leaf, dir ≠ [] → PyChar.scalar '/' ∉ leaf →
    srv.parent (dir ++ [.scalar '/'] ++ leaf) = some dir) (hbase : base ≠ [])
    {announced : List Name → Prop} {known : PyText → Prop} {vs : List Visit}
    (hvs : Listing.Announced announced vs) (hknown : ∀ q, announced q → known (remoteDir base q)) :
    Orderly srv known (vs.flatMap (Transport.visitOps disk base path)) := by
  induction vs generalizing announced known with
  | nil => trivial
  | cons v vs ih =>
    have hdir : remoteDir base v.rel ≠ [] := by
      rw [remoteDir]
      split
      · exact hbase
      · rw [List.append_assoc]
        exact fun hnil ↦ hbase (List.append_eq_nil_iff.mp hnil).1
    have hup : ∀ n : Name,
        srv.parent (remoteDir base (v.rel ++ [n])) = some (remoteDir base v.rel) := by
      intro n
      rw [← remoteDir_concat]
      exact hparent _ _ hdir n.noSlash
    rw [List.flatMap_cons]
    refine (orderly_of_forall fun line hline p hp q hq ↦ ?_).append (ih hvs.2 fun q hq ↦ ?_)
    · have hrel : q = remoteDir base v.rel := by
        rcases mem_visitOps.mp hline with ⟨n, -, rfl⟩ | ⟨n, -, rfl⟩
        · rw [List.mem_singleton.mp hp, hup] at hq
          exact (Option.some.inj hq).symm
        · rw [List.mem_singleton.mp hp, hup] at hq
          exact (Option.some.inj hq).symm
      rw [hrel]
      exact hknown _ hvs.1
    · rcases hq with hq | ⟨d, hd, rfl⟩
      · exact .inl (hknown q hq)
      · exact .inr ⟨_, mem_visitOps.mpr (.inl ⟨d, hd, rfl⟩), rfl⟩

/-- A line makes a directory or writes a file of the tree. -/
theorem touched_sessionOps {line : Line PyText UInt8} {p : PyText}
    (hline : line ∈ tr.sessionOps disk path (.dir l) now) (hp : p ∈ line.op.touched) :
    line.op = .makeDir p ∨
      ∃ q, l.Has .file q ∧ p = remoteDir (tr.remotePathOf path.name) q := by
  have hmakes : ∀ q, line = ⟨true, .makeDir q⟩ → line.op = .makeDir p := by
    rintro q rfl
    rw [List.mem_singleton.mp hp]
  rcases List.mem_append.mp hline with hline | hline
  · rcases List.mem_append.mp hline with hline | hline
    · exact .inl (hmakes _ (openingOps_makeDir hline).2)
    · rcases mem_dataOps_dir.mp hline with h | ⟨q, -, h⟩ | ⟨q, hq, rfl⟩
      · exact .inl (hmakes _ h)
      · exact .inl (hmakes _ h)
      · exact .inr ⟨q, hq, List.mem_singleton.mp hp⟩
  · exact .inl (hmakes _ (List.mem_singleton.mp hline))

/-- No line makes a directory where a file is to be. -/
theorem makeDir_ne_file (hmarked : tr.Unmarked path) (hnames : l.Unmarked)
    (hapart : ∀ q, l.Has .file q → ¬ l.Has .dir q) {q : List Name} (hq : l.Has .file q)
    {line : Line PyText UInt8}
    (hline : line ∈ tr.sessionOps disk path (.dir l) now) :
    line.op ≠ .makeDir (remoteDir (tr.remotePathOf path.name) q) := by
  intro heq
  rcases List.mem_append.mp hline with hline | hline
  · rcases List.mem_append.mp hline with hline | hline
    · obtain ⟨hne, rfl⟩ := openingOps_makeDir hline
      exact remoteDir_ne_remote hne q (Op.makeDir.inj heq).symm
    · rcases mem_dataOps_dir.mp hline with rfl | ⟨q', hq', rfl⟩ | ⟨q', -, rfl⟩
      · have hnil : q = [] := remoteDir_inj ((Op.makeDir.inj heq).symm.trans (remoteDir_nil _).symm)
        exact Listing.ne_nil_of_has hq hnil
      · rw [remoteDir_inj (Op.makeDir.inj heq)] at hq'
        exact hapart q hq hq'
      · cases heq
  · rw [List.mem_singleton.mp hline] at heq
    refine hash_not_mem_remoteDir (hash_not_mem_dest hmarked) (hnames .file q hq) ?_
    rw [← Op.makeDir.inj heq]
    exact hash_mem_trigger

/-- No attempt takes the tree's place. -/
theorem TreePlace.kept (hmarked : tr.Unmarked path) (hnames : l.Unmarked)
    (hsound : Sound disk path l) (h : TreePlace tr srv path l t) (faults : ℕ → Fault) :
    TreePlace tr srv path l
      (srv.session faults (tr.sessionOps disk path (.dir l) now) t).1 := by
  have hroom : ∀ q, (t q).any Node.isDir = true →
      ((srv.session faults (tr.sessionOps disk path (.dir l) now) t).1 q).any Node.isDir = true :=
    fun q hq ↦ Server.steps_isDir hq
  -- a place where no file is to be is only ever made a directory
  have hfree : ∀ p, (∀ q, l.Has .file q → p ≠ remoteDir (tr.remotePathOf path.name) q) →
      (t p).all Node.isDir = true →
      ((srv.session faults (tr.sessionOps disk path (.dir l) now) t).1 p).all Node.isDir = true := by
    refine fun p hp hdir ↦ Server.steps_isDir_or_none (fun line hline hmem ↦ ?_) hdir
    rcases touched_sessionOps hline hmem with h | ⟨q, hq, heq⟩
    · exact h
    · exact absurd heq (hp q hq)
  constructor
  · exact fun hnil ↦ Server.room_mono hroom (h.home hnil)
  · exact fun hne ↦ hfree _ (fun q _ ↦ (remoteDir_ne_remote hne q).symm) (h.free hne)
  · exact fun hne ↦ (h.made hne).imp (hroom _) (Server.room_mono hroom)
  · refine hfree _ (fun q hq heq ↦ ?_) h.base
    exact Listing.ne_nil_of_has hq (remoteDir_inj (heq.symm.trans (remoteDir_nil _).symm))
  · intro q hq
    refine hfree _ (fun q' hq' heq ↦ ?_) (h.dirs q hq)
    rw [← remoteDir_inj heq] at hq'
    exact hsound.apart q hq' hq
  · exact fun q hq ↦ Server.steps_not_isDir
      (fun line hline ↦ makeDir_ne_file hmarked hnames hsound.apart hq hline) (h.files q hq)

/-- The tree has a place for the lines of a directory's session. -/
theorem fitting_tree (hmarked : tr.Unmarked path) (hnames : l.Unmarked)
    (hapart : ∀ q, l.Has .file q → ¬ l.Has .dir q)
    (hclear : ∀ q, l.Has .file q →
      (t (remoteDir (tr.remotePathOf path.name) q)).any Node.isDir = false)
    (now : WsprNet.DateTime) : Fitting (tr.sessionOps disk path (.dir l) now) t := by
  have hfiles : ∀ line ∈ tr.sessionOps disk path (.dir l) now, ∀ p ∈ line.op.files,
      ∃ q, l.Has .file q ∧ p = remoteDir (tr.remotePathOf path.name) q := by
    intro line hline p hp
    rcases touched_sessionOps hline (Op.touched_of_files hp) with hdir | hfile
    · rw [hdir] at hp
      cases hp
    · exact hfile
  constructor
  · intro line hline p hp
    obtain ⟨q, hq, rfl⟩ := hfiles line hline p hp
    exact hclear q hq
  · intro line hline p hp line' hline'
    obtain ⟨q, hq, rfl⟩ := hfiles line hline p hp
    exact makeDir_ne_file hmarked hnames hapart hq hline'

/-- A session that nothing comes between brings the tree. -/
theorem treeSession_quiet (now : WsprNet.DateTime)
    (hparent : ∀ dir leaf, dir ≠ [] → PyChar.scalar '/' ∉ leaf →
    srv.parent (dir ++ [.scalar '/'] ++ leaf) = some dir) (hsound : Sound disk path l)
    (h : TreePlace tr srv path l t) :
    (srv.session Server.quiet (tr.sessionOps disk path (.dir l) now) t).2 = true ∧
      ∀ q, l.Has .dir q → ((srv.session Server.quiet (tr.sessionOps disk path (.dir l) now) t).1
        (remoteDir (tr.remotePathOf path.name) q)).any Node.isDir = true := by
  obtain ⟨hgo, hremote⟩ := openingOps_quiet h.free h.made
  generalize hfirst : srv.steps Server.quiet 0 tr.openingOps t = r at hgo hremote
  have hkept : ∀ p, (tr.remotePath ≠ [] → p ≠ tr.remotePath) → r.1 p = t p := by
    intro p hp
    rw [← hfirst]
    exact openingOps_frame hp
  have hname : path.name ≠ [] ∧ PyChar.scalar '/' ∉ path.name := by
    obtain ⟨last, hlast⟩ := Option.ne_none_iff_exists'.mp
      (mt List.getLast?_eq_none_iff.mp hsound.name)
    have hwf := path.wellFormed last (List.mem_of_getLast? hlast)
    rw [FilePath.name, List.getLastD_eq_getLast?, hlast]
    exact ⟨hwf.1, hwf.2.1⟩
  have hbase : tr.remotePathOf path.name ≠ [] := by
    rw [Transport.remotePathOf, under]
    split
    · exact fun hnil ↦ hname.1 (List.append_eq_nil_iff.mp hnil).2
    · exact hname.1
  have hroom : srv.room r.1 (tr.remotePathOf path.name) = true := by
    by_cases hnil : tr.remotePath = []
    · have hsame : r.1 = t := by
        rw [← hfirst, Transport.openingOps, if_neg (not_not_intro hnil)]
        rfl
      rw [hsame]
      exact h.home hnil
    · have hup : srv.parent (tr.remotePathOf path.name) = some tr.remotePath := by
        rw [Transport.remotePathOf, under, if_pos hnil]
        exact hparent _ _ hnil hname.2
      rw [Server.room, hup]
      exact hremote hnil
  have horder : Orderly srv (fun q ↦ (r.1 q).any Node.isDir = true)
      (tr.dataOps disk path (.dir l)) := by
    refine ⟨fun p hp q hq ↦ ?_, orderly_visits hparent hbase
      (Listing.walk_announced (fun q ↦ q = []) rfl) fun q hq ↦ .inr ?_⟩
    · rw [List.mem_singleton.mp hp] at hq
      rw [Server.room, Option.all_eq_true] at hroom
      exact hroom q hq
    · rw [hq, remoteDir_nil]
  have hplace : ∀ q, r.1 (remoteDir (tr.remotePathOf path.name) q) =
      t (remoteDir (tr.remotePathOf path.name) q) :=
    fun q ↦ hkept _ fun hne ↦ remoteDir_ne_remote hne q
  have hfits : Server.Fits (tr.dataOps disk path (.dir l)) r.1 := by
    constructor
    · intro p hp
      rcases mem_makeDir hp with rfl | ⟨q, hq, rfl⟩
      · rw [← remoteDir_nil (tr.remotePathOf path.name), hplace, remoteDir_nil]
        exact h.base
      · rw [hplace]
        exact h.dirs q hq
    · intro data p hp
      obtain ⟨q, hq, -, rfl⟩ := mem_put hp
      rw [hplace]
      exact h.files q hq
    · intro data p hp
      obtain ⟨q, hq, rfl, -⟩ := mem_put hp
      exact hsound.read q hq
    · intro data p hp hdir
      obtain ⟨q, hq, -, rfl⟩ := mem_put hp
      rcases mem_makeDir hdir with heq | ⟨q', hq', heq⟩
      · exact Listing.ne_nil_of_has hq (remoteDir_inj (heq.trans (remoteDir_nil _).symm))
      · rw [← remoteDir_inj heq] at hq'
        exact hsound.apart q hq hq'
  have hdata := fun i ↦ Server.mirror_quiet (i := i) mirror_dataOps horder (fun q hq ↦ hq) hfits
  have hall : (srv.steps Server.quiet 0 (tr.sessionOps disk path (.dir l) now) t) =
      srv.steps Server.quiet (0 + tr.openingOps.length + (tr.dataOps disk path (.dir l)).length)
        [⟨true, .makeDir (tr.trigger path (.dir l) now)⟩]
        (srv.steps Server.quiet (0 + tr.openingOps.length) (tr.dataOps disk path (.dir l)) r.1).1 := by
    rw [Transport.sessionOps, List.append_assoc,
      Server.steps_append_of_goes (by rw [hfirst]; exact hgo), hfirst,
      Server.steps_append_of_goes (hdata _).1]
  refine ⟨Server.session_quiet ?_, fun q hq ↦ ?_⟩
  · rw [hall]
    exact Server.makeDir_quiet
  · rw [Server.session_fst, hall]
    exact Server.steps_isDir ((hdata _).2 _ (mem_dataOps_dir.mpr (.inr (.inl ⟨q, hq, rfl⟩))))

/-- **A retry that nothing comes between brings the tree**, whatever the attempts before it have
left. -/
theorem tree_gets_through {replaces : Bool} {as : List (Identity × Attempt)} {att : Attempt}
    (hstands : disk.stands path = some (.dir l)) (hmarked : tr.Unmarked path)
    (hnames : l.Unmarked) (hsound : Sound disk path l) (hdry : tr.dryRun = false)
    (huser : tr.sftpUser identity ≠ none)
    (hencodes : PyText.Encodable (joined (tr.batchLines path (.dir l) att.now ++
      [.ofString "quit"])))
    (hsend : ∀ a ∈ as, tr.Sendable disk path (.dir l) a.2.now)
    (hdoc : ∀ a ∈ as, ∀ command, Documented False replaces disk.content (a.2.program command))
    (hlast : tr.Sendable disk path (.dir l) att.now)
    (hquiet : ∀ command, Documented True replaces disk.content (att.program command))
    (hplace : TreePlace tr (textServer replaces) path l t) :
    ∃ t', tr.uploadOne disk identity path att (tr.attempts disk path as t) =
        .ok (t', { kind := .acked }) ∧
      Arrived tr disk path l t' ∧
      (∀ q, l.Has .dir q →
        (t' (remoteDir (tr.remotePathOf path.name) q)).any Node.isDir = true) ∧
      ((textServer replaces).room t' (tr.trigger path (.dir l) att.now) = true →
        t' (tr.trigger path (.dir l) att.now) ≠ none) := by
  have hplace' : TreePlace tr (textServer replaces) path l (tr.attempts disk path as t) :=
    attempts_rule hstands hsend hdoc
      (fun a _ t₁ ht ↦ fitting_tree hmarked hnames hsound.apart ht.files a.2.now)
      (fun _ _ faults _ ht ↦ ht.kept hmarked hnames hsound faults) hplace
  obtain ⟨c, hc, hserver⟩ := exists_onServer identity hstands hlast hquiet
    (fitting_tree hmarked hnames hsound.apart hplace'.files att.now)
  have hcquiet := hc trivial
  obtain ⟨hok, hdirs⟩ := treeSession_quiet att.now
    (fun dir leaf _ hleaf ↦ parent_textServer replaces dir hleaf) hsound hplace'
  rw [← hcquiet.1] at hok hdirs
  have hup := uploadOne_acked hstands hlast.legible hdry huser hencodes hcquiet.2 hok
  obtain ⟨-, hdone⟩ := treeSession_sent hmarked hnames
    c.faults (tr.attempts disk path as t)
  obtain ⟨harrived, htrigger⟩ := hdone hok
  refine ⟨_, hserver.trans hup, harrived, hdirs, fun hroom ↦ ?_⟩
  rcases htrigger with h | h | ⟨i, w, h⟩
  · exact h
  · rw [h] at hroom
    cases hroom
  · rw [hcquiet.1] at h
    cases h

/-- A station with a Grape. -/
def grape : Transport where
  instrumentId := .ofString "9"
  table := "grape.dataset"

/-- Its dataset of a day. -/
def grapeDay : FilePath where
  absolute := true
  parts := [.ofString "q", .ofString "OBS"]
  wellFormed := by decide

/-- The tree of the dataset: a file `y`, and a directory `d` with a file `x`. -/
def grapeTree : Listing :=
  .file ⟨.ofString "y", by decide, by decide⟩
    (.sub ⟨.ofString "d", by decide, by decide⟩ true
      (.file ⟨.ofString "x", by decide, by decide⟩ .nil) .nil)

/-- A disk with the dataset. -/
def grapeDisk : Disk where
  stands _ := some (.dir grapeTree)
  content _ := some [1, 2]

theorem grapeDisk_stands : grapeDisk.stands grapeDay = some (.dir grapeTree) := rfl

theorem grape_legible : grape.Legible grapeDay (.dir grapeTree) where
  remote := ⟨by decide, by decide⟩
  source := ⟨by decide, by decide⟩
  dest := ⟨by decide, by decide⟩
  triggerDir := ⟨by decide, by decide⟩
  triggerName := ⟨by decide, by decide⟩
  tree l h := by
    cases h
    decide +kernel

theorem grape_unmarked : grape.Unmarked grapeDay := ⟨by decide, by decide⟩

/-- What stands in the tree. -/
theorem grapeTree_has {kind : Kind} {q : List Name} (h : grapeTree.Has kind q) :
    (kind = .file ∧ (q = [⟨.ofString "y", by decide, by decide⟩] ∨
      q = [⟨.ofString "d", by decide, by decide⟩, ⟨.ofString "x", by decide, by decide⟩])) ∨
    (kind = .dir ∧ q = [⟨.ofString "d", by decide, by decide⟩]) := by
  rcases h with ⟨hk, hq⟩ | ⟨hk, hq⟩ | ⟨-, q', rfl, ⟨hk, rfl⟩ | h⟩ | h
  · exact .inl ⟨hk, .inl hq⟩
  · exact .inr ⟨hk, hq⟩
  · exact .inl ⟨hk, .inr rfl⟩
  · cases h
  · cases h

theorem grapeTree_unmarked : grapeTree.Unmarked := by
  intro kind q h
  rcases grapeTree_has h with ⟨-, rfl | rfl⟩ | ⟨-, rfl⟩ <;> decide

theorem grapeTree_sound : Sound grapeDisk grapeDay grapeTree where
  name := by decide
  read _ _ := rfl
  apart q hfile hdir := by
    rcases grapeTree_has hfile with ⟨-, hq⟩ | ⟨hk, -⟩
    · rcases grapeTree_has hdir with ⟨hk, -⟩ | ⟨-, rfl⟩
      · cases hk
      · rcases hq with hq | hq <;> exact absurd hq (by decide)
    · cases hk

theorem grape_place : TreePlace grape (textServer false) grapeDay grapeTree fun _ ↦ none where
  home _ := by decide
  free _ := rfl
  made h := absurd rfl h
  base := rfl
  dirs _ _ := rfl
  files _ _ := rfl

/-- The batch for the dataset at a minute of a day. -/
def grapeBatch (minute : ℕ) : String :=
  "-mkdir \"OBS\"\n-mkdir \"OBS/d\"\n" ++
    "put \"/q/OBS/y\" \"OBS/y\"\nput \"/q/OBS/d/x\" \"OBS/d/x\"\n" ++
    "-mkdir \"cOBS_#9_#2026-05-13T03-" ++ toString minute ++ "\"\nquit\n"

theorem joined_grapeBatch : ∀ minute ∈ [10, 20],
    joined (grape.batchLines grapeDay (.dir grapeTree) ⟨2026, 5, 13, 3, minute⟩ ++
      [.ofString "quit"]) = .ofString (grapeBatch minute) := by decide +kernel

theorem grape_sendable {minute : ℕ} (h : minute ∈ [10, 20]) :
    grape.Sendable grapeDisk grapeDay (.dir grapeTree) ⟨2026, 5, 13, 3, minute⟩ where
  legible := grape_legible
  whole batch hbatch := by
    have hall : ∀ minute ∈ [10, 20], 0 ∉ (grapeBatch minute).toByteArray.data.toList ∧
        (grapeBatch minute).toByteArray.data.toList.length < 2047 := by decide
    rw [joined_grapeBatch minute h, PyText.encode_ofString] at hbatch
    obtain rfl := Except.ok.inj hbatch
    exact whole_of_length (hall minute h).1 (hall minute h).2
  tidy := by
    have hall : ∀ minute ∈ [10, 20], ∀ l ∈ grape.sessionOps grapeDisk grapeDay (.dir grapeTree)
        ⟨2026, 5, 13, 3, minute⟩, ∀ p ∈ l.op.touched, Tidy p := by decide +kernel
    exact hall minute h

/-- An attempt that loses its connection. -/
def lostTree : Identity × Attempt :=
  ({ stationId := .ofString "S000082" },
    onServer (textServer false) grapeDisk ⟨2026, 5, 13, 3, 10⟩ lostCall)

/-- An attempt ten minutes later that nothing comes between. -/
def quietTree : Identity × Attempt :=
  ({ stationId := .ofString "S000082" },
    onServer (textServer false) grapeDisk ⟨2026, 5, 13, 3, 20⟩ quietCall)

theorem lostTree_documented (command : List PyText) :
    Documented False false grapeDisk.content (lostTree.2.program command) :=
  documented_play lostCall False.elim false grapeDisk.content

theorem quietTree_documented (undisturbed : Prop) (command : List PyText) :
    Documented undisturbed false grapeDisk.content (quietTree.2.program command) :=
  documented_play quietCall (fun _ ↦ ⟨rfl, rfl⟩) false grapeDisk.content

theorem lostTree_sendable :
    grape.Sendable grapeDisk grapeDay (.dir grapeTree) lostTree.2.now :=
  grape_sendable (by decide)

theorem quietTree_sendable :
    grape.Sendable grapeDisk grapeDay (.dir grapeTree) quietTree.2.now :=
  grape_sendable (by decide)

theorem grape_encodes : PyText.Encodable (joined
    (grape.batchLines grapeDay (.dir grapeTree) quietTree.2.now ++ [.ofString "quit"])) := by
  have hnow : quietTree.2.now = ⟨2026, 5, 13, 3, 20⟩ := rfl
  rw [hnow, joined_grapeBatch 20 (by decide)]
  exact ⟨_, PyText.encode_ofString _⟩

theorem grape_user : grape.sftpUser quietTree.1 ≠ none := by decide

theorem grape_dry : grape.dryRun = false := rfl

theorem tree_gets_through_lost :
    ∃ t', grape.uploadOne grapeDisk quietTree.1 grapeDay quietTree.2
        (grape.attempts grapeDisk grapeDay [lostTree] fun _ ↦ none) =
        .ok (t', { kind := .acked }) ∧ Arrived grape grapeDisk grapeDay grapeTree t' := by
  have hsend : ∀ a ∈ [lostTree], grape.Sendable grapeDisk grapeDay (.dir grapeTree) a.2.now :=
    List.forall_mem_singleton.mpr lostTree_sendable
  have hdoc : ∀ a ∈ [lostTree], ∀ command,
      Documented False false grapeDisk.content (a.2.program command) :=
    List.forall_mem_singleton.mpr lostTree_documented
  obtain ⟨t', hup, harrived, -⟩ := tree_gets_through grapeDisk_stands grape_unmarked
    grapeTree_unmarked grapeTree_sound grape_dry grape_user grape_encodes hsend hdoc
    quietTree_sendable (quietTree_documented True) grape_place
  exact ⟨t', hup, harrived⟩

/-- **The trigger comes after every file**: one that an upload makes stands beside the whole tree,
and an upload that is reported done has brought the tree. -/
theorem trigger_after_tree {replaces : Bool} {att : Attempt}
    (hstands : disk.stands path = some (.dir l)) (hmarked : tr.Unmarked path)
    (hnames : l.Unmarked) (hapart : ∀ q, l.Has .file q → ¬ l.Has .dir q)
    (hdry : tr.dryRun = false) (hsend : tr.Sendable disk path (.dir l) att.now)
    (hdoc : ∀ command, Documented False replaces disk.content (att.program command))
    (hclear : ∀ q, l.Has .file q →
      (t (remoteDir (tr.remotePathOf path.name) q)).any Node.isDir = false)
    (h : tr.uploadOne disk identity path att t = .ok (t', answer)) :
    (t' (tr.trigger path (.dir l) att.now) ≠ t (tr.trigger path (.dir l) att.now) →
      Arrived tr disk path l t') ∧
    (answer.kind = .acked → Arrived tr disk path l t') := by
  obtain ⟨c, -, hserver⟩ := exists_onServer identity hstands hsend hdoc
    (fitting_tree hmarked hnames hapart hclear att.now)
  rw [hserver] at h
  rcases uploadOne_cases hstands hsend.legible h with ⟨rfl, hacked⟩ | ⟨rfl, hacked⟩
  · refine ⟨fun hne ↦ absurd rfl hne, fun hk ↦ ?_⟩
    rw [hacked hk] at hdry
    cases hdry
  · obtain ⟨hnew, hdone⟩ := treeSession_sent hmarked hnames
      c.faults t
    exact ⟨hnew, fun hk ↦ (hdone (hacked hk)).1⟩

theorem trigger_after_tree_quiet :
    ∃ t', grape.uploadOne grapeDisk quietTree.1 grapeDay quietTree.2 (fun _ ↦ none) =
        .ok (t', { kind := .acked }) ∧ Arrived grape grapeDisk grapeDay grapeTree t' := by
  have hok := (treeSession_quiet quietTree.2.now
    (fun dir leaf _ hleaf ↦ parent_textServer false dir hleaf) grapeTree_sound grape_place).1
  have hup := uploadOne_acked (c := quietCall) grapeDisk_stands grape_legible grape_dry grape_user
    grape_encodes rfl hok
  exact ⟨_, hup, (trigger_after_tree grapeDisk_stands grape_unmarked grapeTree_unmarked
    grapeTree_sound.apart grape_dry quietTree_sendable (quietTree_documented False)
    grape_place.files hup).2 rfl⟩

end HsUploader.Psws
