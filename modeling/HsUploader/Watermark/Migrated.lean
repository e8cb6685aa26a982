import HsUploader.Watermark.Schema

/-!
# What a migration comes to

`Comes o p s r` says that the program `p`, run on the file `s`, comes to `r` unless one of its
statements fails from outside; what it comes to is given without statements.  The migrations and the
fill come to the records with every missing producer key filled in (`fillRecords`), each pair noted
in `superseded_keys`.

## What is here

* `Comes` — a program comes to a state and a report unless a statement fails, and its rules for a
  statement that reads and one that writes.
* `fillRecords` — the records with the missing keys of some pairs filled in.  A record that stands
  is never written over (`lookup_fillRecords_of_some`), and nothing is filled in twice.
* `splitStep` and `fillStep` — the two loops that fill keys in: the split of version 3, and the fill
  that every call of `migrate` makes.  They differ in what they note and in the lines they report.
* `upgrade` — what all migrations above a file's version come to, with their lines.
-/

set_option autoImplicit false

namespace HsUploader

namespace Schema

open Prog (wp)

variable {π α β : Type}

/-! ## Programs over a connection -/

/-- The program comes to this, unless a statement of it fails from outside. -/
def Comes (o : Surroundings) (p : Sql π α) (s : StoreFile π) (r : Except Exn (α × StoreFile π)) :
    Prop :=
  ∀ n, wp p (fun a c ↦ r = .ok (a, c.file))
    (fun e _ ↦ (∃ n, o.fails n = some e) ∨ r = .error e) (fun _ ↦ False) ⟨s, n⟩

namespace Comes

variable {o : Surroundings} {p : Sql π α} {f : α → Sql π β} {s s' : StoreFile π} {a : α} {e : Exn}
  {r : Except Exn (β × StoreFile π)}

theorem pure (a : α) (s : StoreFile π) : Comes o (Pure.pure a) s (.ok (a, s)) := fun _ ↦ rfl

theorem bind (hp : Comes o p s (.ok (a, s'))) (hf : Comes o (f a) s' r) :
    Comes o (p >>= f) s r := fun n ↦ by
  rw [Prog.wp_bind]
  refine Prog.wp_mono (hp n) (fun b c hb ↦ ?_) (fun e _ he ↦ ?_) fun _ h ↦ h
  · cases hb
    exact hf c.statements
  · exact .inl (he.resolve_right nofun)

theorem bind_error (hp : Comes o p s (.error e)) : Comes o (p >>= f) s (.error e) := fun n ↦ by
  rw [Prog.wp_bind]
  refine Prog.wp_mono (hp n) (fun b c hb ↦ nomatch hb) (fun e' _ he ↦ ?_) fun _ h ↦ h
  exact he.imp_right fun h ↦ by
    cases h
    rfl

theorem ofExcept (x : Except Exn α) (s : StoreFile π) :
    Comes o (Prog.ofExcept x) s (x.map (·, s)) := fun n ↦ by
  rw [Prog.wp_ofExcept]
  cases x with
  | ok a => exact rfl
  | error e => exact .inr rfl

theorem execute (f : StoreFile π → Except Exn (α × StoreFile π)) (s : StoreFile π) :
    Comes o (execute o f) s (f s) := fun n ↦ by
  rw [Prog.wp, Schema.execute]
  cases hfails : o.fails n with
  | some e => exact .inl ⟨n, hfails⟩
  | none =>
    cases hf : f s with
    | error e => exact .inr rfl
    | ok r => exact rfl

theorem select (f : StoreFile π → Except Exn α) (s : StoreFile π) :
    Comes o (select o f) s ((f s).map (·, s)) := execute _ s

theorem write (f : StoreFile π → Except Exn (StoreFile π)) (s : StoreFile π) :
    Comes o (write o f) s ((f s).map ((), ·)) := execute _ s

/-- A statement that writes, before others. -/
theorem write_bind {f : StoreFile π → Except Exn (StoreFile π)} {g : Unit → Sql π β}
    (hf : f s = .ok s') (hg : Comes o (g ()) s' r) : Comes o (Schema.write o f >>= g) s r := by
  have hw := write (o := o) f s
  rw [hf] at hw
  exact hw.bind hg

/-- A statement that reads, before others. -/
theorem select_bind {f : StoreFile π → Except Exn α} {g : α → Sql π β} (hf : f s = .ok a)
    (hg : Comes o (g a) s r) : Comes o (Schema.select o f >>= g) s r := by
  have hs := select (o := o) f s
  rw [hf] at hs
  exact hs.bind hg

theorem select_bind_error {f : StoreFile π → Except Exn α} {g : α → Sql π β} (hf : f s = .error e) :
    Comes o (Schema.select o f >>= g) s (.error e) := by
  have hs := select (o := o) f s
  rw [hf] at hs
  exact hs.bind_error

end Comes

/-! ## Filling records in -/

/-- The record of a pair, where its key holds none. -/
def addMissing (records : List (SendKey × SendRecord)) (p : Pair) : List (SendKey × SendRecord) :=
  if (Table.lookup p.new records).isSome then records else records ++ [(p.new, p.record)]

/-- The records with those of the pairs filled in. -/
def fillRecords (ps : List Pair) (records : List (SendKey × SendRecord)) :
    List (SendKey × SendRecord) :=
  ps.foldl addMissing records

section records

variable {records : List (SendKey × SendRecord)} {p : Pair} {ps : List Pair} {k : SendKey}
  {r : SendRecord}

theorem prefix_addMissing : records <+: addMissing records p := by
  rw [addMissing]
  split
  · exact List.prefix_rfl
  · exact List.prefix_append _ _

theorem prefix_fillRecords (ps : List Pair) (records : List (SendKey × SendRecord)) :
    records <+: fillRecords ps records := by
  induction ps generalizing records with
  | nil => exact List.prefix_rfl
  | cons p ps ih => exact prefix_addMissing.trans (ih _)

theorem lookup_addMissing (k : SendKey) : Table.lookup k (addMissing records p) =
    if p.new = k ∧ Table.lookup k records = none then some p.record
    else Table.lookup k records := by
  rw [addMissing]
  split
  · rename_i hsome
    rw [if_neg]
    rintro ⟨rfl, hnone⟩
    rw [hnone] at hsome
    cases hsome
  · rename_i hnone
    rw [Option.not_isSome_iff_eq_none] at hnone
    rw [Table.lookup_append_of_none hnone]
    by_cases hk : p.new = k
    · subst hk
      rw [if_pos rfl, if_pos ⟨rfl, hnone⟩]
    · rw [if_neg hk, if_neg fun h ↦ hk h.1]

/-- A record that stands keeps standing. -/
theorem lookup_fillRecords_of_some (h : Table.lookup k records = some r) :
    Table.lookup k (fillRecords ps records) = some r := by
  induction ps generalizing records with
  | nil => exact h
  | cons p ps ih =>
    refine ih ?_
    rw [lookup_addMissing, h, if_neg fun h ↦ nomatch h.2]

/-- The key of a pair that held no record holds the pair's. -/
theorem lookup_fillRecords_of_none (hp : p ∈ ps) (hnodup : (ps.map Pair.new).Nodup)
    (h : Table.lookup p.new records = none) :
    Table.lookup p.new (fillRecords ps records) = some p.record := by
  induction ps generalizing records with
  | nil => cases hp
  | cons q ps ih =>
    rw [List.map_cons, List.nodup_cons] at hnodup
    rcases List.mem_cons.mp hp with rfl | hp
    · have hnow : Table.lookup p.new (addMissing records p) = some p.record := by
        rw [lookup_addMissing, if_pos ⟨rfl, h⟩]
      rw [fillRecords, List.foldl_cons]
      exact lookup_fillRecords_of_some hnow
    · refine ih hp hnodup.2 ?_
      rw [lookup_addMissing, if_neg, h]
      rintro ⟨hq, -⟩
      exact hnodup.1 (hq ▸ List.mem_map_of_mem hp)

theorem isSome_fillRecords (hp : p ∈ ps) :
    (Table.lookup p.new (fillRecords ps records)).isSome := by
  induction ps generalizing records with
  | nil => cases hp
  | cons q ps ih =>
    rcases List.mem_cons.mp hp with rfl | hp
    · have hsome : (Table.lookup p.new (addMissing records p)).isSome := by
        rw [lookup_addMissing]
        cases h : Table.lookup p.new records with
        | none =>
          rw [if_pos ⟨rfl, rfl⟩]
          rfl
        | some r =>
          rw [if_neg fun h ↦ nomatch h.2]
          rfl
      obtain ⟨r, hr⟩ := Option.isSome_iff_exists.mp hsome
      rw [fillRecords, List.foldl_cons, ← fillRecords, lookup_fillRecords_of_some hr]
      rfl
    · exact ih hp

/-- Nothing is filled in where every key holds a record. -/
theorem fillRecords_of_isSome (h : ∀ p ∈ ps, (Table.lookup p.new records).isSome) :
    fillRecords ps records = records := by
  induction ps with
  | nil => rfl
  | cons p ps ih =>
    rw [fillRecords, List.foldl_cons, addMissing, if_pos (h p List.mem_cons_self)]
    exact ih fun q hq ↦ h q (List.mem_cons_of_mem p hq)

theorem mem_fillRecords {x : SendKey × SendRecord} (h : x ∈ fillRecords ps records) :
    x ∈ records ∨ ∃ p ∈ ps, x = (p.new, p.record) := by
  induction ps generalizing records with
  | nil => exact .inl h
  | cons p ps ih =>
    rcases ih h with hx | ⟨q, hq, rfl⟩
    · rw [addMissing] at hx
      split at hx
      · exact .inl hx
      · rcases List.mem_append.mp hx with hx | hx
        · exact .inl hx
        · exact .inr ⟨p, List.mem_cons_self, List.mem_singleton.mp hx⟩
    · exact .inr ⟨q, List.mem_cons_of_mem p hq, rfl⟩

theorem nodup_fillRecords (h : (records.map Prod.fst).Nodup) :
    ((fillRecords ps records).map Prod.fst).Nodup := by
  induction ps generalizing records with
  | nil => exact h
  | cons p ps ih =>
    refine ih ?_
    rw [addMissing]
    split
    · exact h
    · rename_i hnone
      rw [List.map_append, List.nodup_append]
      refine ⟨h, List.nodup_singleton _, ?_⟩
      rintro k hk k' hk' rfl
      rw [List.map_singleton, List.mem_singleton] at hk'
      subst hk'
      obtain ⟨⟨_, r⟩, hr, rfl⟩ := List.mem_map.mp hk
      exact hnone (Table.isSome_lookup.mpr (List.mem_map_of_mem hr))

/-- What is filled in has none of the sources that are asked for. -/
theorem filter_fillRecords {q : SendKey × SendRecord → Bool}
    (h : ∀ p ∈ ps, q (p.new, p.record) = false) :
    (fillRecords ps records).filter q = records.filter q := by
  induction ps generalizing records with
  | nil => rfl
  | cons p ps ih =>
    rw [fillRecords, List.foldl_cons, ← fillRecords,
      ih fun q hq ↦ h q (List.mem_cons_of_mem p hq), addMissing]
    split
    · rfl
    · rw [List.filter_append, List.filter_singleton, h p List.mem_cons_self]
      exact List.append_nil _

end records

/-! ## The pairs of a file -/

theorem mem_oldRecords {s : StoreFile π} {x : SendKey × SendRecord} :
    x ∈ oldRecords s ↔
      x ∈ s.watermarks ∧ x.1.sourceId = oldPskSource ∧ likePskreporter x.1.destId = true := by
  rw [oldRecords, List.mem_insertionSort, List.mem_filter, Bool.and_eq_true, decide_eq_true_iff]

theorem mem_pairs {olds : List (SendKey × SendRecord)} {p : Pair} :
    p ∈ pairs olds ↔
      ∃ x ∈ olds, ∃ src ∈ newSources, p = ⟨x.1, { x.1 with sourceId := src }, x.2⟩ := by
  simp only [pairs, List.mem_flatMap, List.mem_map, eq_comm]

theorem ne_oldPskSource {src : String} (h : src ∈ newSources) : src ≠ oldPskSource := by
  revert src
  decide

/-- The producers' keys are all different. -/
theorem nodup_pairs {s : StoreFile π} (h : (s.watermarks.map Prod.fst).Nodup) :
    ((pairs (oldRecords s)).map Pair.new).Nodup := by
  have hmap : (pairs (oldRecords s)).map Pair.new =
      (oldRecords s).flatMap fun x ↦ newSources.map fun src ↦ { x.1 with sourceId := src } := by
    simp only [pairs, List.map_flatMap, List.map_map]
    rfl
  have hperm : ((oldRecords s).map Prod.fst).Nodup := by
    rw [oldRecords, List.Perm.nodup_iff ((List.perm_insertionSort keyLe _).map Prod.fst)]
    exact h.sublist (List.filter_sublist.map Prod.fst)
  have hinj : ∀ x ∈ oldRecords s, ∀ y ∈ oldRecords s, x.1.destId = y.1.destId →
      x.1.table = y.1.table → x.1 = y.1 := fun x hx y hy hdest htable ↦ by
    have hxs := (mem_oldRecords.mp hx).2.1
    have hys := (mem_oldRecords.mp hy).2.1
    rcases x with ⟨⟨xs, xd, xt⟩, _⟩
    rcases y with ⟨⟨ys, yd, yt⟩, _⟩
    simp_all
  rw [hmap, List.nodup_flatMap]
  refine ⟨fun x _ ↦ (List.nodup_map_iff fun a b h ↦ (SendKey.mk.inj h).1).mpr (by decide), ?_⟩
  refine ((List.pairwise_map.mp hperm).imp_of_mem fun {x y} hx hy hne ↦ ?_)
  rw [Function.onFun_apply, List.disjoint_left]
  intro k hk hk'
  obtain ⟨src, -, rfl⟩ := List.mem_map.mp hk
  obtain ⟨src', -, heq⟩ := List.mem_map.mp hk'
  exact hne (hinj x hx y hy (SendKey.mk.inj heq).2.1.symm (SendKey.mk.inj heq).2.2.symm)

/-- Filling producers' keys in adds no old record. -/
theorem oldRecords_fillRecords {s t : StoreFile π} {olds : List (SendKey × SendRecord)}
    (h : t.watermarks = fillRecords (pairs olds) s.watermarks) : oldRecords t = oldRecords s := by
  rw [oldRecords, oldRecords, h, filter_fillRecords]
  intro p hp
  obtain ⟨x, -, src, hsrc, rfl⟩ := mem_pairs.mp hp
  rw [decide_eq_false (ne_oldPskSource hsrc), Bool.false_and]

/-! ## The steps of a migration -/

/-- The row of `superseded_keys` for a pair, where it is not there. -/
def noted (now : Stamp) (p : Pair) (s : StoreFile π) : StoreFile π :=
  { s with supersededKeys := some (
      if (Table.lookup (p.old, p.new) (s.supersededKeys.getD [])).isSome then
        s.supersededKeys.getD []
      else s.supersededKeys.getD [] ++ [((p.old, p.new), now)]) }

/-- One pair of the split. -/
def splitStep (now : Stamp) (s : StoreFile π) (p : Pair) : StoreFile π :=
  noted now p { s with watermarks := addMissing s.watermarks p }

/-- One pair of the fill. -/
def fillStep (now : Stamp) (s : StoreFile π) (p : Pair) : StoreFile π :=
  if hasRecord s p.new then s else splitStep now s p

/-- The line of one pair of the split. -/
def splitLine (done : Bool) (records : List (SendKey × SendRecord)) (p : Pair) : ReportLine :=
  match Table.lookup p.new records with
  | none => .copy done p.old p.new p.record.cursor p.record.lastAck
  | some r => .keep done p.old p.new r.cursor

/-- The lines of the split. -/
def splitLines (done : Bool) (records : List (SendKey × SendRecord)) (ps : List Pair) :
    List ReportLine :=
  if ps.isEmpty then [.nothingToCopy] else ps.map (splitLine done records)

/-- The lines of the fill. -/
def fillLines (done : Bool) (records : List (SendKey × SendRecord)) (ps : List Pair) :
    List ReportLine :=
  (ps.filter fun p ↦ !(Table.lookup p.new records).isSome).map fun p ↦
    .copy done p.old p.new p.record.cursor p.record.lastAck

/-- Everything but the records and what is noted of them. -/
structure StoreFile.SameBut (s t : StoreFile π) : Prop where
  userVersion : t.userVersion = s.userVersion
  deliverables : t.deliverables = s.deliverables
  deadLetter : t.deadLetter = s.deadLetter
  attempts : t.attempts = s.attempts
  lastSend : t.lastSend = s.lastSend

theorem sameBut_foldl {f : StoreFile π → Pair → StoreFile π}
    (hf : ∀ (s : StoreFile π) p, s.SameBut (f s p))
    (ps : List Pair) (s : StoreFile π) : s.SameBut (ps.foldl f s) := by
  induction ps generalizing s with
  | nil => exact ⟨rfl, rfl, rfl, rfl, rfl⟩
  | cons p ps ih =>
    have h := ih (f s p)
    have h' := hf s p
    exact ⟨h.1.trans h'.1, h.2.trans h'.2, h.3.trans h'.3, h.4.trans h'.4, h.5.trans h'.5⟩

theorem sameBut_splitStep (now : Stamp) (s : StoreFile π) (p : Pair) :
    s.SameBut (splitStep now s p) := ⟨rfl, rfl, rfl, rfl, rfl⟩

theorem sameBut_fillStep (now : Stamp) (s : StoreFile π) (p : Pair) :
    s.SameBut (fillStep now s p) := by
  rw [fillStep]
  split
  · exact ⟨rfl, rfl, rfl, rfl, rfl⟩
  · exact sameBut_splitStep now s p

theorem watermarks_split (now : Stamp) (ps : List Pair) (s : StoreFile π) :
    (ps.foldl (splitStep now) s).watermarks = fillRecords ps s.watermarks := by
  induction ps generalizing s with
  | nil => rfl
  | cons p ps ih => exact ih _

theorem watermarks_fill (now : Stamp) (ps : List Pair) (s : StoreFile π) :
    (ps.foldl (fillStep now) s).watermarks = fillRecords ps s.watermarks := by
  induction ps generalizing s with
  | nil => rfl
  | cons p ps ih =>
    have hstep : (fillStep now s p).watermarks = addMissing s.watermarks p := by
      rw [fillStep]
      split
      · rename_i hhas
        exact (if_pos hhas).symm
      · rfl
    rw [List.foldl_cons, ih, hstep]
    rfl

/-- What has been noted stays noted. -/
theorem isSome_noted {old new : SendKey} {now : Stamp} {p : Pair} {s : StoreFile π}
    (h : (Table.lookup (old, new) (s.supersededKeys.getD [])).isSome ∨
      (p.old, p.new) = (old, new)) :
    (Table.lookup (old, new) ((noted now p s).supersededKeys.getD [])).isSome := by
  rw [noted, Option.getD_some, Table.isSome_lookup] at *
  split
  · rename_i hthere
    rcases h with h | h
    · exact h
    · rwa [← h, ← Table.isSome_lookup]
  · rw [List.map_append, List.mem_append, List.map_singleton, List.mem_singleton]
    exact h.imp_right Eq.symm

/-- Every pair of the split is noted, and every one the fill copies. -/
theorem isSome_foldl_of_mem {f : StoreFile π → Pair → StoreFile π} {now : Stamp}
    (hf : ∀ s p, f s p = s ∨ f s p = splitStep now s p) {old new : SendKey} (ps : List Pair)
    (s : StoreFile π)
    (h : (Table.lookup (old, new) (s.supersededKeys.getD [])).isSome) :
    (Table.lookup (old, new) ((ps.foldl f s).supersededKeys.getD [])).isSome := by
  induction ps generalizing s with
  | nil => exact h
  | cons p ps ih =>
    refine ih _ ?_
    rcases hf s p with hs | hs
    · rwa [hs]
    · rw [hs]
      exact isSome_noted (.inl h)

theorem noted_foldl {f : StoreFile π → Pair → StoreFile π} {now : Stamp}
    (hf : ∀ s p, f s p = s ∨ f s p = splitStep now s p)
    (hcopies : ∀ s p, hasRecord s p.new = false → f s p = splitStep now s p)
    (hwatermarks : ∀ s p, (f s p).watermarks = addMissing s.watermarks p) {p : Pair}
    {ps : List Pair} (hp : p ∈ ps) (hnodup : (ps.map Pair.new).Nodup) {s : StoreFile π}
    (h : Table.lookup p.new s.watermarks = none) :
    (Table.lookup (p.old, p.new) ((ps.foldl f s).supersededKeys.getD [])).isSome := by
  induction ps generalizing s with
  | nil => cases hp
  | cons q ps ih =>
    rw [List.map_cons, List.nodup_cons] at hnodup
    rw [List.foldl_cons]
    rcases List.mem_cons.mp hp with rfl | hp
    · refine isSome_foldl_of_mem hf ps _ ?_
      rw [hcopies s p (by rw [hasRecord, h]; rfl)]
      exact isSome_noted (.inr rfl)
    · refine ih hp hnodup.2 ?_
      rw [hwatermarks, lookup_addMissing, if_neg, h]
      rintro ⟨hq, -⟩
      exact hnodup.1 (hq ▸ List.mem_map_of_mem hp)

/-! ## The migrations -/

section migrations

variable {o : Surroundings}

theorem insertSuperseded_eq {old new : SendKey} {now : Stamp} {s : StoreFile π}
    {record : SendRecord} (h : s.supersededKeys.isSome) :
    insertSuperseded old new now s = .ok (noted now ⟨old, new, record⟩ s) := by
  obtain ⟨rows, hrows⟩ := Option.isSome_iff_exists.mp h
  rw [insertSuperseded, noted, hrows]
  dsimp only [Option.getD_some]
  split
  · rw [← hrows]
  · rfl

theorem comes_splitPair (p : Pair) {s : StoreFile π} (h : s.supersededKeys.isSome) :
    Comes o (splitPair o p) s (.ok (splitLine true s.watermarks p, splitStep o.splitAt s p)) := by
  rw [splitPair, splitLine, splitStep, addMissing]
  refine .select_bind rfl ?_
  cases hlookup : Table.lookup p.new s.watermarks with
  | none =>
    have hinsert : insertRecord p.new p.record s =
        .ok { s with watermarks := s.watermarks ++ [(p.new, p.record)] } := by
      rw [insertRecord, hasRecord, hlookup]
      rfl
    exact .write_bind hinsert (.write_bind (insertSuperseded_eq h) (.pure _ _))
  | some r => exact .write_bind (insertSuperseded_eq h) (.pure _ _)

theorem comes_splitPairs (ps : List Pair) {s : StoreFile π} (h : s.supersededKeys.isSome)
    (hnodup : (ps.map Pair.new).Nodup) :
    Comes o (splitPairs o ps) s
      (.ok (ps.map (splitLine true s.watermarks), ps.foldl (splitStep o.splitAt) s)) := by
  induction ps generalizing s with
  | nil => exact .pure _ _
  | cons p ps ih =>
    rw [List.map_cons, List.nodup_cons] at hnodup
    rw [splitPairs]
    refine (comes_splitPair p h).bind ((ih rfl hnodup.2).bind ?_)
    -- the pairs after this one find their keys as they were
    have hlines : ps.map (splitLine true (splitStep o.splitAt s p).watermarks) =
        ps.map (splitLine true s.watermarks) := by
      refine List.map_congr_left fun q hq ↦ ?_
      rw [splitLine, splitLine]
      have hlookup : Table.lookup q.new (splitStep o.splitAt s p).watermarks =
          Table.lookup q.new s.watermarks := by
        refine (lookup_addMissing q.new).trans (if_neg ?_)
        rintro ⟨hp, -⟩
        exact hnodup.1 (hp ▸ List.mem_map_of_mem hq)
      rw [hlookup]
    rw [hlines]
    exact .pure _ _

theorem isEmpty_pairs (olds : List (SendKey × SendRecord)) :
    (pairs olds).isEmpty = olds.isEmpty := by
  cases olds <;> rfl

/-- **The split**: the keys that hold no record are filled in, and every pair is noted. -/
theorem comes_splitPskreporter {s : StoreFile π} (h : (s.watermarks.map Prod.fst).Nodup) :
    Comes o (splitPskreporter o) s
      (.ok (splitLines true s.watermarks (pairs (oldRecords s)),
        (pairs (oldRecords s)).foldl (splitStep o.splitAt) (createSuperseded s))) := by
  rw [splitPskreporter]
  refine .write_bind rfl (.select_bind rfl ?_)
  refine (comes_splitPairs (pairs (oldRecords s)) rfl (nodup_pairs h)).bind ?_
  rw [splitLines, isEmpty_pairs]
  exact .pure _ _

theorem previewSplit_eq (s : StoreFile π) :
    previewSplit s = splitLines false s.watermarks (pairs (oldRecords s)) := by
  rw [previewSplit, splitLines, isEmpty_pairs]
  rfl

theorem comes_fillPair (made : Bool) (p : Pair) {s : StoreFile π}
    (hmade : made → s.supersededKeys.isSome) :
    ∃ made', Comes o (fillPair o made p) s
        (.ok ((made', fillLines true s.watermarks [p]), fillStep o.fillAt s p)) ∧
      (made' → (fillStep o.fillAt s p).supersededKeys.isSome) := by
  cases hlookup : Table.lookup p.new s.watermarks with
  | some r =>
    refine ⟨made, ?_, ?_⟩
    · rw [fillPair, fillStep, fillLines, hasRecord, List.filter_singleton, hlookup]
      refine .select_bind rfl ?_
      rw [hasRecord, hlookup]
      exact .pure _ _
    · rw [fillStep, hasRecord, hlookup]
      exact hmade
  | none =>
    refine ⟨true, ?_, ?_⟩
    · rw [fillPair, fillStep, fillLines, hasRecord, List.filter_singleton, hlookup]
      refine .select_bind rfl ?_
      rw [hasRecord, hlookup]
      have hinsert : ∀ t : StoreFile π, t.watermarks = s.watermarks →
          insertRecord p.new p.record t =
            .ok { t with watermarks := addMissing s.watermarks p } := fun t ht ↦ by
        rw [insertRecord, hasRecord, ht, hlookup, addMissing, hlookup]
        rfl
      cases made with
      | true =>
        refine (Comes.pure () s).bind ?_
        refine .write_bind (hinsert s rfl) (.write_bind ?_ (.pure _ _))
        exact insertSuperseded_eq (hmade rfl)
      | false =>
        refine (Comes.write (fun s ↦ .ok (createSuperseded s)) s).bind ?_
        refine .write_bind (hinsert _ rfl) (.write_bind ?_ (.pure _ _))
        exact insertSuperseded_eq rfl
    · rw [fillStep, hasRecord, hlookup]
      exact fun _ ↦ rfl

theorem comes_fillPairs (ps : List Pair) {made : Bool} {s : StoreFile π}
    (hmade : made → s.supersededKeys.isSome) (hnodup : (ps.map Pair.new).Nodup) :
    Comes o (fillPairs o made ps) s
      (.ok (fillLines true s.watermarks ps, ps.foldl (fillStep o.fillAt) s)) := by
  induction ps generalizing made s with
  | nil => exact .pure _ _
  | cons p ps ih =>
    rw [List.map_cons, List.nodup_cons] at hnodup
    obtain ⟨made', hp, hmade'⟩ := comes_fillPair (o := o) made p hmade
    rw [fillPairs]
    refine hp.bind ((ih hmade' hnodup.2).bind ?_)
    have hrest : ∀ q ∈ ps, Table.lookup q.new (fillStep o.fillAt s p).watermarks =
        Table.lookup q.new s.watermarks := fun q hq ↦ by
      refine (congrArg _ (watermarks_fill o.fillAt [p] s)).trans ?_
      refine (lookup_addMissing q.new).trans (if_neg ?_)
      rintro ⟨hp, -⟩
      exact hnodup.1 (hp ▸ List.mem_map_of_mem hq)
    have hlines : fillLines true s.watermarks [p] ++
        fillLines true (fillStep o.fillAt s p).watermarks ps =
          fillLines true s.watermarks (p :: ps) := by
      have hfilter : (ps.filter fun q ↦
          !(Table.lookup q.new (fillStep o.fillAt s p).watermarks).isSome) =
            ps.filter fun q ↦ !(Table.lookup q.new s.watermarks).isSome :=
        List.filter_congr fun q hq ↦ by rw [hrest q hq]
      rw [fillLines, fillLines, fillLines, hfilter, ← List.map_append, ← List.filter_append]
      rfl
    rw [hlines]
    exact .pure _ _

/-- **The fill**: the keys that hold no record are filled in. -/
theorem comes_fillMissingProducerKeys {s : StoreFile π} (h : (s.watermarks.map Prod.fst).Nodup) :
    Comes o (fillMissingProducerKeys o) s
      (.ok (fillLines true s.watermarks (pairs (oldRecords s)),
        (pairs (oldRecords s)).foldl (fillStep o.fillAt) s)) := by
  rw [fillMissingProducerKeys]
  exact .select_bind rfl (comes_fillPairs _ nofun (nodup_pairs h))

theorem previewFill_eq (s : StoreFile π) :
    previewFill s = fillLines false s.watermarks (pairs (oldRecords s)) := rfl

end migrations

/-! ## The send log -/

/-- The file with the columns and the table that the send log needs. -/
def withSendLog (s : StoreFile π) : StoreFile π :=
  { s with
    attempts := s.attempts.map fun t ↦ (t.1 ++ missingColumns s, t.2)
    lastSend := some (s.lastSend.getD []) }

/-- The lines about the send log. -/
def sendLogLines (done : Bool) (s : StoreFile π) : List ReportLine :=
  (missingColumns s).map (ReportLine.column done) ++
    (if s.lastSend.isSome then [] else [.lastSendTable done])

/-- What SQLite answers to an `ALTER TABLE` without `attempts`. -/
def noAttempts : Exn := .operationalError "no such table: attempts"

section sendLog

variable {o : Surroundings}

theorem comes_addColumns (names : List String) {s : StoreFile π} {columns : List String}
    {rows : List Attempt} (h : s.attempts = some (columns, rows)) :
    Comes o (addColumns o names) s
      (.ok (names.map (ReportLine.column true),
        { s with attempts := some (columns ++ names, rows) })) := by
  induction names generalizing s columns with
  | nil =>
    rw [List.append_nil, ← h]
    exact .pure _ _
  | cons name names ih =>
    rw [addColumns]
    have hadd : addColumn name s = .ok { s with attempts := some (columns ++ [name], rows) } := by
      rw [addColumn, h]
    refine .write_bind hadd ((ih rfl).bind ?_)
    rw [List.append_assoc, List.singleton_append]
    exact .pure _ _

theorem comes_addSendLogNames {s : StoreFile π} (h : s.attempts.isSome) :
    Comes o (addSendLogNames o) s (.ok (sendLogLines true s, withSendLog s)) := by
  obtain ⟨⟨columns, rows⟩, hattempts⟩ := Option.isSome_iff_exists.mp h
  rw [addSendLogNames]
  refine .select_bind rfl ((comes_addColumns (missingColumns s) hattempts).bind ?_)
  refine .select_bind rfl ?_
  rw [sendLogLines, withSendLog, hattempts]
  cases hlast : s.lastSend with
  | some rows =>
    rw [Option.isSome_some, if_pos rfl, if_pos rfl, List.append_nil]
    dsimp only [Option.map_some, Option.getD_some]
    rw [← hlast]
    exact .pure _ _
  | none =>
    rw [Option.isSome_none, if_neg Bool.false_ne_true, if_neg Bool.false_ne_true]
    exact .write_bind rfl (.pure _ _)

theorem comes_addSendLogNames_error {s : StoreFile π} (h : s.attempts = none) :
    Comes o (addSendLogNames o) s (.error noAttempts) := by
  have hmissing : missingColumns s = ["pipeline", "client"] := by
    rw [missingColumns, h]
    rfl
  have hadd : addColumn "pipeline" s = .error noAttempts := by
    rw [addColumn, h]
    rfl
  rw [addSendLogNames]
  refine .select_bind rfl (.bind_error ?_)
  rw [hmissing, addColumns]
  have hwrite := Comes.write (o := o) (addColumn "pipeline") s
  rw [hadd] at hwrite
  exact hwrite.bind_error

/-! ## All migrations -/

/-- The file after the migrations above its version. -/
def upgraded (o : Surroundings) (s : StoreFile π) : StoreFile π :=
  if s.userVersion < 2 then
    { withSendLog
        ((pairs (oldRecords s)).foldl (splitStep o.splitAt) (createSuperseded s)) with
      userVersion := 3 }
  else if s.userVersion < 3 then { withSendLog s with userVersion := 3 }
  else s

/-- The lines of the migrations above the file's version. -/
def upgradeLines (done : Bool) (s : StoreFile π) : List ReportLine :=
  (if s.userVersion < 2 then splitLines done s.watermarks (pairs (oldRecords s)) else []) ++
    (if s.userVersion < 3 then sendLogLines done s else [])

/-- The versions above the file's. -/
def pendingVersions (version : ℤ) : List ℤ := [1, 2, 3].filter fun v ↦ version < v

/-- What the migrations come to. -/
def upgrade (o : Surroundings) (s : StoreFile π) :
    Except Exn ((ℤ × List ℤ × List ReportLine) × StoreFile π) :=
  if s.userVersion < 3 ∧ s.attempts = none then .error noAttempts
  else .ok ((max s.userVersion 3, pendingVersions s.userVersion, upgradeLines true s),
    upgraded o s)

/-- The split does not look at the version. -/
theorem foldl_splitStep_version (now : Stamp) (ps : List Pair) (s : StoreFile π) (v : ℤ) :
    ps.foldl (splitStep now) { s with userVersion := v } =
      { ps.foldl (splitStep now) s with userVersion := v } := by
  induction ps generalizing s with
  | nil => rfl
  | cons p ps ih => exact ih (splitStep now s p)

theorem comes_lastMigration (s t : StoreFile π) (hattempts : t.attempts = s.attempts)
    (hlastSend : t.lastSend = s.lastSend) {v : ℤ} (hv : v < 3) :
    Comes o (runMigrations o [⟨3, addSendLogNames, previewSendLogNames⟩] v) t
      (if s.attempts = none then .error noAttempts
      else .ok ((3, [3], sendLogLines true s), { withSendLog t with userVersion := 3 })) := by
  have hlines : sendLogLines true t = sendLogLines true s := by
    rw [sendLogLines, sendLogLines, missingColumns, missingColumns, hattempts, hlastSend]
  rw [runMigrations, if_neg (by dsimp only; omega)]
  split
  · rename_i hnone
    exact (comes_addSendLogNames_error (hattempts.trans hnone)).bind_error
  · rename_i hsome
    refine (comes_addSendLogNames ?_).bind (.write_bind rfl ?_)
    · rw [hattempts]
      exact Option.isSome_iff_ne_none.mpr hsome
    · refine (Comes.pure (3, [], []) _).bind ?_
      dsimp only
      rw [hlines, List.append_nil]
      exact .pure _ _

theorem comes_lastMigrations {s : StoreFile π} (h : (s.watermarks.map Prod.fst).Nodup) (u : ℤ)
    {v : ℤ} (hv : v < 2) :
    Comes o (runMigrations o
        [⟨2, splitPskreporter, previewSplit⟩, ⟨3, addSendLogNames, previewSendLogNames⟩] v)
      { s with userVersion := u }
      (if s.attempts = none then .error noAttempts
      else .ok ((3, [2, 3], splitLines true s.watermarks (pairs (oldRecords s)) ++
          sendLogLines true s),
        { withSendLog
            ((pairs (oldRecords s)).foldl (splitStep o.splitAt) (createSuperseded s)) with
          userVersion := 3 })) := by
  have hsame := sameBut_foldl (sameBut_splitStep o.splitAt) (pairs (oldRecords s))
    (createSuperseded s)
  have hsplit : Comes o (splitPskreporter o) { s with userVersion := u }
      (.ok (splitLines true s.watermarks (pairs (oldRecords s)),
        { (pairs (oldRecords s)).foldl (splitStep o.splitAt) (createSuperseded s) with
          userVersion := u })) := by
    rw [← foldl_splitStep_version]
    exact comes_splitPskreporter h
  rw [runMigrations, if_neg (by dsimp only; omega)]
  refine hsplit.bind (.write_bind rfl ?_)
  have hlast := comes_lastMigration (o := o) s
    { (pairs (oldRecords s)).foldl (splitStep o.splitAt) (createSuperseded s) with
      userVersion := 2 } hsame.attempts hsame.lastSend (by decide : (2 : ℤ) < 3)
  split
  · rename_i hnone
    rw [if_pos hnone] at hlast
    exact hlast.bind_error
  · rename_i hsome
    rw [if_neg hsome] at hlast
    exact hlast.bind (.pure _ _)

/-- **The migrations** above the file's version. -/
theorem comes_runMigrations {s : StoreFile π} (h : (s.watermarks.map Prod.fst).Nodup) :
    Comes o (runMigrations o (migrations π) s.userVersion) s (upgrade o s) := by
  rw [upgrade, upgraded, upgradeLines, pendingVersions]
  rcases lt_or_ge s.userVersion 3 with h3 | h3
  · rcases lt_or_ge s.userVersion 2 with h2 | h2
    · rw [max_eq_right h3.le, if_pos h2, if_pos h2, if_pos h3]
      simp only [h3, true_and]
      rcases lt_or_ge s.userVersion 1 with h1 | h1
      · -- the first migration records its version alone
        have hpending : ([1, 2, 3] : List ℤ).filter (fun v ↦ s.userVersion < v) = [1, 2, 3] := by
          simp [h1, h2, h3]
        rw [hpending, migrations, runMigrations, if_neg (by dsimp only; omega)]
        refine (Comes.pure [] s).bind (.write_bind rfl ?_)
        have hlast := comes_lastMigrations (o := o) h 1 (by decide : (1 : ℤ) < 2)
        split
        · rename_i hnone
          rw [if_pos hnone] at hlast
          exact hlast.bind_error
        · rename_i hsome
          rw [if_neg hsome] at hlast
          exact hlast.bind (.pure _ _)
      · have hpending : ([1, 2, 3] : List ℤ).filter (fun v ↦ s.userVersion < v) = [2, 3] := by
          simp [h2, h3, not_lt.mpr h1]
        rw [hpending, migrations, runMigrations, if_pos h1]
        exact comes_lastMigrations h s.userVersion h2
    · have hpending : ([1, 2, 3] : List ℤ).filter (fun v ↦ s.userVersion < v) = [3] := by
        have h1 : ¬ s.userVersion < 1 := by omega
        simp [h1, not_lt.mpr h2, h3]
      rw [max_eq_right h3.le, if_neg (not_lt.mpr h2), if_pos h3, if_neg (not_lt.mpr h2), if_pos h3,
        hpending, migrations, runMigrations, if_pos (by dsimp only; omega), runMigrations,
        if_pos h2]
      simp only [h3, true_and]
      exact comes_lastMigration s s rfl rfl h3
  · have hpending : ([1, 2, 3] : List ℤ).filter (fun v ↦ s.userVersion < v) = [] := by
      have h1 : ¬ s.userVersion < 1 := by omega
      have h2 : ¬ s.userVersion < 2 := by omega
      simp [h1, h2, not_lt.mpr h3]
    rw [max_eq_left h3, if_neg (by omega), if_neg (by omega), if_neg (by omega), if_neg (by omega),
      if_neg (by omega), hpending, migrations, runMigrations, if_pos (by dsimp only; omega),
      runMigrations, if_pos (by dsimp only; omega), runMigrations, if_pos h3, runMigrations]
    exact .pure _ _

end sendLog

end Schema

end HsUploader
