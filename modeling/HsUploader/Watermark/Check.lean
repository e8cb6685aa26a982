import HsUploader.Watermark.Preserved

/-!
# What `migrate --check` says

`check` plans on the file as it stands and takes the producer keys for filled in, where `migrate`
plans again on the file with the keys filled in.  Both agree on a retry that names the old source.
A retry that names another source may be told otherwise: its record need not be one that the fill
copies, and the fill may make a record that the retry names.  `check_predicts_iff` says exactly when
the check is right.

## What is here

* `checkReport` and `checkFill` — what a check says, as a function of the file.
* `Overflows`, `Telling`, `Untold` — what a retry's position can come to when the sink is asked for
  the rows up to it.
* `filledFor` and `Agrees` — the records that the fill makes and a retry names, and when the plan of
  the check and that of the migration see the retry alike.
* `plan_eq_iff` — two plans for the same retries are one plan when each retry is seen alike.
* `predicts_of_nothing`, `predicts_of_write`, `lines_of_predicts` — from the plans to the report.

`Foretold` is a predicate of the file before: it names the records and the retries, and neither the
report of the check nor that of the migration.
-/

set_option autoImplicit false

namespace HsUploader

namespace Schema

open Prog (wp exists_of_map_eq_ok exists_of_bind_eq_ok)

variable {π : Type}

/-! ## The report of a check -/

/-- The line as `migrate` writes it. -/
def ReportLine.asDone : ReportLine → ReportLine
  | .copy _ old new cursor lastAck => .copy true old new cursor lastAck
  | .keep _ old new existing => .keep true old new existing
  | .nothingToCopy => .nothingToCopy
  | .column _ name => .column true name
  | .lastSendTable _ => .lastSendTable true
  | .retry _ a => .retry true a

/-- What should hold of a check of a file: where it raises, so does `migrate`; else it says whether
`migrate` changes the file, and names what `migrate` does with each record and retry. -/
def Predicts (o : Surroundings) (ctx : MigrateContext) (s : StoreFile π) : Prop :=
  match check ctx o.sink s with
  | .error _ => (∃ e, (migrate o ctx ⟨s, 0⟩).1 = .raised e) ∧ (migrate o ctx ⟨s, 0⟩).2.file = s
  | .ok said => (said.wouldWrite ↔ (migrate o ctx ⟨s, 0⟩).2.file ≠ s) ∧
    ∃ rep, (migrate o ctx ⟨s, 0⟩).1 = .ok rep ∧ rep.lines = said.lines.map ReportLine.asDone

/-- A position that `_sink_holds` cannot ask for: the retry raises. -/
def Overflows (ctx : MigrateContext) (sink : SinkDb) (s : StoreFile π) (d : Deliverable π) : Prop :=
  ∃ key r n e, namedRecords s d.sourceId d.destId d.table = [(key, r)] ∧ lastId r.cursor = some n ∧
    sinkHolds ctx sink n = .error e

/-- The records name one position, and the sink holds a row up to it. -/
def Telling (ctx : MigrateContext) (sink : SinkDb) (records : List (SendKey × SendRecord)) : Prop :=
  ∃ key r n, records = [(key, r)] ∧ lastId r.cursor = some n ∧ sinkHolds ctx sink n = .ok true

/-- The records name no position, or one the sink holds nothing up to. -/
def Untold (ctx : MigrateContext) (sink : SinkDb) (records : List (SendKey × SendRecord)) : Prop :=
  ∀ key r n, records = [(key, r)] → lastId r.cursor = some n → sinkHolds ctx sink n = .ok false

/-- The records the fill makes that a retry names. -/
def filledFor (s : StoreFile π) (d : Deliverable π) : List (SendKey × SendRecord) :=
  (((pairs (oldRecords s)).filter fun p ↦ !hasRecord s p.new).map fun p ↦ (p.new, p.record)).filter
    fun p ↦ p.1.sourceId = (if d.sourceId = "" then oldPskSource else d.sourceId) &&
      likePskreporter p.1.destId && (d.destId = "" || p.1.destId = d.destId) &&
      (d.table = "" || p.1.table = d.table)

/-- The check and the migration see a retry alike.  Where the fill makes no record it names: if the
record it names lets it be deleted, both producers' keys are there or an old record that the fill
copies to them is.  Where the fill makes one: neither what it names before lets it be deleted, nor,
if it names none before, what it names then. -/
def Agrees (ctx : MigrateContext) (sink : SinkDb) (s : StoreFile π) (d : Deliverable π) : Prop :=
  (filledFor s d = [] ∧ ∀ key r n,
    namedRecords s d.sourceId d.destId d.table = [(key, r)] → lastId r.cursor = some n →
      sinkHolds ctx sink n = .ok true → ∀ src ∈ newSources,
        hasRecord s ⟨src, key.destId, key.table⟩ ∨
          hasRecord s ⟨oldPskSource, key.destId, key.table⟩) ∨
  (filledFor s d ≠ [] ∧ ¬ Telling ctx sink (namedRecords s d.sourceId d.destId d.table) ∧
    (namedRecords s d.sourceId d.destId d.table = [] → Untold ctx sink (filledFor s d)))

/-- The check of the file is right: the context is refused or a position cannot be asked for, so
that both raise; or `attempts` is there to be altered where it has to be, and the check sees each
retry as the migration does. -/
def Foretold (ctx : MigrateContext) (sink : SinkDb) (s : StoreFile π) : Prop :=
  (∃ e, validate ctx = .error e) ∨ (∃ d ∈ oldRetries s, Overflows ctx sink s d) ∨
    ((s.userVersion < 3 → s.attempts.isSome) ∧
      (s.userVersion ≤ 3 → ∀ d ∈ oldRetries s, Agrees ctx sink s d))

section check

variable {o : Surroundings} {ctx : MigrateContext} {sink : SinkDb} {s t : StoreFile π}
  {d : Deliverable π} {assumeFilled : Bool}

/-- The lines of the fill in a check. -/
def checkFill (s : StoreFile π) : List ReportLine :=
  if 2 ≤ s.userVersion ∧ s.userVersion ≤ 3 then
    fillLines false s.watermarks (pairs (oldRecords s))
  else []

/-- The report of a check. -/
def checkReport (s : StoreFile π) (plan : List RetryAction) : MigrateReport where
  fromVersion := s.userVersion
  toVersion := s.userVersion
  pending := pendingVersions s.userVersion
  lines := upgradeLines false s ++ checkFill s ++ retryLines false plan
  wouldWrite := !(pendingVersions s.userVersion).isEmpty || !(checkFill s).isEmpty ||
    plan.any fun a ↦ a.action ≠ .stay

theorem check_eq (ctx : MigrateContext) (sink : SinkDb) (s : StoreFile π) :
    check ctx sink s = validate ctx >>= fun _ ↦
      (planRetries ctx sink (decide (s.userVersion ≤ 3)) s).map (checkReport s) := by
  have hversions : ∀ v : ℤ, v = s.userVersion →
      ((migrations π).filter fun m ↦ v < m.version).map Migration.version = pendingVersions v ∧
      fills ((v :: pendingVersions v).foldl max v) = decide (v ≤ 3) ∧
      (((migrations π).filter fun m ↦ v < m.version).any fun m ↦ m.version = 2) = decide (v < 2) ∧
      ((migrations π).filter fun m ↦ v < m.version).flatMap (fun m ↦ m.preview s) =
        upgradeLines false s := by
    rintro v rfl
    rw [migrations, pendingVersions, upgradeLines]
    rcases lt_or_ge s.userVersion 1 with h1 | h1
    · have h2 : s.userVersion < 2 := by omega
      have h3 : s.userVersion < 3 := by omega
      simp [h1, h2, h3, fills, previewSplit_eq, previewSendLogNames, sendLogLines]
    · rcases lt_or_ge s.userVersion 2 with h2 | h2
      · have h3 : s.userVersion < 3 := by omega
        simp [not_lt.mpr h1, h2, h3, fills, previewSplit_eq, previewSendLogNames, sendLogLines]
      · rcases lt_or_ge s.userVersion 3 with h3 | h3
        · simp [not_lt.mpr h1, not_lt.mpr h2, h3, fills, previewSendLogNames, sendLogLines]
        · simp [not_lt.mpr h1, not_lt.mpr h2, not_lt.mpr h3, fills]
          omega
  obtain ⟨hpending, hfinal, hsplit, hlines⟩ := hversions s.userVersion rfl
  have hempty : ((migrations π).filter fun m ↦ s.userVersion < m.version).isEmpty =
      (pendingVersions s.userVersion).isEmpty := by
    rw [← hpending, List.isEmpty_map]
  have hfill : (if fills ((s.userVersion :: ((migrations π).filter fun m ↦
        s.userVersion < m.version).map Migration.version).foldl max s.userVersion) &&
      !((migrations π).filter fun m ↦ s.userVersion < m.version).any fun m ↦ m.version = 2 then
        previewFill s else []) = checkFill s := by
    rw [hpending, hfinal, hsplit, checkFill, previewFill_eq]
    by_cases h : 2 ≤ s.userVersion ∧ s.userVersion ≤ 3
    · rw [if_pos h, if_pos]
      simp only [Bool.and_eq_true, decide_eq_true_eq, Bool.not_eq_true', decide_eq_false_iff_not]
      omega
    · rw [if_neg h, if_neg]
      simp only [Bool.and_eq_true, decide_eq_true_eq, Bool.not_eq_true', decide_eq_false_iff_not]
      omega
  rw [check]
  cases validate ctx with
  | error e => rfl
  | ok u =>
    simp only [bind, Except.bind]
    rw [hfill, hpending, hfinal, hlines, hempty]
    cases planRetries ctx sink (decide (s.userVersion ≤ 3)) s with
    | error e => rfl
    | ok plan => rfl

/-! ## The lines -/

theorem map_asDone_lines (o : Surroundings) (s : StoreFile π) (plan : List RetryAction) :
    (upgradeLines false s ++ checkFill s ++ retryLines false plan).map ReportLine.asDone =
      upgradeLines true s ++ preparedLines o s ++ retryLines true plan := by
  have hsplit : (splitLines false s.watermarks (pairs (oldRecords s))).map ReportLine.asDone =
      splitLines true s.watermarks (pairs (oldRecords s)) := by
    rw [splitLines, splitLines]
    split
    · rfl
    · rw [List.map_map]
      refine List.map_congr_left fun p _ ↦ ?_
      rw [Function.comp_apply, splitLine, splitLine]
      cases Table.lookup p.new s.watermarks <;> rfl
  have hlog : (sendLogLines false s).map ReportLine.asDone = sendLogLines true s := by
    rw [sendLogLines, sendLogLines, List.map_append, List.map_map]
    congr 1
    cases s.lastSend.isSome <;> rfl
  have hupgrade : (upgradeLines false s).map ReportLine.asDone = upgradeLines true s := by
    rw [upgradeLines, upgradeLines, List.map_append, apply_ite (List.map ReportLine.asDone),
      apply_ite (List.map ReportLine.asDone), hsplit, hlog, List.map_nil]
  have hfill : (checkFill s).map ReportLine.asDone = preparedLines o s := by
    rw [checkFill, preparedLines, oldRecords_upgraded, watermarks_upgraded]
    by_cases h3 : s.userVersion ≤ 3
    · rw [if_pos h3]
      by_cases h2 : s.userVersion < 2
      · rw [if_neg (by omega), if_pos h2, fillLines]
        refine Eq.symm (List.map_eq_nil_iff.mpr (List.filter_eq_nil_iff.mpr fun p hp ↦ ?_))
        rw [isSome_fillRecords hp]
        exact Bool.false_ne_true
      · rw [if_pos ⟨by omega, h3⟩, if_neg h2, fillLines, fillLines, List.map_map]
        rfl
    · rw [if_neg h3, if_neg (by omega), List.map_nil]
  rw [List.map_append, List.map_append, hupgrade, hfill, retryLines, retryLines, List.map_map]
  rfl

/-! ## One retry -/

/-- The verdict on the records a retry names. -/
def verdict (ctx : MigrateContext) (sink : SinkDb) (keys : SendKey → Bool) :
    List (SendKey × SendRecord) → Except Exn Bool
  | [(key, r)] =>
    match lastId r.cursor with
    | none => .ok false
    | some n => (sinkHolds ctx sink n).map (· && keys key)
  | _ => .ok false

theorem holds_eq_verdict (ctx : MigrateContext) (sink : SinkDb) (assumeFilled : Bool)
    (s : StoreFile π) (d : Deliverable π) :
    holds ctx sink assumeFilled s d = verdict ctx sink
      (fun key ↦ assumeFilled || (missingProducerKeys s key.destId key.table).isEmpty)
      (namedRecords s d.sourceId d.destId d.table) := by
  rw [holds, oldLastId]
  rcases namedRecords s d.sourceId d.destId d.table with _ | ⟨⟨key, r⟩, _ | ⟨y, l⟩⟩
  · rfl
  · dsimp only [verdict]
    cases lastId r.cursor with
    | none => rfl
    | some n => cases sinkHolds ctx sink n <;> rfl
  · rfl

theorem verdict_append {keys : SendKey → Bool} {l l' : List (SendKey × SendRecord)} (h : l ≠ [])
    (h' : l' ≠ []) : verdict ctx sink keys (l ++ l') = .ok false := by
  rcases l with _ | ⟨x, _ | ⟨y, l⟩⟩
  · exact absurd rfl h
  · rcases l' with _ | ⟨y, l'⟩
    · exact absurd rfl h'
    · rfl
  · rfl

/-- The fill appends the records that were missing. -/
theorem fillRecords_eq_append {ps : List Pair} (hnodup : (ps.map Pair.new).Nodup)
    (records : List (SendKey × SendRecord)) :
    fillRecords ps records = records ++
      (ps.filter fun p ↦ !(Table.lookup p.new records).isSome).map fun p ↦ (p.new, p.record) := by
  induction ps generalizing records with
  | nil => exact (List.append_nil _).symm
  | cons p ps ih =>
    rw [List.map_cons, List.nodup_cons] at hnodup
    have hrest : (ps.filter fun q ↦ !(Table.lookup q.new (addMissing records p)).isSome) =
        ps.filter fun q ↦ !(Table.lookup q.new records).isSome :=
      List.filter_congr fun q hq ↦ by
        rw [lookup_addMissing, if_neg]
        rintro ⟨hp, -⟩
        exact hnodup.1 (hp ▸ List.mem_map_of_mem hq)
    rw [fillRecords, List.foldl_cons, ← fillRecords, ih hnodup.2, hrest, List.filter_cons,
      addMissing]
    cases (Table.lookup p.new records).isSome with
    | true => rfl
    | false =>
      rw [if_neg Bool.false_ne_true, if_pos (show (!false) = true from rfl), List.append_assoc]
      rfl

/-- What a retry names once the fill is made. -/
theorem namedRecords_filled (hkeyed : (s.watermarks.map Prod.fst).Nodup)
    (h : t.watermarks = fillRecords (pairs (oldRecords s)) s.watermarks) (d : Deliverable π) :
    namedRecords t d.sourceId d.destId d.table =
      namedRecords s d.sourceId d.destId d.table ++ filledFor s d := by
  rw [namedRecords, namedRecords, filledFor, h, fillRecords_eq_append (nodup_pairs hkeyed),
    List.filter_append]
  rfl

/-- Which producers' keys are there once the fill is made. -/
theorem hasRecord_filled (h : t.watermarks = fillRecords (pairs (oldRecords s)) s.watermarks)
    {src dest table : String} (hsrc : src ∈ newSources) (hdest : likePskreporter dest = true) :
    hasRecord t ⟨src, dest, table⟩ ↔
      hasRecord s ⟨src, dest, table⟩ ∨ hasRecord s ⟨oldPskSource, dest, table⟩ := by
  simp only [hasRecord, h, Table.isSome_lookup]
  constructor
  · intro hmem
    obtain ⟨⟨k, r⟩, hk, rfl⟩ := List.mem_map.mp hmem
    refine (mem_fillRecords hk).imp (fun hk ↦ List.mem_map_of_mem hk) fun hfilled ↦ ?_
    obtain ⟨p, hp, hkp⟩ := hfilled
    obtain ⟨old, hold, src', -, rfl⟩ := mem_pairs.mp hp
    obtain ⟨holdmem, holdsource, -⟩ := mem_oldRecords.mp hold
    have hkey := (Prod.mk.inj hkp).1
    have heq : old.1 = ⟨oldPskSource, dest, table⟩ := by
      rcases hold1 : old.1 with ⟨a, b, c⟩
      rw [hold1] at hkey holdsource
      cases hkey
      rw [← holdsource]
    rw [← heq]
    exact List.mem_map_of_mem holdmem
  · rintro (hmem | hmem)
    · obtain ⟨x, hx, hxk⟩ := List.mem_map.mp hmem
      exact hxk ▸ List.mem_map_of_mem ((prefix_fillRecords _ _).subset hx)
    · obtain ⟨x, hx, hxk⟩ := List.mem_map.mp hmem
      have hold : x ∈ oldRecords s := mem_oldRecords.mpr ⟨hx, by rw [hxk], by rw [hxk]; exact hdest⟩
      have hp : (⟨x.1, { x.1 with sourceId := src }, x.2⟩ : Pair) ∈ pairs (oldRecords s) :=
        mem_pairs.mpr ⟨x, hold, src, hsrc, rfl⟩
      have hsome : (Table.lookup { x.1 with sourceId := src }
          (fillRecords (pairs (oldRecords s)) s.watermarks)).isSome := isSome_fillRecords hp
      rw [hxk] at hsome
      exact Table.isSome_lookup.mp hsome

theorem likePskreporter_of_mem {key : SendKey} {r : SendRecord}
    (h : (key, r) ∈ namedRecords s d.sourceId d.destId d.table) :
    likePskreporter key.destId = true := by
  rw [namedRecords, List.mem_filter, Bool.and_eq_true, Bool.and_eq_true, Bool.and_eq_true] at h
  exact h.2.1.1.2

/-- Where the check does not raise, it agrees with the migration as `Agrees` says. -/
theorem agrees_iff (hkeyed : (s.watermarks.map Prod.fst).Nodup)
    (h : t.watermarks = fillRecords (pairs (oldRecords s)) s.watermarks)
    (hover : ¬ Overflows ctx sink s d) :
    Agrees ctx sink s d ↔ holds ctx sink false t d = holds ctx sink true s d := by
  have hnamed := namedRecords_filled hkeyed h d
  have hmissing : ∀ key : SendKey, likePskreporter key.destId = true →
      ((missingProducerKeys t key.destId key.table).isEmpty = true ↔ ∀ src ∈ newSources,
        hasRecord s ⟨src, key.destId, key.table⟩ ∨
          hasRecord s ⟨oldPskSource, key.destId, key.table⟩) := fun key hkey ↦ by
    rw [missingProducerKeys, List.isEmpty_iff, List.filter_eq_nil_iff]
    refine forall₂_congr fun src hsrc ↦ ?_
    rw [← hasRecord_filled h hsrc hkey]
    simp
  rw [holds_eq_verdict, holds_eq_verdict, hnamed, Agrees]
  by_cases hF : filledFor s d = []
  · -- the retry names the same records before and after the fill
    rw [hF, List.append_nil]
    simp only [ne_eq, not_true, false_and, or_false, true_and]
    cases hN : namedRecords s d.sourceId d.destId d.table with
    | nil =>
      refine ⟨fun _ ↦ rfl, fun _ _ _ _ hnone ↦ ?_⟩
      cases hnone
    | cons x rest =>
      obtain ⟨key, r⟩ := x
      cases rest with
      | cons y rest =>
        refine ⟨fun _ ↦ rfl, fun _ _ _ _ hone ↦ ?_⟩
        cases hone
      | nil =>
        have hkey : likePskreporter key.destId = true :=
          likePskreporter_of_mem (by rw [hN]; exact List.mem_cons_self)
        dsimp only [verdict]
        cases hlast : lastId r.cursor with
        | none =>
          refine ⟨fun _ ↦ rfl, ?_⟩
          rintro - key' r' n hone hlast'
          cases hone
          rw [hlast] at hlast'
          cases hlast'
        | some n =>
          dsimp only
          cases hsink : sinkHolds ctx sink n with
          | error e => exact absurd ⟨key, r, n, e, hN, hlast, hsink⟩ hover
          | ok held =>
            cases held with
            | false =>
              refine ⟨fun _ ↦ rfl, ?_⟩
              rintro - key' r' n' hone hlast' hsink'
              cases hone
              rw [hlast] at hlast'
              cases hlast'
              rw [hsink] at hsink'
              cases hsink'
            | true =>
              constructor
              · intro hkeys
                rw [(hmissing key hkey).mpr (hkeys key r n rfl hlast hsink)]
                rfl
              · rintro heq key' r' n' hone - -
                cases hone
                refine (hmissing key hkey).mp ?_
                simpa [Except.map] using heq
  · simp only [hF, false_and, false_or, ne_eq, not_false_iff, true_and]
    cases hN : namedRecords s d.sourceId d.destId d.table with
    | cons x rest =>
      -- more than one record is named once the fill is made
      rw [← hN, verdict_append (by rw [hN]; exact List.cons_ne_nil _ _) hF, hN]
      simp only [and_true, reduceCtorEq, false_implies]
      cases rest with
      | cons y rest =>
        refine ⟨fun _ ↦ rfl, ?_⟩
        rintro - ⟨_, _, _, hone, -⟩
        cases hone
      | nil =>
        obtain ⟨key, r⟩ := x
        dsimp only [verdict]
        cases hlast : lastId r.cursor with
        | none =>
          refine ⟨fun _ ↦ rfl, ?_⟩
          rintro - ⟨key', r', n, hone, hlast', -⟩
          cases hone
          rw [hlast] at hlast'
          cases hlast'
        | some n =>
          dsimp only
          cases hsink : sinkHolds ctx sink n with
          | error e => exact absurd ⟨key, r, n, e, hN, hlast, hsink⟩ hover
          | ok held =>
            cases held with
            | false =>
              refine ⟨fun _ ↦ rfl, ?_⟩
              rintro - ⟨key', r', n', hone, hlast', hsink'⟩
              cases hone
              rw [hlast] at hlast'
              cases hlast'
              rw [hsink] at hsink'
              cases hsink'
            | true =>
              refine ⟨fun hnot ↦ absurd ⟨key, r, n, rfl, hlast, hsink⟩ hnot, fun heq ↦ ?_⟩
              cases heq
    | nil =>
      -- what is named is what the fill makes, and there both producers' keys are
      rw [List.nil_append]
      have hkeys : ∀ key r, (key, r) ∈ filledFor s d →
          (missingProducerKeys t key.destId key.table).isEmpty = true := fun key r hmem ↦ by
        rw [filledFor, List.mem_filter, Bool.and_eq_true, Bool.and_eq_true,
          Bool.and_eq_true] at hmem
        obtain ⟨hmem, ⟨⟨-, hkey⟩, -⟩, -⟩ := hmem
        obtain ⟨p, hp, hpk⟩ := List.mem_map.mp hmem
        obtain ⟨old, hold, src, hsrc, rfl⟩ := mem_pairs.mp (List.mem_filter.mp hp).1
        obtain ⟨holdmem, holdsource, -⟩ := mem_oldRecords.mp hold
        cases hpk
        refine (hmissing _ hkey).mpr fun src' _ ↦ .inr ?_
        rw [hasRecord, Table.isSome_lookup]
        have heq : (⟨oldPskSource, old.1.destId, old.1.table⟩ : SendKey) = old.1 := by
          rw [← holdsource]
        rw [heq]
        exact List.mem_map_of_mem holdmem
      have hnotelling : ¬ Telling ctx sink ([] : List (SendKey × SendRecord)) := by
        rintro ⟨_, _, _, hone, -⟩
        cases hone
      simp only [hnotelling, not_false_iff, true_and, true_implies]
      rcases hfilled : filledFor s d with _ | ⟨⟨key, r⟩, _ | ⟨y, l⟩⟩
      · exact absurd hfilled hF
      · dsimp only [verdict]
        cases hlast : lastId r.cursor with
        | none =>
          refine ⟨fun _ ↦ rfl, ?_⟩
          rintro - key' r' n hone hlast'
          cases hone
          rw [hlast] at hlast'
          cases hlast'
        | some n =>
          dsimp only
          rw [hkeys key r (by rw [hfilled]; exact List.mem_cons_self)]
          constructor
          · intro huntold
            rw [huntold key r n rfl hlast]
            rfl
          · rintro heq key' r' n' hone hlast'
            cases hone
            rw [hlast] at hlast'
            cases hlast'
            cases hsink : sinkHolds ctx sink n with
            | error e =>
              rw [hsink] at heq
              cases heq
            | ok held =>
              rw [hsink] at heq
              simpa [Except.map] using heq
      · refine ⟨fun _ ↦ rfl, fun _ _ _ _ hone ↦ ?_⟩
        cases hone

/-! ## The plan -/

theorem overflows_iff :
    Overflows ctx sink s d ↔ ∃ e, holds ctx sink assumeFilled s d = .error e := by
  rw [holds_eq_verdict]
  constructor
  · rintro ⟨key, r, n, e, hN, hlast, hsink⟩
    refine ⟨e, ?_⟩
    rw [hN, verdict, hlast]
    dsimp only
    rw [hsink]
    rfl
  · rintro ⟨e, he⟩
    rcases hN : namedRecords s d.sourceId d.destId d.table with _ | ⟨⟨key, r⟩, _ | ⟨y, l⟩⟩
    · rw [hN] at he
      cases he
    · rw [hN, verdict] at he
      cases hlast : lastId r.cursor with
      | none =>
        rw [hlast] at he
        cases he
      | some n =>
        rw [hlast] at he
        cases hsink : sinkHolds ctx sink n with
        | ok held =>
          dsimp only at he
          rw [hsink] at he
          cases he
        | error e' => exact ⟨key, r, n, e', hN, hlast, hsink⟩
    · rw [hN] at he
      cases he

theorem planRetries_of_overflows (assumeFilled : Bool) (hd : d ∈ oldRetries s)
    (h : Overflows ctx sink s d) : ∃ e, planRetries ctx sink assumeFilled s = .error e := by
  cases hplan : planRetries ctx sink assumeFilled s with
  | error e => exact ⟨e, rfl⟩
  | ok plan =>
    obtain ⟨a, -, ha⟩ := (planRetries_eq_ok hplan).2.1 d hd
    obtain ⟨held, hheld, -⟩ := planRetry_eq_ok ha
    obtain ⟨e, he⟩ := overflows_iff.mp h
    rw [he] at hheld
    cases hheld

theorem mapM_congr {α β : Type} {f g : α → Except Exn β} {xs : List α}
    (h : ∀ x ∈ xs, f x = g x) : xs.mapM f = xs.mapM g := by
  induction xs with
  | nil => rfl
  | cons x xs ih =>
    rw [List.mapM_cons, List.mapM_cons, h x List.mem_cons_self,
      ih fun y hy ↦ h y (List.mem_cons_of_mem x hy)]

theorem exists_mapM_eq_ok {α β : Type} {f : α → Except Exn β} {xs : List α}
    (h : ∀ x ∈ xs, ∃ y, f x = .ok y) : ∃ ys, xs.mapM f = .ok ys := by
  induction xs with
  | nil => exact ⟨[], rfl⟩
  | cons x xs ih =>
    obtain ⟨y, hy⟩ := h x List.mem_cons_self
    obtain ⟨ys, hys⟩ := ih fun z hz ↦ h z (List.mem_cons_of_mem x hz)
    exact ⟨y :: ys, by rw [List.mapM_cons, hy, hys]; rfl⟩

theorem planRetries_ok (h : ∀ d ∈ oldRetries s, ¬ Overflows ctx sink s d) (assumeFilled : Bool) :
    ∃ plan, planRetries ctx sink assumeFilled s = .ok plan := by
  refine exists_mapM_eq_ok fun d hd ↦ ?_
  rw [planRetry]
  cases hheld : holds ctx sink assumeFilled s d with
  | error e => exact absurd (overflows_iff.mpr ⟨e, hheld⟩) (h d hd)
  | ok held => exact ⟨_, rfl⟩

theorem actionFor_injective {a b : Bool} (h : actionFor ctx a = actionFor ctx b) : a = b := by
  have hne : actionFor ctx true ≠ actionFor ctx false := by
    rw [actionFor, actionFor, if_pos rfl, if_neg Bool.false_ne_true]
    cases ctx.keepRetryFor <;> rintro ⟨⟩
  cases a <;> cases b
  · rfl
  · exact absurd h.symm hne
  · exact absurd h hne
  · rfl

/-- Two plans for the same retries are one plan if and only if each retry is seen alike. -/
theorem plan_eq_iff {plan : List RetryAction} {b : Bool} (hretries : oldRetries t = oldRetries s)
    (hplan : planRetries ctx sink b s = .ok plan) :
    planRetries ctx sink assumeFilled t = .ok plan ↔
      ∀ d ∈ oldRetries s, holds ctx sink assumeFilled t d = holds ctx sink b s d := by
  constructor
  · intro hplan' d hd
    have hs := forall₂_of_mapM hplan
    have ht := forall₂_of_mapM hplan'
    rw [hretries] at ht
    have hboth : List.Forall₂ (fun d a ↦ planRetry ctx sink b s d = .ok a ∧
        planRetry ctx sink assumeFilled t d = .ok a) (oldRetries s) plan := by
      generalize oldRetries s = l at hs ht
      clear hplan hplan' hd hretries
      induction hs with
      | nil => exact .nil
      | cons hxy _ ih =>
        cases ht with
        | cons hxy' hrest => exact .cons ⟨hxy, hxy'⟩ (ih hrest)
    obtain ⟨a, -, ha, ha'⟩ := exists_of_forall₂ hboth d hd
    obtain ⟨held, hheld, rfl⟩ := planRetry_eq_ok ha
    obtain ⟨held', hheld', heq⟩ := planRetry_eq_ok ha'
    rw [hheld, hheld', actionFor_injective (RetryAction.mk.inj heq).2.2]
  · intro h
    rw [← hplan, planRetries, planRetries, hretries]
    refine mapM_congr fun d hd ↦ ?_
    rw [planRetry, planRetry, h d hd]

theorem oldRetries_prepared (o : Surroundings) (s : StoreFile π) :
    oldRetries (prepared o s) = oldRetries s := by
  rw [oldRetries, oldRetries, retries_prepared]

/-! ## The file -/

/-- A retry that does not stay is not as it was. -/
theorem retried_ne {plan : List RetryAction} (hkeyed : (s.retries.map Deliverable.id).Nodup)
    (hvalid : validate ctx = .ok ()) (hplan : planRetries ctx sink assumeFilled s = .ok plan)
    (h : ∃ a ∈ plan, a.action ≠ .stay) : (retried plan s).retries ≠ s.retries := by
  obtain ⟨a, ha, haction⟩ := h
  obtain ⟨d, hd, hplanned⟩ := (planRetries_eq_ok hplan).2.2 a ha
  obtain ⟨hmem, hold⟩ := mem_oldRetries.mp hd
  intro heq
  have hstill : d ∈ (retried plan s).retries := by rwa [heq]
  obtain ⟨hkeep, hheld⟩ := stayed_of_mem_retried hkeyed hvalid hplan hstill hold
  obtain ⟨held, hheld', rfl⟩ := planRetry_eq_ok hplanned
  rw [hheld] at hheld'
  cases hheld'
  exact haction (actionFor_of_none hkeep)

/-- What the transaction writes where there is something to do is another file. -/
theorem rewritten_ne {rep : MigrateReport} {plan : List RetryAction} (hkeyed : s.Keyed)
    (hvalid : validate ctx = .ok ()) (h : rewritten o ctx s = .ok (rep, t))
    (hplan : planRetries ctx o.sink false (prepared o s) = .ok plan)
    (hmore : s.userVersion < 3 ∨ (s.userVersion = 3 ∧ ∃ p ∈ pairs (oldRecords s),
      hasRecord s p.new = false) ∨ ∃ a ∈ plan, a.action ≠ .stay) : t ≠ s := by
  rw [rewritten] at h
  split at h
  · cases h
  rw [hplan] at h
  obtain ⟨-, rfl⟩ := Prod.mk.inj (Except.ok.inj h)
  obtain ⟨hwatermarks, -, hversion, -⟩ := watermarks_retried plan (prepared o s)
  intro heq
  rcases hmore with hv | ⟨hv, p, hp, hnone⟩ | hstay
  · rw [heq, (sameBut_prepared o s).userVersion, userVersion_upgraded] at hversion
    omega
  · rw [heq, watermarks_prepared, if_pos hv.le] at hwatermarks
    have hsome : (Table.lookup p.new
        (fillRecords (pairs (oldRecords s)) s.watermarks)).isSome := isSome_fillRecords hp
    rw [← hwatermarks, ← hasRecord, hnone] at hsome
    cases hsome
  · refine retried_ne ?_ hvalid hplan hstay ?_
    · rw [retries_prepared]
      exact hkeyed.deliverables
    · rw [heq, retries_prepared]

/-! ## The check and the migration -/

/-- A call of `migrate` none of whose statements fails from outside. -/
theorem run_migrate (ho : ∀ n, o.fails n = none) (hkeyed : s.Keyed) :
    (∀ rep t, migrated o ctx s = .ok (rep, t) →
      (migrate o ctx ⟨s, 0⟩).1 = .ok rep ∧ (migrate o ctx ⟨s, 0⟩).2.file = t) ∧
    ∀ e, migrated o ctx s = .error e →
      (migrate o ctx ⟨s, 0⟩).1 = .raised e ∧ (migrate o ctx ⟨s, 0⟩).2.file = s := by
  have hleaves : Leaves o (migrate o ctx) s (migrated o ctx s) := leaves_migrate hkeyed.watermarks
  have hrun := hleaves 0
  rw [wp] at hrun
  rcases hres : migrate o ctx ⟨s, 0⟩ with ⟨_ | _ | _ | _, c⟩
  · rw [hres] at hrun
    refine ⟨fun rep t h ↦ ?_, fun e h ↦ ?_⟩
    · rw [hrun] at h
      cases h
      exact ⟨rfl, rfl⟩
    · rw [hrun] at h
      cases h
  · rw [hres] at hrun
    obtain ⟨hfile, hfault | herror⟩ := hrun
    · obtain ⟨n, hn⟩ := hfault
      rw [ho n] at hn
      cases hn
    · refine ⟨fun rep t h ↦ ?_, fun e h ↦ ?_⟩
      · rw [herror] at h
        cases h
      · rw [herror] at h
        cases h
        exact ⟨rfl, hfile⟩
  · rw [hres] at hrun
    exact hrun.elim
  · rw [hres] at hrun
    exact hrun.elim

/-- Where both come to an answer, the check is right if and only if it is right about these. -/
theorem predicts_of_ok (ho : ∀ n, o.fails n = none) (hkeyed : s.Keyed) {said rep : MigrateReport}
    (hcheck : check ctx o.sink s = .ok said) (h : migrated o ctx s = .ok (rep, t)) :
    Predicts o ctx s ↔
      (said.wouldWrite ↔ t ≠ s) ∧ rep.lines = said.lines.map ReportLine.asDone := by
  obtain ⟨hvalue, hfile⟩ := (run_migrate ho hkeyed).1 rep t h
  rw [Predicts, hcheck]
  dsimp only
  rw [hvalue, hfile]
  refine and_congr_right fun _ ↦ ⟨?_, fun hlines ↦ ⟨rep, rfl, hlines⟩⟩
  rintro ⟨rep', hrep, hlines⟩
  cases hrep
  exact hlines

theorem retryLines_injective {b : Bool} {plan plan' : List RetryAction}
    (h : retryLines b plan = retryLines b plan') : plan = plan' :=
  List.map_injective_iff.mpr (fun _ _ h ↦ (ReportLine.retry.inj h).2) h

/-- Whether a check says that anything would be written. -/
theorem wouldWrite_iff {plan : List RetryAction} : (checkReport s plan).wouldWrite = true ↔
    s.userVersion < 3 ∨ (s.userVersion = 3 ∧ ∃ p ∈ pairs (oldRecords s),
      hasRecord s p.new = false) ∨ ∃ a ∈ plan, a.action ≠ .stay := by
  have hpending : (pendingVersions s.userVersion).isEmpty = false ↔ s.userVersion < 3 := by
    rw [pendingVersions, List.isEmpty_eq_false_iff, Ne, List.filter_eq_nil_iff]
    simp only [List.mem_cons, List.not_mem_nil, or_false, forall_eq_or_imp, forall_eq,
      decide_eq_true_eq]
    omega
  have hfill : s.userVersion = 3 → ((checkFill s).isEmpty = false ↔
      ∃ p ∈ pairs (oldRecords s), hasRecord s p.new = false) := fun hv ↦ by
    rw [checkFill, if_pos ⟨by omega, by omega⟩, fillLines, List.isEmpty_map,
      List.isEmpty_eq_false_iff, Ne, List.filter_eq_nil_iff]
    simp only [Bool.not_eq_true', not_forall, exists_prop, not_not, hasRecord]
  have hnone : 3 < s.userVersion → (checkFill s).isEmpty = true := fun hv ↦ by
    rw [checkFill, if_neg (by omega)]
    rfl
  rw [checkReport]
  simp only [Bool.or_eq_true, Bool.not_eq_true', List.any_eq_true, decide_eq_true_eq, hpending]
  rcases lt_trichotomy s.userVersion 3 with hv | hv | hv
  · simp [hv]
  · simp [hv, hfill hv]
  · simp [hnone hv, not_lt.mpr hv.le, hv.ne']

/-- Nothing is to be done where the check says nothing would be written. -/
theorem nothingToDo_iff {plan : List RetryAction} :
    nothingToDo s.userVersion plan s = true ↔ (checkReport s plan).wouldWrite = false := by
  rw [← Bool.not_eq_true, wouldWrite_iff, nothingToDo, migrations, previewFill, fills]
  rcases lt_trichotomy s.userVersion 3 with hv | hv | hv
  · simp [hv]
  · simp [hv, hasRecord]
  · have h1 : ¬ s.userVersion < 1 := by omega
    have h2 : ¬ s.userVersion < 2 := by omega
    simp [h1, h2, not_lt.mpr hv.le, not_le.mpr hv, hv.ne']

/-- **A retry that names the old source is seen alike.** -/
theorem agrees_of_oldSource (ctx : MigrateContext) (sink : SinkDb)
    (h : d.sourceId = "" ∨ d.sourceId = oldPskSource) : Agrees ctx sink s d := by
  have hsource : (if d.sourceId = "" then oldPskSource else d.sourceId) = oldPskSource := by
    rcases h with h | h
    · rw [if_pos h]
    · rw [h]
      exact ite_self _
  left
  constructor
  · rw [filledFor, List.filter_eq_nil_iff]
    intro x hx
    obtain ⟨p, hp, rfl⟩ := List.mem_map.mp hx
    obtain ⟨old, -, src, hsrc, rfl⟩ := mem_pairs.mp (List.mem_filter.mp hp).1
    rw [hsource, decide_eq_false (ne_oldPskSource hsrc)]
    nofun
  · intro key r n hnamed _ _ src _
    right
    have hmem : (key, r) ∈ namedRecords s d.sourceId d.destId d.table := by
      rw [hnamed]
      exact List.mem_cons_self
    rw [namedRecords, List.mem_filter, hsource, Bool.and_eq_true, Bool.and_eq_true,
      Bool.and_eq_true, decide_eq_true_iff] at hmem
    obtain ⟨hmem, ⟨⟨hkey, -⟩, -⟩, -⟩ := hmem
    rw [hasRecord, Table.isSome_lookup, ← hkey]
    exact List.mem_map_of_mem hmem

/-- The lines a check that is right gives. -/
theorem lines_of_predicts (h : Predicts o ctx s) (hcheck : (check ctx o.sink s).isOk) :
    (migrate o ctx ⟨s, 0⟩).1.value.map MigrateReport.lines =
      (check ctx o.sink s).toOption.map fun said ↦ said.lines.map ReportLine.asDone := by
  rw [Predicts] at h
  cases hsaid : check ctx o.sink s with
  | error e =>
    rw [hsaid] at hcheck
    cases hcheck
  | ok said =>
    rw [hsaid] at h
    obtain ⟨-, rep, hrep, hlines⟩ := h
    rw [hrep]
    exact congrArg some hlines

theorem check_of_ok {plan : List RetryAction} (hvalid : validate ctx = .ok ())
    (hplan : planRetries ctx sink (decide (s.userVersion ≤ 3)) s = .ok plan) :
    check ctx sink s = .ok (checkReport s plan) := by
  rw [check_eq, hvalid, hplan]
  rfl

theorem migrated_of_ok {plan : List RetryAction} (hvalid : validate ctx = .ok ())
    (hplan : planRetries ctx o.sink (fills s.userVersion) s = .ok plan) :
    migrated o ctx s = if nothingToDo s.userVersion plan s then
        .ok ({
          fromVersion := s.userVersion
          toVersion := s.userVersion
          lines := retryLines true plan }, s)
      else rewritten o ctx s := by
  rw [migrated, hvalid, hplan]
  rfl

/-- From version 3 on, the first plan of a migration is the check's. -/
theorem fills_of_le (hv : 3 ≤ s.userVersion) :
    fills s.userVersion = decide (s.userVersion ≤ 3) := by
  rw [fills, decide_eq_true (by omega), Bool.true_and]

/-- A file to which nothing is to be done: the check says so and names what stays. -/
theorem predicts_of_nothing {plan : List RetryAction} (ho : ∀ n, o.fails n = none)
    (hkeyed : s.Keyed) (hvalid : validate ctx = .ok ())
    (hnever : ∀ d ∈ oldRetries s, ¬ Overflows ctx o.sink s d)
    (hplan : planRetries ctx o.sink (decide (s.userVersion ≤ 3)) s = .ok plan)
    (hwrite : (checkReport s plan).wouldWrite = false) :
    Predicts o ctx s ∧ (s.userVersion < 3 → s.attempts.isSome) ∧
      (s.userVersion ≤ 3 → ∀ d ∈ oldRetries s, Agrees ctx o.sink s d) := by
  have hnot : ¬ (checkReport s plan).wouldWrite = true := by
    rw [hwrite]
    exact Bool.false_ne_true
  rw [wouldWrite_iff, not_or, not_or] at hnot
  obtain ⟨hpending, hfill, hstay⟩ := hnot
  have hthere : s.userVersion = 3 → ∀ p ∈ pairs (oldRecords s), hasRecord s p.new := by
    intro hv p hp
    by_contra hnone
    exact hfill ⟨hv, p, hp, by simpa using hnone⟩
  refine ⟨?_, fun hv ↦ absurd hv hpending, fun hv d hd ↦ ?_⟩
  · have hfirst := hplan
    rw [← fills_of_le (not_lt.mp hpending)] at hfirst
    have hrun := migrated_of_ok hvalid hfirst
    rw [if_pos (nothingToDo_iff.mpr hwrite)] at hrun
    rw [predicts_of_ok ho hkeyed (check_of_ok hvalid hplan) hrun, hwrite]
    refine ⟨by simp, ?_⟩
    have hlines := map_asDone_lines o s plan
    have hupgrade : upgradeLines true s = [] := by
      rw [upgradeLines, if_neg (by omega), if_neg hpending]
      rfl
    have hprepared : preparedLines o s = [] := by
      have h2 : ¬ s.userVersion < 2 := by omega
      rw [preparedLines, oldRecords_upgraded, watermarks_upgraded, if_neg h2]
      split
      · refine List.map_eq_nil_iff.mpr (List.filter_eq_nil_iff.mpr fun p hp ↦ ?_)
        have hsome := hthere (by omega) p hp
        rw [hasRecord] at hsome
        rw [hsome]
        exact Bool.false_ne_true
      · rfl
    rw [hupgrade, hprepared, List.nil_append, List.nil_append] at hlines
    exact hlines.symm
  · have h3 : s.userVersion = 3 := by omega
    have hrecords : s.watermarks = fillRecords (pairs (oldRecords s)) s.watermarks :=
      (fillRecords_of_isSome (hthere h3)).symm
    rw [agrees_iff hkeyed.watermarks hrecords (hnever d hd)]
    obtain ⟨a, ha, hplanned⟩ := (planRetries_eq_ok hplan).2.1 d hd
    obtain ⟨held, hheld, rfl⟩ := planRetry_eq_ok hplanned
    have haction : actionFor ctx held = .stay := by
      by_contra hne
      exact hstay ⟨_, ha, hne⟩
    cases held with
    | true =>
      rw [actionFor, if_pos rfl] at haction
      cases haction
    | false =>
      rw [decide_eq_true hv] at hheld
      rw [hheld]
      cases hreal : holds ctx o.sink false s d with
      | error e => exact absurd (overflows_iff.mpr ⟨e, hreal⟩) (hnever d hd)
      | ok held =>
        cases held with
        | false => rfl
        | true =>
          -- what may be deleted as it stands may be deleted with the keys filled in
          obtain ⟨key, r, n, hnamed, hlast, hsink, -⟩ := holds_eq_true.mp hreal
          rw [holds_eq_true.mpr ⟨key, r, n, hnamed, hlast, hsink, .inl rfl⟩] at hheld
          cases hheld

/-- A file of which the check says that it would be written. -/
theorem predicts_of_write {plan : List RetryAction} (ho : ∀ n, o.fails n = none)
    (hkeyed : s.Keyed) (hvalid : validate ctx = .ok ())
    (hnever : ∀ d ∈ oldRetries s, ¬ Overflows ctx o.sink s d)
    (hplan : planRetries ctx o.sink (decide (s.userVersion ≤ 3)) s = .ok plan)
    (hwrite : (checkReport s plan).wouldWrite = true) :
    Predicts o ctx s ↔ (s.userVersion < 3 → s.attempts.isSome) ∧
      (s.userVersion ≤ 3 → ∀ d ∈ oldRetries s, Agrees ctx o.sink s d) := by
  have hrun : migrated o ctx s = rewritten o ctx s := by
    obtain ⟨first, hfirst⟩ := planRetries_ok hnever (fills s.userVersion)
    rw [migrated_of_ok hvalid hfirst, if_neg]
    rw [nothingToDo_iff]
    rcases lt_or_ge s.userVersion 3 with hv | hv
    · rw [wouldWrite_iff.mpr (.inl hv)]
      nofun
    · rw [fills_of_le hv, hplan] at hfirst
      cases hfirst
      rw [hwrite]
      nofun
  have hsame : (s.userVersion ≤ 3 → ∀ d ∈ oldRetries s, Agrees ctx o.sink s d) ↔
      planRetries ctx o.sink false (prepared o s) = .ok plan := by
    rw [plan_eq_iff (oldRetries_prepared o s) hplan]
    by_cases hv : s.userVersion ≤ 3
    · have hrecords : (prepared o s).watermarks =
          fillRecords (pairs (oldRecords s)) s.watermarks := by
        rw [watermarks_prepared, if_pos hv]
      rw [decide_eq_true hv]
      simp only [hv, true_implies]
      exact forall₂_congr fun d hd ↦ agrees_iff hkeyed.watermarks hrecords (hnever d hd)
    · rw [decide_eq_false hv]
      simp only [hv, false_implies, true_iff]
      intro d _
      exact holds_congr (by rw [watermarks_prepared, if_neg hv]) d
  rw [hsame]
  by_cases hattempts : s.userVersion < 3 ∧ s.attempts = none
  · -- the migration raises over the missing table
    refine iff_of_false (fun h ↦ ?_) fun h ↦ ?_
    · rw [rewritten, if_pos hattempts] at hrun
      rw [Predicts, check_of_ok hvalid hplan] at h
      obtain ⟨-, rep, hrep, -⟩ := h
      rw [((run_migrate ho hkeyed).2 _ hrun).1] at hrep
      cases hrep
    · have hsome := h.1 hattempts.1
      rw [hattempts.2] at hsome
      cases hsome
  · have hsome : s.userVersion < 3 → s.attempts.isSome := fun hv ↦ by
      rw [Option.isSome_iff_ne_none]
      exact fun hnone ↦ hattempts ⟨hv, hnone⟩
    refine ⟨fun h ↦ ⟨hsome, ?_⟩, fun h ↦ ?_⟩
    · cases hreal : planRetries ctx o.sink false (prepared o s) with
      | error e =>
        rw [rewritten, if_neg hattempts, hreal] at hrun
        rw [Predicts, check_of_ok hvalid hplan] at h
        obtain ⟨-, rep, hrep, -⟩ := h
        rw [((run_migrate ho hkeyed).2 _ hrun).1] at hrep
        cases hrep
      | ok real =>
        rw [rewritten, if_neg hattempts, hreal] at hrun
        have hlines := ((predicts_of_ok ho hkeyed (check_of_ok hvalid hplan) hrun).mp h).2
        rw [migratedReport, checkReport, map_asDone_lines o s plan] at hlines
        rw [retryLines_injective (List.append_cancel_left hlines)]
    · have hwritten := hrun
      rw [rewritten, if_neg hattempts, h.2] at hwritten
      rw [predicts_of_ok ho hkeyed (check_of_ok hvalid hplan) hwritten, hwrite]
      refine ⟨iff_of_true rfl ?_, ?_⟩
      · exact rewritten_ne hkeyed hvalid (hrun.symm.trans hwritten) h.2 (wouldWrite_iff.mp hwrite)
      · rw [checkReport, map_asDone_lines o s plan]
        rfl

end check

/-- **When a check is right.**  On a file whose keys are keys, where no statement of the migration
fails from outside. -/
theorem check_predicts_iff (o : Surroundings) (ho : ∀ n, o.fails n = none) (ctx : MigrateContext)
    (s : StoreFile π) (hkeyed : s.Keyed) : Predicts o ctx s ↔ Foretold ctx o.sink s := by
  have hcheck := check_eq ctx o.sink s
  cases hvalid : validate ctx with
  | error e =>
    -- both refuse the context
    rw [hvalid] at hcheck
    have hrun : migrated o ctx s = .error e := by
      rw [migrated, hvalid]
      rfl
    obtain ⟨hraised, hfile⟩ := (run_migrate ho hkeyed).2 e hrun
    refine ⟨fun _ ↦ .inl ⟨e, hvalid⟩, fun _ ↦ ?_⟩
    rw [Predicts, hcheck]
    exact ⟨⟨e, hraised⟩, hfile⟩
  | ok u =>
    cases u
    rw [hvalid] at hcheck
    by_cases hover : ∃ d ∈ oldRetries s, Overflows ctx o.sink s d
    · -- both raise over the position
      refine ⟨fun _ ↦ .inr (.inl hover), fun _ ↦ ?_⟩
      obtain ⟨d, hd, hd'⟩ := hover
      obtain ⟨e, he⟩ := planRetries_of_overflows (decide (s.userVersion ≤ 3)) hd hd'
      obtain ⟨e', he'⟩ := planRetries_of_overflows (fills s.userVersion) hd hd'
      have hrun : migrated o ctx s = .error e' := by
        rw [migrated, hvalid, he']
        rfl
      obtain ⟨hraised, hfile⟩ := (run_migrate ho hkeyed).2 e' hrun
      rw [he] at hcheck
      rw [Predicts, hcheck]
      exact ⟨⟨e', hraised⟩, hfile⟩
    · have hnever : ∀ d ∈ oldRetries s, ¬ Overflows ctx o.sink s d := fun d hd h ↦ hover ⟨d, hd, h⟩
      obtain ⟨plan, hplan⟩ := planRetries_ok hnever (decide (s.userVersion ≤ 3))
      have hforetold : Foretold ctx o.sink s ↔ (s.userVersion < 3 → s.attempts.isSome) ∧
          (s.userVersion ≤ 3 → ∀ d ∈ oldRetries s, Agrees ctx o.sink s d) := by
        rw [Foretold, hvalid]
        simp [hover]
      rw [hforetold]
      rw [hplan] at hcheck
      cases hwrite : (checkReport s plan).wouldWrite with
      | false =>
        obtain ⟨hpredicts, hright⟩ := predicts_of_nothing ho hkeyed hvalid hnever hplan hwrite
        exact iff_of_true hpredicts hright
      | true => exact predicts_of_write ho hkeyed hvalid hnever hplan hwrite

theorem check_predicts_iff_sharedRecord :
    Predicts sharedRecordSink { sinkPath := some "/tmp/sink.db" } sharedRecordFile := by
  have hkeyed : sharedRecordFile.Keyed := ⟨by decide, by decide⟩
  have hsome : sharedRecordFile.attempts.isSome := by decide
  have hsource : ∀ d ∈ oldRetries sharedRecordFile, d.sourceId = oldPskSource := fun d hd ↦ by
    rw [List.mem_singleton.mp (mem_oldRetries.mp hd).1]
  have hfails : ∀ n, sharedRecordSink.fails n = none := fun _ ↦ rfl
  generalize sharedRecordFile = s at *
  generalize sharedRecordSink = o at *
  exact (check_predicts_iff o hfails _ s hkeyed).mpr (.inr (.inr
    ⟨fun _ ↦ hsome, fun _ d hd ↦ agrees_of_oldSource _ _ (.inr (hsource d hd))⟩))

/-- A retry of another source than the shared one, with its own send record. -/
def otherSourceFile : StoreFile ℕ where
  userVersion := 3
  watermarks := [(⟨"sqlite:psk.spots@psk-recorder/rx1", "pskreporter:report", "spots"⟩,
    ⟨.blob (.ofInt 5), 0⟩)]
  deliverables := some [{
    id := 1, pipeline := oldPskreporterPipeline, payloadBlob := 0, enqueuedAt := 0
    attempts := 0, nextAttemptAt := 0, sourceId := "sqlite:psk.spots@psk-recorder/rx1"
    destId := "pskreporter:report", table := "spots", cursorAfter := .ofInt 7 }]
  deadLetter := []
  attempts := some (["ts", "pipeline", "client"], [])
  lastSend := some []
  supersededKeys := none

/-- The check says that the retry would be deleted; the migration leaves it where it stands. -/
theorem check_says_delete :
    ¬ ∀ (o : Surroundings) (ctx : MigrateContext) (s : StoreFile ℕ), (∀ n, o.fails n = none) →
      s.Keyed → Predicts o ctx s := by
  intro h
  have hlines := lines_of_predicts
    (h { sink := .holding [4] } { sinkPath := some "/tmp/sink.db" } otherSourceFile (fun _ ↦ rfl)
      ⟨by decide, by decide⟩) (by decide)
  revert hlines
  decide

end Schema

end HsUploader
