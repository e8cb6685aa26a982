import HsUploader.Sink.Writer

/-!
# The switch check of a writer

`_judge` goes through a batch row by row and asks for each producer once.  `JudgedAs` says what the
loop has come to after the rows it has seen; from it follow the rows that are kept and what is
counted.  A check that fails leaves no trace but the line it logs.

## What is here

* `verdictOn` and `isOff` — what asking for a producer comes to, and the rows of one that reads off.
* `JudgedAs`, `JudgedAs.step`, `JudgedAs.run` — the loop of the check, row by row.
* `LeavesOut` and `CheckFails` — the two conditions, on what the check finds and not on what it
  does.
* `judge_drops_off_rows` — the rows kept, their order, the counts, and the case of a failure.
* `stores_without_library` — a recorder in a venv of its own.
-/

set_option autoImplicit false

namespace HsUploader

/-- How many rows of a producer have been dropped. -/
def WriterState.count (s : WriterState) (p : String) : ℕ := (Table.lookup p s.dropped).getD 0

/-- The producer is one of those that are counted. -/
def WriterState.tracks (s : WriterState) (p : String) : Bool := (Table.lookup p s.dropping).isSome

namespace Writer

variable {w : Writer} {v : SwitchView} {enforced : Bool}

/-! ## A producer -/

/-- What asking for a producer comes to. -/
def verdictOn (v : SwitchView) (enforced : Bool) (producer : String) : Except Exn Bool :=
  if enforced then readsOff v producer else .ok false

/-- The row's producer reads off. -/
def isOff (w : Writer) (v : SwitchView) (enforced : Bool) (row : PyObj) : Bool :=
  match verdictOn v enforced (w.producerOf row) with
  | .ok drop => drop
  | .error _ => false

theorem readsOff_eq_true {producer : String} :
    readsOff v producer = .ok true ↔ Daemon.validClientName producer = true ∧
      ∃ file site, v.files producer = .ok (file, site) ∧ file.missing = false ∧
        (effectiveState producer file site).state = .off := by
  rw [readsOff]
  split
  · rename_i hname
    have hvalid : Daemon.validClientName producer = false := by
      rcases Bool.or_eq_true_iff.mp hname with hempty | hvalid
      · rw [of_decide_eq_true hempty]
        rfl
      · simpa using hvalid
    simp [hvalid]
  · rename_i hname
    have hvalid : Daemon.validClientName producer = true := by
      simpa using (not_or.mp (mt Bool.or_eq_true_iff.mpr hname)).2
    have hmissing : ∀ file site : SwitchRead,
        (effectiveState producer file site).clientMissing = file.missing := fun file site ↦ by
      rw [effectiveState, hvalid]
      rfl
    cases hfiles : v.files producer with
    | error e => simp [bind, Except.bind]
    | ok r =>
      obtain ⟨file, site⟩ := r
      simp only [bind, Except.bind, hmissing, hvalid, true_and]
      cases hm : file.missing <;> simp [hm]

theorem readsOff_eq_error {producer : String} {e : Exn} :
    readsOff v producer = .error e ↔
      Daemon.validClientName producer = true ∧ v.files producer = .error e := by
  rw [readsOff]
  split
  · rename_i hname
    have hvalid : Daemon.validClientName producer = false := by
      rcases Bool.or_eq_true_iff.mp hname with hempty | hvalid
      · rw [of_decide_eq_true hempty]
        rfl
      · simpa using hvalid
    simp [hvalid]
  · rename_i hname
    have hvalid : Daemon.validClientName producer = true := by
      simpa using (not_or.mp (mt Bool.or_eq_true_iff.mpr hname)).2
    cases hfiles : v.files producer with
    | error e => simp [bind, Except.bind, hvalid]
    | ok r => simp [bind, Except.bind]

/-! ## A batch -/

/-- What the loop has come to after these rows. -/
structure JudgedAs (w : Writer) (v : SwitchView) (enforced : Bool) (seen : List PyObj)
    (j : Judged) : Prop where
  verdict : ∀ p drop, Table.lookup p j.verdict = some drop → verdictOn v enforced p = .ok drop
  judged : ∀ r ∈ seen, ∃ drop, verdictOn v enforced (w.producerOf r) = .ok drop
  kept : j.kept = seen.filter fun r ↦ !w.isOff v enforced r
  drops : ∀ p, (Table.lookup p j.drops).getD 0 =
    seen.countP fun r ↦ w.isOff v enforced r && w.producerOf r = p
  nodup : (j.drops.map Prod.fst).Nodup

theorem judgedAs_nil : JudgedAs w v enforced [] {} where
  verdict _ _ h := nomatch h
  judged _ h := nomatch h
  kept := rfl
  drops _ := rfl
  nodup := List.nodup_nil

/-- The verdict on a producer, asked for or remembered. -/
theorem JudgedAs.ask {seen : List PyObj} {j : Judged} (h : JudgedAs w v enforced seen j)
    (p : String) : Writer.ask v enforced j.verdict p = verdictOn v enforced p := by
  rw [Writer.ask]
  split
  · rename_i drop hlook
    exact (h.verdict p drop hlook).symm
  · rfl

/-- **One row.** -/
theorem JudgedAs.step {seen : List PyObj} {j : Judged} (h : JudgedAs w v enforced seen j)
    (row : PyObj) :
    (∃ e, verdictOn v enforced (w.producerOf row) = .error e ∧
        w.judgeRow v enforced j row = .error e) ∨
      ∃ j', w.judgeRow v enforced j row = .ok j' ∧
        JudgedAs w v enforced (seen ++ [row]) j' := by
  rw [judgeRow]
  dsimp only
  rw [h.ask]
  cases hv : verdictOn v enforced (w.producerOf row) with
  | error e => exact .inl ⟨e, rfl, rfl⟩
  | ok drop =>
    refine .inr ?_
    have hoff : w.isOff v enforced row = drop := by rw [isOff, hv]
    have hverdict : ∀ p b, Table.lookup p (Table.upsert (w.producerOf row) drop j.verdict) =
        some b → verdictOn v enforced p = .ok b := by
      intro p b hb
      rw [Table.lookup_upsert] at hb
      split at hb
      · rename_i hp
        cases hb
        rw [hp, hv]
      · exact h.verdict p b hb
    have hjudged : ∀ r ∈ seen ++ [row], ∃ b, verdictOn v enforced (w.producerOf r) = .ok b := by
      intro r hr
      rcases List.mem_append.mp hr with hr | hr
      · exact h.judged r hr
      · rw [List.mem_singleton.mp hr]
        exact ⟨drop, hv⟩
    cases drop with
    | true =>
      refine ⟨_, rfl, hverdict, hjudged, ?_, fun p ↦ ?_, Table.nodup_map_fst_upsert h.nodup⟩
      · rw [List.filter_append, ← h.kept]
        simp [hoff]
      · rw [List.countP_append, ← h.drops, Table.lookup_upsert]
        split
        · rename_i hp
          rw [hp]
          simp [hoff]
        · rename_i hp
          simp [hoff, Ne.symm hp]
    | false =>
      refine ⟨_, rfl, hverdict, hjudged, ?_, fun p ↦ ?_, h.nodup⟩
      · rw [List.filter_append, ← h.kept]
        simp [hoff]
      · rw [List.countP_append, ← h.drops]
        simp [hoff]

/-- **The loop**: it stops at the first producer that cannot be asked for. -/
theorem JudgedAs.run {seen : List PyObj} {j : Judged} (h : JudgedAs w v enforced seen j)
    (rows : List PyObj) :
    (∃ e, rows.foldlM (w.judgeRow v enforced) j = .error e ∧
        ∃ r ∈ rows, ∃ e', verdictOn v enforced (w.producerOf r) = .error e') ∨
      ∃ j', rows.foldlM (w.judgeRow v enforced) j = .ok j' ∧
        JudgedAs w v enforced (seen ++ rows) j' := by
  induction rows generalizing seen j with
  | nil => exact .inr ⟨j, rfl, by rwa [List.append_nil]⟩
  | cons row rows ih =>
    rw [List.foldlM_cons]
    rcases h.step row with ⟨e, hv, hstep⟩ | ⟨j', hstep, hj'⟩
    · rw [hstep]
      exact .inl ⟨e, rfl, row, List.mem_cons_self, e, hv⟩
    · rw [hstep]
      rcases ih hj' with ⟨e, hrun, r, hr, hbad⟩ | ⟨j'', hrun, hj''⟩
      · exact .inl ⟨e, hrun, r, List.mem_cons_of_mem _ hr, hbad⟩
      · refine .inr ⟨j'', hrun, ?_⟩
        rwa [List.append_assoc] at hj''

/-! ## The counts -/

theorem dropped_noteVerdict (s : WriterState) (producer : String) (drop : Bool) :
    (noteVerdict s producer drop).dropped = s.dropped := by
  rw [noteVerdict]
  repeat' split
  all_goals rfl

theorem dropped_noteVerdicts (verdict : List (String × Bool)) (s : WriterState) :
    (verdict.foldl (fun s p ↦ noteVerdict s p.1 p.2) s).dropped = s.dropped := by
  induction verdict generalizing s with
  | nil => rfl
  | cons p verdict ih => rw [List.foldl_cons, ih, dropped_noteVerdict]

theorem dropping_countDrops (s : WriterState) (producer : String) (n : ℕ) :
    (countDrops s producer n).dropping = s.dropping := by
  rw [countDrops]
  split <;> rfl

theorem dropping_countAll (drops : List (String × ℕ)) (s : WriterState) :
    (drops.foldl (fun s p ↦ countDrops s p.1 p.2) s).dropping = s.dropping := by
  induction drops generalizing s with
  | nil => rfl
  | cons p drops ih => rw [List.foldl_cons, ih, dropping_countDrops]

theorem tracks_countDrops (s : WriterState) (producer : String) (n : ℕ) (p : String) :
    (countDrops s producer n).tracks p = s.tracks p := by
  rw [WriterState.tracks, dropping_countDrops, WriterState.tracks]

theorem count_countDrops (s : WriterState) (producer : String) (n : ℕ) (p : String) :
    (countDrops s producer n).count p =
      s.count p + if p = producer ∧ s.tracks p = true then n else 0 := by
  rw [countDrops, WriterState.count, WriterState.count, WriterState.tracks]
  by_cases hp : p = producer
  · subst hp
    cases (Table.lookup p s.dropping).isSome <;> simp
  · simp only [hp, false_and, if_false, add_zero]
    split
    · rw [Table.lookup_upsert_of_ne _ _ hp]
    · rfl

theorem count_countAll {drops : List (String × ℕ)} (hn : (drops.map Prod.fst).Nodup)
    (s : WriterState) (p : String) :
    (drops.foldl (fun s p ↦ countDrops s p.1 p.2) s).count p =
      s.count p + if s.tracks p = true then (Table.lookup p drops).getD 0 else 0 := by
  induction drops generalizing s with
  | nil => simp
  | cons d drops ih =>
    obtain ⟨producer, n⟩ := d
    rw [List.map_cons, List.nodup_cons] at hn
    rw [List.foldl_cons, ih hn.2, count_countDrops, tracks_countDrops, Table.lookup]
    by_cases hp : producer = p
    · subst hp
      rw [Table.lookup_eq_none_of_not_mem hn.1]
      simp
    · rw [if_neg hp, if_neg fun h ↦ hp h.1.symm, add_zero]

/-! ## What is left out -/

/-- The row's client is switched off: the writer is not local, the library is there, the marker
stands, and the client has a switch file and the effective state `off`. -/
def LeavesOut (w : Writer) (v : SwitchView) (row : PyObj) : Prop :=
  w.isLocal = false ∧ v.library = true ∧ v.marker = .ok true ∧
    Daemon.validClientName (w.producerOf row) = true ∧
      ∃ file site, v.files (w.producerOf row) = .ok (file, site) ∧ file.missing = false ∧
        (effectiveState (w.producerOf row) file site).state = .off

theorem leavesOut_iff {row : PyObj} : w.LeavesOut v row ↔
    w.isLocal = false ∧ v.library = true ∧ v.marker = .ok true ∧
      w.isOff v true row = true := by
  rw [LeavesOut, ← readsOff_eq_true, isOff, verdictOn, if_pos rfl]
  cases readsOff v (w.producerOf row) <;> simp

instance (w : Writer) (v : SwitchView) : DecidablePred (w.LeavesOut v) := fun _ ↦
  decidable_of_iff _ leavesOut_iff.symm

/-- The check raises: at the marker, or at the files of some row's client. -/
def CheckFails (w : Writer) (v : SwitchView) (rows : List PyObj) : Prop :=
  w.isLocal = false ∧ v.library = true ∧
    ((∃ e, v.marker = .error e) ∨ v.marker = .ok true ∧ ∃ row ∈ rows,
      Daemon.validClientName (w.producerOf row) = true ∧
        ∃ e, v.files (w.producerOf row) = .error e)

theorem checkFails_of_verdictOn {rows : List PyObj} {row : PyObj} {e : Exn}
    (hlocal : w.isLocal = false) (hlib : v.library = true) (hmarker : v.marker = .ok enforced)
    (hrow : row ∈ rows) (h : verdictOn v enforced (w.producerOf row) = .error e) :
    w.CheckFails v rows := by
  rw [verdictOn] at h
  split at h
  · rename_i henforced
    subst henforced
    obtain ⟨hname, hfiles⟩ := readsOff_eq_error.mp h
    exact ⟨hlocal, hlib, .inr ⟨hmarker, row, hrow, hname, e, hfiles⟩⟩
  · cases h

/-- Where nothing is enforced nobody is off. -/
theorem isOff_of_not_enforced (row : PyObj) : w.isOff v false row = false := rfl

/-- What one call of the judge does: a check that raises keeps every row and every count, and one
that ends keeps the rows that `LeavesOut` does not name and counts the others. -/
theorem judge_outcome (w : Writer) (v : SwitchView) (rows : List PyObj) (s : WriterState) :
    (w.CheckFails v rows → (w.judge v rows s).1 = rows ∧
      (w.judge v rows s).2.dropped = s.dropped ∧ (w.judge v rows s).2.dropping = s.dropping) ∧
    (¬ w.CheckFails v rows →
      (w.judge v rows s).1 = rows.filter (fun row ↦ ¬ w.LeavesOut v row) ∧
      ∀ p, (w.judge v rows s).2.count p = s.count p +
        if (w.judge v rows s).2.tracks p = true then
          rows.countP fun row ↦ w.LeavesOut v row ∧ w.producerOf row = p
        else 0) := by
  have hfailure : ∀ (now : ℚ) (e : Exn), (noteFailure s now e).dropped = s.dropped ∧
      (noteFailure s now e).dropping = s.dropping := fun now e ↦ by
    rw [noteFailure]
    repeat' split
    all_goals exact ⟨rfl, rfl⟩
  have hnone : (∀ row ∈ rows, ¬ w.LeavesOut v row) →
      rows.filter (fun row ↦ ¬ w.LeavesOut v row) = rows ∧
        ∀ p, (rows.countP fun row ↦ w.LeavesOut v row ∧ w.producerOf row = p) = 0 := fun h ↦
    ⟨List.filter_eq_self.mpr fun row hrow ↦ decide_eq_true (h row hrow),
      fun p ↦ List.countP_eq_zero.mpr fun row hrow hcount ↦
        h row hrow (of_decide_eq_true hcount).1⟩
  rw [judge]
  split
  · rename_i hoff
    rw [Bool.or_eq_true, Bool.not_eq_true'] at hoff
    have hleaves : ∀ row ∈ rows, ¬ w.LeavesOut v row := fun row _ h ↦ by
      rcases hoff with hoff | hoff
      · rw [h.1] at hoff
        cases hoff
      · rw [h.2.1] at hoff
        cases hoff
    refine ⟨fun h ↦ ⟨rfl, rfl, rfl⟩, fun _ ↦ ⟨(hnone hleaves).1.symm, fun p ↦ ?_⟩⟩
    rw [(hnone hleaves).2 p]
    simp
  · rename_i hon
    have hlocal : w.isLocal = false := by
      cases hl : w.isLocal <;> simp_all
    have hlib : v.library = true := by
      cases hl : v.library <;> simp_all
    split
    · rename_i e hmarker
      exact ⟨fun _ ↦ ⟨rfl, hfailure _ _⟩,
        fun h ↦ (h ⟨hlocal, hlib, .inl ⟨e, hmarker⟩⟩).elim⟩
    · rename_i enforced hmarker
      have hleaves : ∀ row, w.LeavesOut v row ↔ w.isOff v enforced row = true := fun row ↦ by
        rw [leavesOut_iff, hmarker]
        cases enforced <;> simp [hlocal, hlib, isOff_of_not_enforced]
      split
      · rename_i hskip
        have henforced : enforced = false := by
          cases henf : enforced <;> simp_all
        subst henforced
        have hall : ∀ row ∈ rows, ¬ w.LeavesOut v row := fun row _ h ↦ by
          rw [hleaves, isOff_of_not_enforced] at h
          cases h
        refine ⟨fun h ↦ ⟨rfl, rfl, rfl⟩, fun _ ↦ ⟨(hnone hall).1.symm, fun p ↦ ?_⟩⟩
        rw [(hnone hall).2 p]
        simp
      · have hstart : JudgedAs w v enforced [] {} := judgedAs_nil
        rcases hstart.run rows with
          ⟨e, hrun, row, hrow, e', hbad⟩ | ⟨j, hrun, hj⟩
        · rw [hrun]
          exact ⟨fun _ ↦ ⟨rfl, hfailure _ _⟩,
            fun h ↦ (h (checkFails_of_verdictOn hlocal hlib hmarker hrow hbad)).elim⟩
        · rw [hrun]
          rw [List.nil_append] at hj
          dsimp only
          constructor
          · rintro ⟨-, -, ⟨e, he⟩ | ⟨hstands, row, hrow, hname, e, he⟩⟩
            · rw [hmarker] at he
              cases he
            · obtain ⟨drop, hdrop⟩ := hj.judged row hrow
              rw [hmarker] at hstands
              cases hstands
              rw [verdictOn, if_pos rfl, readsOff_eq_error.mpr ⟨hname, he⟩] at hdrop
              cases hdrop
          · intro _
            constructor
            · rw [hj.kept]
              refine List.filter_congr fun row _ ↦ ?_
              simp [hleaves]
            · intro p
              rw [count_countAll hj.nodup, hj.drops, WriterState.tracks, WriterState.tracks,
                dropping_countAll, WriterState.count, dropped_noteVerdicts, ← WriterState.count]
              congr 2
              refine List.countP_congr fun row _ ↦ ?_
              simp [hleaves]

/-- Without the library the judge gives back the rows and the state as they are. -/
theorem judge_of_no_library (hlib : v.library = false) (rows : List PyObj) (s : WriterState) :
    w.judge v rows s = (rows, s) := by
  rw [judge, hlib, Bool.not_false, Bool.or_true, if_pos rfl]

/-- **The writer drops the rows whose switch reads off**, in a venv that has the switch library.
What is kept keeps its order, the rows dropped of a client that is counted are counted, and a check
that raises keeps every row and no verdict.  In a venv that lacks the library nothing changes. -/
theorem judge_drops_off_rows (w : Writer) (v : SwitchView) (rows : List PyObj) (s : WriterState) :
    (w.CheckFails v rows → (w.judge v rows s).1 = rows ∧
      (w.judge v rows s).2.dropped = s.dropped ∧ (w.judge v rows s).2.dropping = s.dropping) ∧
    (¬ w.CheckFails v rows →
      (w.judge v rows s).1 = rows.filter (fun row ↦ ¬ w.LeavesOut v row) ∧
      ∀ p, (w.judge v rows s).2.count p = s.count p +
        if (w.judge v rows s).2.tracks p = true then
          rows.countP fun row ↦ w.LeavesOut v row ∧ w.producerOf row = p
        else 0) ∧
    (v.library = false → w.judge v rows s = (rows, s)) :=
  ⟨(w.judge_outcome v rows s).1, (w.judge_outcome v rows s).2,
    fun hlib ↦ judge_of_no_library hlib rows s⟩

/-- **Without the library nothing is enforced.**  A recorder's venv without `hs_uploader` stores a
row although the marker stands and its client's switch file says `off`. -/
theorem stores_without_library :
    ¬ ∀ (w : Writer) (v : SwitchView) (rows : List PyObj) (s : WriterState),
      (∀ p e, v.files p ≠ .error e) → (∀ e, v.marker ≠ .error e) →
      ∀ row ∈ rows, row ∉ (w.judge v rows s).1 ↔
        w.isLocal = false ∧ v.marker = .ok true ∧
          Daemon.validClientName (w.producerOf row) = true ∧
            ∃ file site, v.files (w.producerOf row) = .ok (file, site) ∧ file.missing = false ∧
              (effectiveState (w.producerOf row) file site).state = .off := by
  intro hevery
  let file : SwitchRead := SwitchFile.read "sinks/wspr-recorder.toml" (.holding (some (.str "off")))
  let site : SwitchRead := SwitchFile.read "sinks/site.toml" .missing
  have hiff := hevery { database := "wspr", table := "spots", config := some "/tmp/sink.db" }
    { library := false, marker := .ok true, files := fun _ ↦ .ok (file, site) }
    [.dict []] { health := .ok, lastFlushMonotonic := 0 } (fun _ _ h ↦ nomatch h)
    (fun _ h ↦ nomatch h) (.dict []) (List.mem_singleton.mpr rfl)
  exact hiff.mpr ⟨rfl, rfl, by decide +kernel, file, site, rfl, rfl, by decide +kernel⟩
    (List.mem_singleton.mpr rfl)

end Writer

end HsUploader
