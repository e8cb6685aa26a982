import HsUploader.Watermark.Migrated

/-!
# A migration preserves the record

`migrated` says what a call of `migrate` comes to: the file with the migrations above its version
made, the missing producer keys filled in, and the retries under the old name as the plan has them.
A call that fails leaves the file as it was.  `migrate_preserves` reads off what is kept, and that a
second call changes nothing.

## The steps of the argument

The statements of a migration are put together from three passes, and each has its own definition
here: the migrations and the fill of the producers' keys (`prepared`), and the pass over the retries
under the old name (`retried`), by the plan.  `leaves_migrate` says that a call
comes to all of them or to nothing, as every statement of it is in one transaction.

`Preserves` is what is kept, clause by clause.  A record of the new producers is a copy of one
that was there, and a retry is let go only where its rows may be read again (`Rereadable`).  A
second call plans nothing: nothing is missing any more, and each retry that is left has stayed
before (`stayed_of_mem_retried`, `migrated_again`).
-/

set_option autoImplicit false

namespace HsUploader

namespace Schema

open Prog (wp exists_of_map_eq_ok)

variable {π : Type}

/-! ## What the statements come to -/

/-- The file before the retry pass. -/
def prepared (o : Surroundings) (s : StoreFile π) : StoreFile π :=
  if s.userVersion ≤ 3 then
    (pairs (oldRecords (upgraded o s))).foldl (fillStep o.fillAt) (upgraded o s)
  else upgraded o s

/-- The lines of the fill after the migrations. -/
def preparedLines (o : Surroundings) (s : StoreFile π) : List ReportLine :=
  if s.userVersion ≤ 3 then
    fillLines true (upgraded o s).watermarks (pairs (oldRecords (upgraded o s)))
  else []

/-- The file after the retry pass. -/
def retried (plan : List RetryAction) (s : StoreFile π) : StoreFile π :=
  plan.foldl (fun s a ↦ applyRetry a s) s

/-- The report of a call that wrote. -/
def migratedReport (o : Surroundings) (s : StoreFile π) (plan : List RetryAction) :
    MigrateReport where
  fromVersion := s.userVersion
  toVersion := max s.userVersion 3
  applied := pendingVersions s.userVersion
  lines := upgradeLines true s ++ preparedLines o s ++ retryLines true plan

/-- What the statements of the transaction come to. -/
def rewritten (o : Surroundings) (ctx : MigrateContext) (s : StoreFile π) :
    Except Exn (MigrateReport × StoreFile π) :=
  if s.userVersion < 3 ∧ s.attempts = none then .error noAttempts
  else (planRetries ctx o.sink false (prepared o s)).map fun plan ↦
    (migratedReport o s plan, retried plan (prepared o s))

/-- What a call of `migrate` comes to. -/
def migrated (o : Surroundings) (ctx : MigrateContext) (s : StoreFile π) :
    Except Exn (MigrateReport × StoreFile π) := do
  validate ctx
  let plan ← planRetries ctx o.sink (fills s.userVersion) s
  if nothingToDo s.userVersion plan s then
    .ok ({
      fromVersion := s.userVersion
      toVersion := s.userVersion
      lines := retryLines true plan }, s)
  else rewritten o ctx s

section upgraded

variable {o : Surroundings} {s : StoreFile π}

theorem sameBut_split (now : Stamp) (s : StoreFile π) :
    s.SameBut ((pairs (oldRecords s)).foldl (splitStep now) (createSuperseded s)) := by
  have h := sameBut_foldl (sameBut_splitStep now) (pairs (oldRecords s)) (createSuperseded s)
  exact ⟨h.1, h.2, h.3, h.4, h.5⟩

theorem watermarks_upgraded (o : Surroundings) (s : StoreFile π) :
    (upgraded o s).watermarks = if s.userVersion < 2 then
      fillRecords (pairs (oldRecords s)) s.watermarks else s.watermarks := by
  rw [upgraded]
  split
  · exact watermarks_split o.splitAt (pairs (oldRecords s)) (createSuperseded s)
  · split
    · rfl
    · rfl

theorem deliverables_upgraded (o : Surroundings) (s : StoreFile π) :
    (upgraded o s).deliverables = s.deliverables := by
  rw [upgraded]
  split
  · exact (sameBut_split o.splitAt s).deliverables
  · split
    · rfl
    · rfl

theorem deadLetter_upgraded (o : Surroundings) (s : StoreFile π) :
    (upgraded o s).deadLetter = s.deadLetter := by
  rw [upgraded]
  split
  · exact (sameBut_split o.splitAt s).deadLetter
  · split
    · rfl
    · rfl

theorem userVersion_upgraded (o : Surroundings) (s : StoreFile π) :
    (upgraded o s).userVersion = max s.userVersion 3 := by
  rw [upgraded]
  split
  · rw [max_eq_right (by omega)]
  · split
    · rw [max_eq_right (by omega)]
    · rw [max_eq_left (by omega)]

theorem oldRecords_upgraded (o : Surroundings) (s : StoreFile π) :
    oldRecords (upgraded o s) = oldRecords s := by
  have hwatermarks := watermarks_upgraded o s
  split at hwatermarks
  · exact oldRecords_fillRecords hwatermarks
  · rw [oldRecords, oldRecords, hwatermarks]

theorem nodup_upgraded (o : Surroundings) (h : (s.watermarks.map Prod.fst).Nodup) :
    ((upgraded o s).watermarks.map Prod.fst).Nodup := by
  rw [watermarks_upgraded]
  split
  · exact nodup_fillRecords h
  · exact h

theorem sameBut_prepared (o : Surroundings) (s : StoreFile π) :
    (upgraded o s).SameBut (prepared o s) := by
  rw [prepared]
  split
  · exact sameBut_foldl (sameBut_fillStep o.fillAt) _ _
  · exact ⟨rfl, rfl, rfl, rfl, rfl⟩

/-- Up to the version of the code, every missing producer key is filled in. -/
theorem watermarks_prepared (o : Surroundings) (s : StoreFile π) :
    (prepared o s).watermarks = if s.userVersion ≤ 3 then
      fillRecords (pairs (oldRecords s)) s.watermarks else s.watermarks := by
  rw [prepared]
  split
  · rw [watermarks_fill, oldRecords_upgraded, watermarks_upgraded]
    split
    · -- the split has filled them in already
      exact fillRecords_of_isSome fun p hp ↦ isSome_fillRecords hp
    · rfl
  · rename_i hv
    rw [watermarks_upgraded, if_neg (by omega)]

end upgraded

section comes

variable {o : Surroundings} {ctx : MigrateContext} {s : StoreFile π}

theorem fills_max (v : ℤ) : fills (max v 3) = decide (v ≤ 3) := by
  rw [fills, Bool.eq_iff_iff, Bool.and_eq_true, decide_eq_true_iff, decide_eq_true_iff,
    decide_eq_true_iff]
  omega

theorem comes_applyRetries (plan : List RetryAction) (s : StoreFile π) :
    Comes o (applyRetries o plan) s (.ok ((), retried plan s)) := by
  induction plan generalizing s with
  | nil => exact .pure _ _
  | cons a plan ih =>
    rw [applyRetries]
    refine Comes.bind (?_ : Comes o (executeRetry o a) s (.ok ((), applyRetry a s))) (ih _)
    rw [executeRetry]
    cases haction : a.action with
    | stay =>
      have hsame : applyRetry a s = s := by rw [applyRetry, haction]
      rw [hsame]
      exact .pure _ _
    | delete => exact Comes.write _ _
    | move _ _ => exact Comes.write _ _

theorem comes_fillAfter (h : (s.watermarks.map Prod.fst).Nodup) :
    Comes o (fillAfter o (max s.userVersion 3)) (upgraded o s)
      (.ok (preparedLines o s, prepared o s)) := by
  rw [fillAfter, fills_max, preparedLines, prepared]
  by_cases hv : s.userVersion ≤ 3
  · rw [if_pos (decide_eq_true hv), if_pos hv, if_pos hv]
    exact comes_fillMissingProducerKeys (nodup_upgraded o h)
  · rw [if_neg (by simpa using hv), if_neg hv, if_neg hv]
    exact .pure _ _

theorem comes_migrateBody (h : (s.watermarks.map Prod.fst).Nodup) :
    Comes o (migrateBody o ctx) s (rewritten o ctx s) := by
  rw [migrateBody]
  refine .select_bind rfl ?_
  have hrun := comes_runMigrations (o := o) h
  rw [upgrade] at hrun
  rw [rewritten]
  split
  · rename_i hnone
    rw [if_pos hnone] at hrun
    exact hrun.bind_error
  · rename_i hsome
    rw [if_neg hsome] at hrun
    refine hrun.bind ((comes_fillAfter h).bind ?_)
    cases hplan : planRetries ctx o.sink false (prepared o s) with
    | error e => exact .select_bind_error hplan
    | ok plan => exact .select_bind hplan ((comes_applyRetries plan _).bind (.pure _ _))

/-! ## What a failure leaves -/

/-- The program comes to this, or raises and leaves the file as it was. -/
def Leaves {α : Type} (o : Surroundings) (p : Sql π α) (s : StoreFile π)
    (r : Except Exn (α × StoreFile π)) : Prop :=
  ∀ n, wp p (fun a c ↦ r = .ok (a, c.file))
    (fun e c ↦ c.file = s ∧ ((∃ n, o.fails n = some e) ∨ r = .error e)) (fun _ ↦ False) ⟨s, n⟩

namespace Leaves

variable {α β : Type} {p : Sql π α} {g : α → Sql π β} {a : α} {e : Exn}
  {r : Except Exn (β × StoreFile π)}

theorem pure (a : α) (s : StoreFile π) : Leaves o (Pure.pure a) s (.ok (a, s)) := fun _ ↦ rfl

/-- A program that leaves the file alone, before another. -/
theorem bind (hp : Leaves o p s (.ok (a, s))) (hg : Leaves o (g a) s r) :
    Leaves o (p >>= g) s r := fun n ↦ by
  rw [Prog.wp_bind]
  refine Prog.wp_mono (hp n) (fun b c hb ↦ ?_) (fun e c he ↦ ?_) fun _ h ↦ h
  · cases hb
    exact hg c.statements
  · exact ⟨he.1, .inl (he.2.resolve_right nofun)⟩

theorem bind_error (hp : Leaves o p s (.error e)) : Leaves o (p >>= g) s (.error e) := fun n ↦ by
  rw [Prog.wp_bind]
  refine Prog.wp_mono (hp n) (fun b c hb ↦ nomatch hb) (fun e' c he ↦ ?_) fun _ h ↦ h
  exact ⟨he.1, he.2.imp_right fun h ↦ by
    cases h
    rfl⟩

theorem ofExcept (x : Except Exn α) (s : StoreFile π) :
    Leaves o (Prog.ofExcept x) s (x.map (·, s)) := fun n ↦ by
  rw [Prog.wp_ofExcept]
  cases x with
  | ok a => exact rfl
  | error e => exact ⟨rfl, .inr rfl⟩

theorem select (f : StoreFile π → Except Exn α) (s : StoreFile π) :
    Leaves o (select o f) s ((f s).map (·, s)) := fun n ↦ by
  rw [wp, Schema.select, execute]
  cases hfails : o.fails n with
  | some e => exact ⟨rfl, .inl ⟨n, hfails⟩⟩
  | none =>
    cases hf : f s with
    | error e => exact ⟨rfl, .inr rfl⟩
    | ok a => exact rfl

/-- **A transaction** leaves the file as its statements do, or as it was. -/
theorem transaction {r : Except Exn (α × StoreFile π)} (h : Comes o p s r) :
    Leaves o (transaction o p) s r := by
  have hbegin : Leaves o (write o .ok) s (.ok ((), s)) := select (fun _ ↦ .ok ()) s
  refine hbegin.bind fun n ↦ ?_
  have hcommitted : Comes o (committed o p) s r := by
    rw [committed]
    cases r with
    | error e => exact h.bind_error
    | ok r => exact h.bind (.write_bind rfl (.pure _ _))
  have hrun := hcommitted n
  rw [wp] at hrun
  rw [wp, orRollback]
  split at hrun
  · rename_i heq
    rw [heq]
    exact hrun
  · rename_i heq
    rw [heq]
    exact ⟨rfl, hrun⟩
  · exact hrun.elim
  · exact hrun.elim

end Leaves

/-- **A call of `migrate`** comes to `migrated`, or raises and leaves the file as it was. -/
theorem leaves_migrate (h : (s.watermarks.map Prod.fst).Nodup) :
    Leaves o (migrate o ctx) s (migrated o ctx s) := by
  rw [migrate, migrated]
  have hvalid := Leaves.ofExcept (o := o) (validate ctx) s
  cases hv : validate ctx with
  | error e =>
    rw [hv] at hvalid
    exact hvalid.bind_error
  | ok u =>
    rw [hv] at hvalid
    refine hvalid.bind ((Leaves.select _ s).bind ?_)
    have hplan := Leaves.select (o := o) (planRetries ctx o.sink (fills s.userVersion)) s
    cases hp : planRetries ctx o.sink (fills s.userVersion) s with
    | error e =>
      rw [hp] at hplan
      exact hplan.bind_error
    | ok plan =>
      rw [hp] at hplan
      refine hplan.bind ((Leaves.select _ s).bind ?_)
      simp only [bind, Except.bind]
      split
      · exact .pure _ _
      · exact .transaction (comes_migrateBody h)

end comes

/-! ## The retry pass -/

/-- What an action does with one row of the queue. -/
def retryRow (a : RetryAction) (d : Deliverable π) : Option (Deliverable π) :=
  if d.id = a.id then
    match a.action with
    | .delete => none
    | .move pipeline source => some { d with pipeline, sourceId := source }
    | .stay => some d
  else some d

/-- What a plan does with one row of the queue. -/
def planRow (plan : List RetryAction) (d : Deliverable π) : Option (Deliverable π) :=
  plan.foldlM (fun d a ↦ retryRow a d) d

section retry

variable {s : StoreFile π} {plan : List RetryAction} {a : RetryAction} {d d' : Deliverable π}

theorem retries_applyRetry (a : RetryAction) (s : StoreFile π) :
    (applyRetry a s).retries = s.retries.filterMap (retryRow a) := by
  have hdelete : ∀ l : List (Deliverable π), a.action = .delete →
      l.filterMap (retryRow a) = l.filter fun d ↦ d.id ≠ a.id := fun l haction ↦ by
    rw [← List.filterMap_eq_filter]
    refine List.filterMap_congr fun d _ ↦ ?_
    rw [retryRow, haction]
    by_cases hd : d.id = a.id
    · simp [hd, Option.guard]
    · simp [hd, Option.guard]
  have hmove : ∀ (l : List (Deliverable π)) (p src : String), a.action = .move p src →
      l.filterMap (retryRow a) =
        l.map fun d ↦ if d.id = a.id then { d with pipeline := p, sourceId := src } else d :=
    fun l p src haction ↦ by
      rw [← List.filterMap_eq_map]
      refine List.filterMap_congr fun d _ ↦ ?_
      rw [retryRow, haction, Function.comp_apply]
      split
      · rfl
      · rfl
  have hstay : ∀ l : List (Deliverable π), a.action = .stay → l.filterMap (retryRow a) = l :=
    fun l haction ↦ by
      refine (List.filterMap_congr fun d _ ↦ ?_).trans List.filterMap_some
      rw [retryRow, haction]
      split
      · rfl
      · rfl
  rw [applyRetry, StoreFile.retries]
  cases haction : a.action with
  | delete =>
    cases hs : s.deliverables with
    | none => simp [StoreFile.retries, hs]
    | some l => simpa [StoreFile.retries, hs] using (hdelete l haction).symm
  | move p src =>
    cases hs : s.deliverables with
    | none => simp [StoreFile.retries, hs]
    | some l => simpa [StoreFile.retries, hs] using (hmove l p src haction).symm
  | stay => exact (hstay _ haction).symm

theorem retries_retried (plan : List RetryAction) (s : StoreFile π) :
    (retried plan s).retries = s.retries.filterMap (planRow plan) := by
  induction plan generalizing s with
  | nil => exact List.filterMap_some.symm
  | cons a plan ih =>
    rw [retried, List.foldl_cons, ← retried, ih, retries_applyRetry, List.filterMap_filterMap]
    rfl

theorem watermarks_retried (plan : List RetryAction) (s : StoreFile π) :
    (retried plan s).watermarks = s.watermarks ∧ (retried plan s).deadLetter = s.deadLetter ∧
      (retried plan s).userVersion = s.userVersion ∧
      (retried plan s).supersededKeys = s.supersededKeys := by
  induction plan generalizing s with
  | nil => exact ⟨rfl, rfl, rfl, rfl⟩
  | cons a plan ih =>
    have hone : (applyRetry a s).watermarks = s.watermarks ∧
        (applyRetry a s).deadLetter = s.deadLetter ∧
        (applyRetry a s).userVersion = s.userVersion ∧
        (applyRetry a s).supersededKeys = s.supersededKeys := by
      rw [applyRetry]
      split
      all_goals exact ⟨rfl, rfl, rfl, rfl⟩
    obtain ⟨h₁, h₂, h₃, h₄⟩ := ih (applyRetry a s)
    exact ⟨h₁.trans hone.1, h₂.trans hone.2.1, h₃.trans hone.2.2.1, h₄.trans hone.2.2.2⟩

theorem id_of_retryRow (h : retryRow a d = some d') : d'.id = d.id := by
  rw [retryRow] at h
  split at h
  · split at h
    · cases h
    · cases h
      rfl
    · cases h
      rfl
  · cases h
    rfl

theorem retryRow_of_ne (h : d.id ≠ a.id) : retryRow a d = some d := by rw [retryRow, if_neg h]

theorem planRow_cons (a : RetryAction) (plan : List RetryAction) (d : Deliverable π) :
    planRow (a :: plan) d = (retryRow a d).bind (planRow plan) := rfl

theorem planRow_of_forall_ne (h : ∀ a ∈ plan, a.id ≠ d.id) : planRow plan d = some d := by
  induction plan with
  | nil => rfl
  | cons a plan ih =>
    rw [planRow_cons, retryRow_of_ne (h a List.mem_cons_self).symm, Option.bind_some]
    exact ih fun b hb ↦ h b (List.mem_cons_of_mem a hb)

/-- A row in the plan meets its own action alone. -/
theorem planRow_of_mem (hnodup : (plan.map RetryAction.id).Nodup) (ha : a ∈ plan)
    (hid : a.id = d.id) : planRow plan d = retryRow a d := by
  induction plan with
  | nil => cases ha
  | cons b plan ih =>
    rw [List.map_cons, List.nodup_cons] at hnodup
    rw [planRow_cons]
    rcases List.mem_cons.mp ha with rfl | ha
    · cases hrow : retryRow a d with
      | none => rfl
      | some d' =>
        refine planRow_of_forall_ne fun b hb heq ↦ hnodup.1 ?_
        rw [hid, ← id_of_retryRow hrow, ← heq]
        exact List.mem_map_of_mem hb
    · rw [retryRow_of_ne, Option.bind_some, ih hnodup.2 ha]
      intro heq
      refine hnodup.1 ?_
      rw [← heq, ← hid]
      exact List.mem_map_of_mem ha

theorem id_of_planRow (h : planRow plan d = some d') : d'.id = d.id := by
  induction plan generalizing d with
  | nil =>
    cases h
    rfl
  | cons a plan ih =>
    rw [planRow_cons] at h
    obtain ⟨e, he, h⟩ := Option.bind_eq_some_iff.mp h
    exact (ih h).trans (id_of_retryRow he)

theorem nodup_retried (h : (s.retries.map Deliverable.id).Nodup) :
    ((retried plan s).retries.map Deliverable.id).Nodup := by
  rw [retries_retried]
  refine h.sublist ?_
  generalize s.retries = l
  induction l with
  | nil => exact List.Sublist.slnil
  | cons d l ih =>
    rw [List.filterMap_cons]
    cases hrow : planRow plan d with
    | none => exact ih.trans (List.sublist_cons_self _ _)
    | some d' =>
      dsimp only
      rw [List.map_cons, List.map_cons, id_of_planRow hrow]
      exact ih.cons_cons _

theorem mem_oldRetries :
    d ∈ oldRetries s ↔ d ∈ s.retries ∧ d.pipeline = oldPskreporterPipeline := by
  rw [oldRetries, List.mem_insertionSort, List.mem_filter, decide_eq_true_iff]

/-- The elements of a traversal that does not raise, one by one. -/
theorem forall₂_of_mapM {α β : Type} {f : α → Except Exn β} {xs : List α} {ys : List β}
    (h : xs.mapM f = .ok ys) : List.Forall₂ (fun x y ↦ f x = .ok y) xs ys := by
  induction xs generalizing ys with
  | nil =>
    cases h
    exact .nil
  | cons x xs ih =>
    rw [List.mapM_cons] at h
    obtain ⟨y, hy, h⟩ := Prog.exists_of_bind_eq_ok h
    obtain ⟨ys', hys, h⟩ := Prog.exists_of_bind_eq_ok h
    cases h
    exact .cons hy (ih hys)

theorem exists_of_forall₂ {α β : Type} {R : α → β → Prop} {xs : List α} {ys : List β}
    (h : List.Forall₂ R xs ys) : ∀ x ∈ xs, ∃ y ∈ ys, R x y := by
  induction h with
  | nil => exact fun _ hx ↦ nomatch hx
  | cons hxy _ ih =>
    intro x hx
    rcases List.mem_cons.mp hx with rfl | hx
    · exact ⟨_, List.mem_cons_self, hxy⟩
    · obtain ⟨y, hy, hR⟩ := ih x hx
      exact ⟨y, List.mem_cons_of_mem _ hy, hR⟩

variable {ctx : MigrateContext} {sink : SinkDb} {assumeFilled : Bool}

theorem planRetry_eq_ok (h : planRetry ctx sink assumeFilled s d = .ok a) :
    ∃ held, holds ctx sink assumeFilled s d = .ok held ∧
      a = ⟨d.id, d.cursorAfter, actionFor ctx held⟩ := by
  obtain ⟨held, hheld, rfl⟩ := exists_of_map_eq_ok h
  exact ⟨held, hheld, rfl⟩

/-- A plan has one action for each retry under the old name. -/
theorem planRetries_eq_ok (h : planRetries ctx sink assumeFilled s = .ok plan) :
    plan.map RetryAction.id = (oldRetries s).map Deliverable.id ∧
      (∀ d ∈ oldRetries s, ∃ a ∈ plan, planRetry ctx sink assumeFilled s d = .ok a) ∧
      ∀ a ∈ plan, ∃ d ∈ oldRetries s, planRetry ctx sink assumeFilled s d = .ok a := by
  have hall := forall₂_of_mapM h
  refine ⟨?_, exists_of_forall₂ hall, fun a ha ↦ Prog.exists_of_mem_mapM h a ha⟩
  clear h
  generalize oldRetries s = l at hall
  induction hall with
  | nil => rfl
  | cons hxy _ ih =>
    obtain ⟨held, -, rfl⟩ := planRetry_eq_ok hxy
    rw [List.map_cons, List.map_cons, ih]

theorem nodup_oldRetries (h : (s.retries.map Deliverable.id).Nodup) :
    ((oldRetries s).map Deliverable.id).Nodup := by
  rw [oldRetries, List.Perm.nodup_iff ((List.perm_insertionSort _ _).map Deliverable.id)]
  exact h.sublist (List.filter_sublist.map Deliverable.id)

/-- Two rows of the queue with one id are one row. -/
theorem eq_of_id_eq (h : (s.retries.map Deliverable.id).Nodup) (hd : d ∈ s.retries)
    (hd' : d' ∈ s.retries) (hid : d.id = d'.id) : d = d' :=
  List.inj_on_of_nodup_map h hd hd' hid

/-- A retry under another name is none of the plan's. -/
theorem planRow_of_ne (hkeyed : (s.retries.map Deliverable.id).Nodup)
    (hplan : planRetries ctx sink assumeFilled s = .ok plan) (hd : d ∈ s.retries)
    (hne : d.pipeline ≠ oldPskreporterPipeline) : planRow plan d = some d := by
  refine planRow_of_forall_ne fun a ha hid ↦ hne ?_
  have hmem : d.id ∈ (oldRetries s).map Deliverable.id := by
    rw [← (planRetries_eq_ok hplan).1, ← hid]
    exact List.mem_map_of_mem ha
  obtain ⟨d', hd', heq⟩ := List.mem_map.mp hmem
  obtain ⟨hmem', hpipeline⟩ := mem_oldRetries.mp hd'
  rwa [← eq_of_id_eq hkeyed hmem' hd heq]

/-- A retry under the old name meets its action. -/
theorem planRow_of_old (hkeyed : (s.retries.map Deliverable.id).Nodup)
    (hplan : planRetries ctx sink assumeFilled s = .ok plan) (hd : d ∈ oldRetries s) :
    ∃ held, holds ctx sink assumeFilled s d = .ok held ∧
      planRow plan d = match actionFor ctx held with
        | .delete => none
        | .move pipeline source => some { d with pipeline, sourceId := source }
        | .stay => some d := by
  obtain ⟨hids, hplanned, -⟩ := planRetries_eq_ok hplan
  obtain ⟨a, ha, haction⟩ := hplanned d hd
  obtain ⟨held, hheld, rfl⟩ := planRetry_eq_ok haction
  refine ⟨held, hheld, ?_⟩
  rw [planRow_of_mem (by rw [hids]; exact nodup_oldRetries hkeyed) ha rfl, retryRow, if_pos rfl]

end retry

/-! ## What a migration keeps -/

/-- The rows of the retry may be read again by both producers: the one send record that its source,
destination and table name has a position, the sink holds a row up to there, and both producers have
a record for that destination and table. -/
def Rereadable (ctx : MigrateContext) (sink : SinkDb) (s : StoreFile π) (d : Deliverable π) :
    Prop :=
  ∃ key r n, namedRecords s d.sourceId d.destId d.table = [(key, r)] ∧ lastId r.cursor = some n ∧
    sinkHolds ctx sink n = .ok true ∧
    ∀ src ∈ newSources, hasRecord s ⟨src, key.destId, key.table⟩

/-- What a migration from `s` to `t` keeps. -/
structure Preserves (ctx : MigrateContext) (sink : SinkDb) (s t : StoreFile π) : Prop where
  keyed : t.Keyed
  watermarks : s.watermarks <+: t.watermarks
  deadLetter : t.deadLetter = s.deadLetter
  /-- What is new in the records is a copy of an old record under a producer's source. -/
  copies : ∀ x ∈ t.watermarks, x ∈ s.watermarks ∨
    ∃ old ∈ oldRecords s, ∃ src ∈ newSources, x = ({ old.1 with sourceId := src }, old.2)
  /-- Every old record has both producers' keys, and those that were missing are noted copies. -/
  producers : ∀ old ∈ oldRecords s, ∀ src ∈ newSources,
    hasRecord t { old.1 with sourceId := src } ∧
      (hasRecord s { old.1 with sourceId := src } = false →
        Table.lookup { old.1 with sourceId := src } t.watermarks = some old.2 ∧
          (Table.lookup (old.1, { old.1 with sourceId := src })
            (t.supersededKeys.getD [])).isSome)
  others : ∀ d ∈ s.retries, d.pipeline ≠ oldPskreporterPipeline → d ∈ t.retries
  /-- A retry under the old name stays, is moved, or is deleted because it may be read again. -/
  old : ∀ d ∈ s.retries, d.pipeline = oldPskreporterPipeline →
    d ∈ t.retries ∨
      (∃ p ∈ newPskreporterPipelines, { d with pipeline := p.1, sourceId := p.2 } ∈ t.retries) ∨
        (d.id ∉ t.retries.map Deliverable.id ∧ Rereadable ctx sink t d)
  ids : ∀ d ∈ t.retries, d.id ∈ s.retries.map Deliverable.id

section preserves

variable {o : Surroundings} {ctx : MigrateContext} {sink : SinkDb} {s t : StoreFile π}

theorem holds_eq_true {assumeFilled : Bool} {d : Deliverable π} :
    holds ctx sink assumeFilled s d = .ok true ↔
      ∃ key r n, namedRecords s d.sourceId d.destId d.table = [(key, r)] ∧
        lastId r.cursor = some n ∧ sinkHolds ctx sink n = .ok true ∧
        (assumeFilled ∨ ∀ src ∈ newSources, hasRecord s ⟨src, key.destId, key.table⟩) := by
  have hmissing : ∀ dest table : String, (missingProducerKeys s dest table).isEmpty = true ↔
      ∀ src ∈ newSources, hasRecord s ⟨src, dest, table⟩ := fun dest table ↦ by
    rw [missingProducerKeys, List.isEmpty_iff, List.filter_eq_nil_iff]
    exact forall₂_congr fun src _ ↦ by simp
  have hone : ∀ key r, namedRecords s d.sourceId d.destId d.table = [(key, r)] →
      oldLastId s d = (lastId r.cursor, (key.destId, key.table)) := fun key r h ↦ by
    rw [oldLastId, h]
  constructor
  · intro h
    rw [holds] at h
    cases hnamed : namedRecords s d.sourceId d.destId d.table with
    | nil =>
      rw [oldLastId, hnamed] at h
      cases h
    | cons x rest =>
      cases rest with
      | cons y rest =>
        rw [oldLastId, hnamed] at h
        cases h
      | nil =>
        obtain ⟨key, r⟩ := x
        rw [hone key r hnamed] at h
        cases hlast : lastId r.cursor with
        | none =>
          rw [hlast] at h
          cases h
        | some n =>
          rw [hlast] at h
          obtain ⟨held, hheld, h⟩ := Prog.exists_of_bind_eq_ok h
          have hboth := Bool.and_eq_true_iff.mp (Except.ok.inj h)
          refine ⟨key, r, n, rfl, hlast, ?_, ?_⟩
          · rw [hheld, hboth.1]
          · exact (Bool.or_eq_true_iff.mp hboth.2).imp_right (hmissing _ _).mp
  · rintro ⟨key, r, n, hnamed, hlast, hsink, hkeys⟩
    rw [holds, hone key r hnamed, hlast]
    dsimp only
    rw [hsink]
    have hboth : (assumeFilled || (missingProducerKeys s key.destId key.table).isEmpty) = true :=
      Bool.or_eq_true_iff.mpr (hkeys.imp_right (hmissing _ _).mpr)
    rw [hboth]
    rfl

/-- The records alone decide whether a retry may be read again. -/
theorem Rereadable.of_watermarks {d : Deliverable π} (h : t.watermarks = s.watermarks)
    (hd : Rereadable ctx sink s d) : Rereadable ctx sink t d := by
  rw [Rereadable, namedRecords] at *
  simpa only [hasRecord, h] using hd

theorem retries_prepared (o : Surroundings) (s : StoreFile π) :
    (prepared o s).retries = s.retries := by
  rw [StoreFile.retries, (sameBut_prepared o s).deliverables, deliverables_upgraded,
    StoreFile.retries]

theorem fillStep_eq (now : Stamp) (s : StoreFile π) (p : Pair) :
    fillStep now s p = s ∨ fillStep now s p = splitStep now s p := by
  rw [fillStep]
  split
  · exact .inl rfl
  · exact .inr rfl

/-- A key that was missing is noted beside the old one. -/
theorem noted_prepared (hkeyed : (s.watermarks.map Prod.fst).Nodup) (hv : s.userVersion ≤ 3)
    {p : Pair} (hp : p ∈ pairs (oldRecords s)) (hnone : Table.lookup p.new s.watermarks = none) :
    (Table.lookup (p.old, p.new) ((prepared o s).supersededKeys.getD [])).isSome := by
  rw [prepared, if_pos hv, oldRecords_upgraded]
  by_cases h2 : s.userVersion < 2
  · refine isSome_foldl_of_mem (fillStep_eq o.fillAt) _ _ ?_
    rw [upgraded, if_pos h2]
    exact noted_foldl (fun s p ↦ .inr rfl) (fun _ _ _ ↦ rfl) (fun _ _ ↦ rfl) hp
      (nodup_pairs hkeyed) hnone
  · refine noted_foldl (fillStep_eq o.fillAt) (fun s p h ↦ ?_)
      (fun s p ↦ watermarks_fill o.fillAt [p] s) hp (nodup_pairs hkeyed) ?_
    · rw [fillStep, if_neg (by rw [h]; exact Bool.false_ne_true)]
    · rw [watermarks_upgraded, if_neg h2]
      exact hnone

theorem validate_eq_ok {pipeline : String} (h : validate ctx = .ok ())
    (hkeep : ctx.keepRetryFor = some pipeline) :
    ∃ source, Table.lookup pipeline newPskreporterPipelines = some source := by
  rw [validate, hkeep] at h
  dsimp only at h
  split at h
  · rename_i hsome
    exact Option.isSome_iff_exists.mp hsome
  · cases h

theorem ne_oldPskreporterPipeline {x : String × String} (h : x ∈ newPskreporterPipelines) :
    x.1 ≠ oldPskreporterPipeline := by
  revert x
  decide

theorem actionFor_of_none (h : ctx.keepRetryFor = none) : actionFor ctx false = .stay := by
  rw [actionFor, h]
  rfl

theorem actionFor_of_keep {pipeline source : String} (h : ctx.keepRetryFor = some pipeline)
    (hsource : Table.lookup pipeline newPskreporterPipelines = some source) :
    actionFor ctx false = .move pipeline source := by
  rw [actionFor, h, if_neg Bool.false_ne_true]
  dsimp only
  rw [hsource]
  rfl

/-- **What the transaction keeps.** -/
theorem preserves_rewritten {rep : MigrateReport} (hkeyed : s.Keyed) (hv : s.userVersion ≤ 3)
    (hvalid : validate ctx = .ok ()) (h : rewritten o ctx s = .ok (rep, t)) :
    Preserves ctx o.sink s t := by
  rw [rewritten] at h
  split at h
  · cases h
  · obtain ⟨plan, hplan, h⟩ := exists_of_map_eq_ok h
    obtain ⟨-, rfl⟩ := Prod.mk.inj h
    have hretries := retries_prepared o s
    have hqkeyed : ((prepared o s).retries.map Deliverable.id).Nodup := by
      rw [hretries]
      exact hkeyed.deliverables
    obtain ⟨hwatermarks, hdead, -, hsuperseded⟩ := watermarks_retried plan (prepared o s)
    have hrecords : (retried plan (prepared o s)).watermarks =
        fillRecords (pairs (oldRecords s)) s.watermarks := by
      rw [hwatermarks, watermarks_prepared, if_pos hv]
    have hmem : ∀ d', d' ∈ (retried plan (prepared o s)).retries ↔
        ∃ d ∈ s.retries, planRow plan d = some d' := fun d' ↦ by
      rw [retries_retried, List.mem_filterMap, hretries]
    refine ⟨⟨?_, nodup_retried hqkeyed⟩, ?_, ?_, fun x hx ↦ ?_, fun old hold src hsrc ↦ ?_,
      fun d hd hne ↦ ?_, fun d hd hold ↦ ?_, fun d' hd' ↦ ?_⟩
    · rw [hrecords]
      exact nodup_fillRecords hkeyed.watermarks
    · rw [hrecords]
      exact prefix_fillRecords _ _
    · rw [hdead, (sameBut_prepared o s).deadLetter, deadLetter_upgraded]
    · rw [hrecords] at hx
      refine (mem_fillRecords hx).imp_right fun hfilled ↦ ?_
      obtain ⟨p, hp, hxp⟩ := hfilled
      obtain ⟨old, hold, src, hsrc, rfl⟩ := mem_pairs.mp hp
      exact ⟨old, hold, src, hsrc, hxp⟩
    · have hp : (⟨old.1, { old.1 with sourceId := src }, old.2⟩ : Pair) ∈ pairs (oldRecords s) :=
        mem_pairs.mpr ⟨old, hold, src, hsrc, rfl⟩
      refine ⟨?_, fun hnone ↦ ?_⟩
      · rw [hasRecord, hrecords]
        exact isSome_fillRecords hp
      · rw [hasRecord, Option.isSome_eq_false_iff, Option.isNone_iff_eq_none] at hnone
        refine ⟨?_, ?_⟩
        · rw [hrecords]
          exact lookup_fillRecords_of_none hp (nodup_pairs hkeyed.watermarks) hnone
        · rw [hsuperseded]
          exact noted_prepared hkeyed.watermarks hv hp hnone
    · refine (hmem d).mpr ⟨d, hd, ?_⟩
      exact planRow_of_ne hqkeyed hplan (by rwa [hretries]) hne
    · obtain ⟨held, hheld, hrow⟩ :=
        planRow_of_old hqkeyed hplan (mem_oldRetries.mpr ⟨by rwa [hretries], hold⟩)
      cases held with
      | true =>
        refine .inr (.inr ⟨fun hid ↦ ?_, ?_⟩)
        · obtain ⟨d', hd', hid⟩ := List.mem_map.mp hid
          obtain ⟨e, he, hrow'⟩ := (hmem d').mp hd'
          have heq : e = d := eq_of_id_eq hkeyed.deliverables he hd
            ((id_of_planRow hrow').symm.trans hid)
          rw [heq, hrow] at hrow'
          cases hrow'
        · refine Rereadable.of_watermarks hwatermarks ?_
          obtain ⟨key, r, n, hnamed, hlast, hsink, hkeys⟩ := holds_eq_true.mp hheld
          exact ⟨key, r, n, hnamed, hlast, hsink, hkeys.resolve_left Bool.false_ne_true⟩
      | false =>
        cases hkeep : ctx.keepRetryFor with
        | none =>
          refine .inl ((hmem d).mpr ⟨d, hd, ?_⟩)
          rw [hrow, actionFor_of_none hkeep]
        | some pipeline =>
          obtain ⟨source, hsource⟩ := validate_eq_ok hvalid hkeep
          refine .inr (.inl ⟨(pipeline, source), Table.mem_of_lookup hsource,
            (hmem _).mpr ⟨d, hd, ?_⟩⟩)
          rw [hrow, actionFor_of_keep hkeep hsource]
    · obtain ⟨d, hd, hrow⟩ := (hmem d').mp hd'
      rw [id_of_planRow hrow]
      exact List.mem_map_of_mem hd

/-- Where nothing is to be done, nothing is missing. -/
theorem hasRecord_of_nothingToDo {plan : List RetryAction} (hv : s.userVersion ≤ 3)
    (h : nothingToDo s.userVersion plan s = true) :
    s.userVersion = 3 ∧ (∀ p ∈ pairs (oldRecords s), hasRecord s p.new) ∧
      ∀ a ∈ plan, a.action = .stay := by
  rw [nothingToDo, Bool.and_eq_true, Bool.and_eq_true, Bool.not_eq_true', Bool.not_eq_true'] at h
  obtain ⟨⟨hpending, hfill⟩, hstay⟩ := h
  have h3 : s.userVersion = 3 := by
    have hlast := List.any_eq_false.mp hpending ⟨3, addSendLogNames, previewSendLogNames⟩
      (by simp [migrations])
    simp only [decide_eq_true_eq, not_lt] at hlast
    omega
  refine ⟨h3, fun p hp ↦ ?_, fun a ha ↦ of_decide_eq_true (List.all_eq_true.mp hstay a ha)⟩
  rw [h3] at hfill
  have hempty : (previewFill s).isEmpty = true := by simpa [fills] using hfill
  rw [previewFill, List.isEmpty_iff, List.map_eq_nil_iff, List.filter_eq_nil_iff] at hempty
  simpa using hempty p hp

theorem migrated_cases {rep : MigrateReport} (h : migrated o ctx s = .ok (rep, t)) :
    validate ctx = .ok () ∧ ∃ plan, planRetries ctx o.sink (fills s.userVersion) s = .ok plan ∧
      ((nothingToDo s.userVersion plan s = true ∧ t = s) ∨
        (nothingToDo s.userVersion plan s = false ∧ rewritten o ctx s = .ok (rep, t))) := by
  rw [migrated] at h
  obtain ⟨_, hvalid, h⟩ := Prog.exists_of_bind_eq_ok h
  obtain ⟨plan, hplan, h⟩ := Prog.exists_of_bind_eq_ok h
  refine ⟨hvalid, plan, hplan, ?_⟩
  cases hnothing : nothingToDo s.userVersion plan s with
  | true =>
    rw [hnothing, if_pos rfl] at h
    exact .inl ⟨rfl, (Prod.mk.inj (Except.ok.inj h)).2.symm⟩
  | false =>
    rw [hnothing, if_neg Bool.false_ne_true] at h
    exact .inr ⟨rfl, h⟩

/-- **What a call of `migrate` keeps.** -/
theorem preserves_migrated {rep : MigrateReport} (hkeyed : s.Keyed) (hv : s.userVersion ≤ 3)
    (h : migrated o ctx s = .ok (rep, t)) : Preserves ctx o.sink s t := by
  obtain ⟨hvalid, plan, -, ⟨hnothing, rfl⟩ | ⟨-, h⟩⟩ := migrated_cases h
  · obtain ⟨-, hhas, -⟩ := hasRecord_of_nothingToDo hv hnothing
    refine ⟨hkeyed, List.prefix_rfl, rfl, fun x hx ↦ .inl hx, fun old hold src hsrc ↦ ?_,
      fun d hd _ ↦ hd, fun d hd _ ↦ .inl hd, fun d hd ↦ List.mem_map_of_mem hd⟩
    have hthere := hhas ⟨old.1, { old.1 with sourceId := src }, old.2⟩
      (mem_pairs.mpr ⟨old, hold, src, hsrc, rfl⟩)
    refine ⟨hthere, fun hnone ↦ ?_⟩
    rw [hnone] at hthere
    cases hthere
  · exact preserves_rewritten hkeyed hv hvalid h

theorem holds_congr {assumeFilled : Bool} (h : t.watermarks = s.watermarks) (d : Deliverable π) :
    holds ctx sink assumeFilled t d = holds ctx sink assumeFilled s d := by
  simp only [holds, oldLastId, namedRecords, missingProducerKeys, hasRecord, h]

/-- A file in which nothing is missing is prepared already. -/
theorem prepared_of_hasRecord (h3 : s.userVersion = 3)
    (h : ∀ p ∈ pairs (oldRecords s), hasRecord s p.new) : prepared o s = s := by
  have hupgraded : upgraded o s = s := by
    rw [upgraded, if_neg (by omega), if_neg (by omega)]
  rw [prepared, if_pos h3.le, hupgraded]
  generalize pairs (oldRecords s) = ps at h
  induction ps with
  | nil => rfl
  | cons p ps ih =>
    rw [List.foldl_cons, fillStep, if_pos (h p List.mem_cons_self)]
    exact ih fun q hq ↦ h q (List.mem_cons_of_mem p hq)

theorem retried_of_stay {plan : List RetryAction} (h : ∀ a ∈ plan, a.action = .stay)
    (s : StoreFile π) : retried plan s = s := by
  induction plan with
  | nil => rfl
  | cons a plan ih =>
    rw [retried, List.foldl_cons, applyRetry, h a List.mem_cons_self]
    exact ih fun b hb ↦ h b (List.mem_cons_of_mem a hb)

/-- What still stands under the old name after the pass has stayed there. -/
theorem stayed_of_mem_retried {assumeFilled : Bool} {plan : List RetryAction} {d : Deliverable π}
    (hkeyed : (s.retries.map Deliverable.id).Nodup) (hvalid : validate ctx = .ok ())
    (hplan : planRetries ctx sink assumeFilled s = .ok plan) (hd : d ∈ (retried plan s).retries)
    (hpipeline : d.pipeline = oldPskreporterPipeline) :
    ctx.keepRetryFor = none ∧ holds ctx sink assumeFilled s d = .ok false := by
  rw [retries_retried, List.mem_filterMap] at hd
  obtain ⟨e, he, hrow⟩ := hd
  by_cases hold : e.pipeline = oldPskreporterPipeline
  · obtain ⟨held, hheld, hrow'⟩ := planRow_of_old hkeyed hplan (mem_oldRetries.mpr ⟨he, hold⟩)
    rw [hrow'] at hrow
    cases held with
    | true => cases hrow
    | false =>
      cases hkeep : ctx.keepRetryFor with
      | none =>
        rw [actionFor_of_none hkeep] at hrow
        cases hrow
        exact ⟨rfl, hheld⟩
      | some pipeline =>
        -- a retry that was moved stands under its new name
        obtain ⟨source, hsource⟩ := validate_eq_ok hvalid hkeep
        rw [actionFor_of_keep hkeep hsource] at hrow
        cases hrow
        exact absurd hpipeline (ne_oldPskreporterPipeline (Table.mem_of_lookup hsource))
  · rw [planRow_of_ne hkeyed hplan he hold] at hrow
    cases hrow
    exact absurd hpipeline hold

/-- **A second call changes nothing.** -/
theorem migrated_again {o' : Surroundings} {rep rep' : MigrateReport} {t' : StoreFile π}
    (hkeyed : s.Keyed) (hv : s.userVersion ≤ 3) (h : migrated o ctx s = .ok (rep, t))
    (hsink : o'.sink = o.sink) (h' : migrated o' ctx t = .ok (rep', t')) : t' = t := by
  obtain ⟨hvalid, plan, hplan, ⟨hnothing, rfl⟩ | ⟨-, hwritten⟩⟩ := migrated_cases h
  · obtain ⟨-, plan', hplan', ⟨-, ht⟩ | ⟨hmore, -⟩⟩ := migrated_cases h'
    · exact ht
    · rw [hsink, hplan] at hplan'
      cases hplan'
      rw [hnothing] at hmore
      cases hmore
  · obtain ⟨-, plan', -, ⟨-, ht⟩ | ⟨-, hagain⟩⟩ := migrated_cases h'
    · exact ht
    · -- nothing is missing, and every retry under the old name stays as it did
      have hpreserves := preserves_rewritten hkeyed hv hvalid hwritten
      rw [rewritten] at hwritten
      split at hwritten
      · cases hwritten
      obtain ⟨first, hfirst, hwritten⟩ := exists_of_map_eq_ok hwritten
      obtain ⟨-, rfl⟩ := Prod.mk.inj hwritten
      obtain ⟨hwatermarks, -, hversion, -⟩ := watermarks_retried first (prepared o s)
      have h3 : (retried first (prepared o s)).userVersion = 3 := by
        rw [hversion, (sameBut_prepared o s).userVersion, userVersion_upgraded]
        omega
      have hrecords : (retried first (prepared o s)).watermarks =
          fillRecords (pairs (oldRecords s)) s.watermarks := by
        rw [hwatermarks, watermarks_prepared, if_pos hv]
      have hprepared : prepared o' (retried first (prepared o s)) =
          retried first (prepared o s) := by
        refine prepared_of_hasRecord h3 fun p hp ↦ ?_
        rw [oldRecords_fillRecords hrecords] at hp
        obtain ⟨old, hold, src, hsrc, rfl⟩ := mem_pairs.mp hp
        exact (hpreserves.producers old hold src hsrc).1
      rw [rewritten] at hagain
      split at hagain
      · cases hagain
      rw [hprepared, hsink] at hagain
      obtain ⟨again, hplan', hagain⟩ := exists_of_map_eq_ok hagain
      obtain ⟨-, rfl⟩ := Prod.mk.inj hagain
      refine retried_of_stay (fun a ha ↦ ?_) _
      obtain ⟨d, hd, hplanned⟩ := (planRetries_eq_ok hplan').2.2 a ha
      obtain ⟨held, hheld, rfl⟩ := planRetry_eq_ok hplanned
      rw [holds_congr hwatermarks] at hheld
      obtain ⟨hd, hpipeline⟩ := mem_oldRetries.mp hd
      have hqkeyed : ((prepared o s).retries.map Deliverable.id).Nodup := by
        rw [retries_prepared]
        exact hkeyed.deliverables
      obtain ⟨hkeep, hstayed⟩ := stayed_of_mem_retried hqkeyed hvalid hfirst hd hpipeline
      rw [hstayed] at hheld
      cases hheld
      exact actionFor_of_none hkeep

/-- What a run that came to a value leaves. -/
theorem snd_of_value {α : Type} {p : Sql π α} {P : Connection π → Prop}
    {E : Exn → Connection π → Prop} {S : Connection π → Prop} {c : Connection π}
    (h : wp p (fun _ c ↦ P c) E S c) (hvalue : (p c).1.value.isSome = true) : P (p c).2 := by
  obtain ⟨a, ha⟩ := Option.isSome_iff_exists.mp hvalue
  exact Prog.wp_ok h (Prog.run_ok ha)

/-- **A migration preserves the record.**  A call of `migrate` on a store file up to the version of
the code keeps what `Preserves` says, and a second call with the same context and sink changes
nothing, whatever of its statements fail.  A call that raises leaves the file as it was. -/
theorem migrate_preserves (o : Surroundings) (ctx : MigrateContext) (s : StoreFile π)
    (hkeyed : s.Keyed) (hv : s.userVersion ≤ 3) (n : ℕ) :
    wp (migrate o ctx)
      (fun _ c ↦ Preserves ctx o.sink s c.file ∧
        ∀ (o' : Surroundings) (n' : ℕ), o'.sink = o.sink →
          wp (migrate o' ctx) (fun _ c' ↦ c'.file = c.file) (fun _ c' ↦ c'.file = c.file)
            (fun _ ↦ False) ⟨c.file, n'⟩)
      (fun _ c ↦ c.file = s) (fun _ ↦ False) ⟨s, n⟩ := by
  refine Prog.wp_mono (leaves_migrate hkeyed.watermarks n) (fun rep c hc ↦ ?_)
    (fun e c hc ↦ hc.1) fun _ h ↦ h
  have hpreserves := preserves_migrated hkeyed hv hc
  refine ⟨hpreserves, fun o' n' hsink ↦ ?_⟩
  refine Prog.wp_mono (leaves_migrate hpreserves.keyed.watermarks n') (fun rep' c' hc' ↦ ?_)
    (fun e c' hc' ↦ hc'.1) fun _ h ↦ h
  exact migrated_again hkeyed hv hc hsink hc'

/-- A file at version 1 with the shared record and a retry of it. -/
def sharedRecordFile : StoreFile ℕ where
  userVersion := 1
  watermarks := [(⟨oldPskSource, "pskreporter:report", "spots"⟩, ⟨.blob (.ofInt 5), 0⟩)]
  deliverables := some [{
    id := 1, pipeline := oldPskreporterPipeline, payloadBlob := 0, enqueuedAt := 0
    attempts := 0, nextAttemptAt := 0, sourceId := oldPskSource, destId := "pskreporter:report"
    table := "spots", cursorAfter := .ofInt 7 }]
  deadLetter := []
  attempts := some (["ts"], [])
  lastSend := none
  supersededKeys := none

/-- Its sink still holds the rows. -/
def sharedRecordSink : Surroundings := { sink := .holding [4] }

theorem migrate_preserves_sharedRecord :
    Preserves { sinkPath := some "/tmp/sink.db" } sharedRecordSink.sink sharedRecordFile
      (migrate sharedRecordSink { sinkPath := some "/tmp/sink.db" }
        ⟨sharedRecordFile, 0⟩).2.file := by
  have hkeyed : sharedRecordFile.Keyed := ⟨by decide +kernel, by decide +kernel⟩
  have hversion : sharedRecordFile.userVersion ≤ 3 := by decide
  have hvalue : (migrate sharedRecordSink { sinkPath := some "/tmp/sink.db" }
      ⟨sharedRecordFile, 0⟩).1.value.isSome = true := by decide +kernel
  generalize sharedRecordFile = s at *
  generalize sharedRecordSink = o at *
  exact (snd_of_value (migrate_preserves o _ s hkeyed hversion 0) hvalue).1

end preserves

end Schema

end HsUploader
