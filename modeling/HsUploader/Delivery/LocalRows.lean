import HsUploader.Delivery.World
import HsUploader.Sources.LocalRowsSpec

/-!
# Local rows

A row marked local is to stay in the sink: no source ships it and no commit deletes it.  The filter
that sees to it looks once per connection whether the table has the column, so it is right as long
as no statement runs on a table that has got the column since: `InSight` says that the column was
there when the connection was opened, or when the filter looked.  Neither is read off what a
statement carried.

Both sources are treated alike: what is used of them is `KeepsLocal`, and the rest is about the
pump. `LocalInv` goes through every step of it, among writers that do as they please, and through
restarts, after which the source object has no connection.  `local_row_leaves_late_column` is a
column that comes too late.

## What is here

* `InSight` — the condition on a statement: what the table had at two moments, the opening of its
  connection and the look of the filter.
* `LocalStays` — what is shown: selected, shipped and deleted rows are none of them local.
* `LocalPhase` and `LocalInv` — the invariant; a batch in hand holds rows that a clean statement
  hit.
* `local_rows_stay` — both sources at once, through `KeepsLocal`.
* `lateColumn` and `oldWorld` — an old file whose columns come while it is being read.
-/

set_option autoImplicit false

namespace HsUploader

open Prog

variable {μ : Type} [Connected μ]

/-- A statement that selected rows to send, or deleted rows, ran on a table with the `local` column
only if the column was there when its connection was opened, or when the filter looked through it. -/
def InSight (log : List Statement) : Prop :=
  ∀ st ∈ log, st.localColumn = true → st.sight.opened = true ∨ st.sight.probed = true

instance (log : List Statement) : Decidable (InSight log) :=
  inferInstanceAs (Decidable
    (∀ st ∈ log, st.localColumn = true → st.sight.opened = true ∨ st.sight.probed = true))

/-- No local row was selected to be sent, was shipped, or was deleted. -/
structure LocalStays (w : World (Outside μ) Act QueuedRecord (List QueuedRecord)) : Prop where
  hit : ∀ st ∈ w.sys.here.log, ∀ r ∈ st.hit, r.isLocal = false
  shipped : ∀ b, .shipping b ∈ w.trace → ∀ r ∈ rowsOf b.records, r.isLocal = false
  deleted : ∀ r ∈ deletedRows w.sys.here.log, r.isLocal = false

/-- What a phase of the pump knows of the batch and the generator in hand. -/
def LocalPhase (o : Outside μ) :
    Phase (Outside μ) Act QueuedRecord (List QueuedRecord) → Prop
  | .reading rest _ | .shipped _ _ rest | .advanced _ _ rest => ∀ p ∈ rest, Resumes o p
  | .fetched b rest _ => FromHits o.log b ∧ ∀ p ∈ rest, Resumes o p
  | _ => True

/-- The source goes on. -/
theorem LocalPhase.mono {o o' : Outside μ}
    {ph : Phase (Outside μ) Act QueuedRecord (List QueuedRecord)} (h : LocalPhase o ph)
    (hext : Extends o o') : LocalPhase o' ph := by
  cases ph with
  | reading rest any => exact fun p hp ↦ (h p hp).mono hext
  | shipped b out rest => exact fun p hp ↦ (h p hp).mono hext
  | advanced b out rest => exact fun p hp ↦ (h p hp).mono hext
  | fetched b rest any => exact ⟨h.1.mono hext.subset, fun p hp ↦ (h.2 p hp).mono hext⟩
  | _ => trivial

/-- The invariant: the filter sees the column where there is one to be seen, the log holds clean
statements, and what was shipped they have hit. -/
structure LocalInv (ph : Phase (Outside μ) Act QueuedRecord (List QueuedRecord))
    (w : World (Outside μ) Act QueuedRecord (List QueuedRecord)) : Prop where
  sharp : Sharp w.sys.here
  clean : ∀ st ∈ w.sys.here.log, st.Clean
  shipping : ∀ b, .shipping b ∈ w.trace → FromHits w.sys.here.log b
  phase : LocalPhase w.sys.here ph

section inv

variable {ph ph' : Phase (Outside μ) Act QueuedRecord (List QueuedRecord)}
  {w : World (Outside μ) Act QueuedRecord (List QueuedRecord)}

/-- The source at work. -/
theorem LocalInv.extends (h : LocalInv ph w) {s' : Sys (Outside μ) Act QueuedRecord}
    (hsharp : Sharp s'.here) (hext : Extends w.sys.here s'.here) (hph : LocalPhase s'.here ph') :
    LocalInv ph' { w with sys := s' } where
  sharp := hsharp
  clean := hext.clean h.clean
  shipping := fun b hb ↦ (h.shipping b hb).mono hext.subset
  phase := hph

/-- A phase that knows no more. -/
theorem LocalInv.to (h : LocalInv ph w) (hph : LocalPhase w.sys.here ph') : LocalInv ph' w :=
  { h with phase := hph }

theorem LocalInv.done (h : LocalInv ph w) : LocalInv .done w := h.to trivial

/-- A method of the store. -/
theorem LocalInv.stored (h : LocalInv ph w) (s : Store (List QueuedRecord))
    (hph : LocalPhase w.sys.here ph') : LocalInv ph' (w.stored s) :=
  ⟨h.sharp, h.clean, h.shipping, hph⟩

theorem LocalInv.noted (h : LocalInv ph w) {e : Event QueuedRecord (List QueuedRecord)}
    (he : ∀ b, e = .shipping b → FromHits w.sys.here.log b) (hph : LocalPhase w.sys.here ph') :
    LocalInv ph' (w.noted e) := by
  refine ⟨h.sharp, h.clean, fun b hb ↦ ?_, hph⟩
  rcases List.mem_append.mp hb with hb | hb
  · exact h.shipping b hb
  · exact he b (List.mem_singleton.mp hb).symm

/-- The environment's move before a step. -/
theorem LocalInv.next (h : LocalInv ph w) : LocalInv ph w.next := by
  obtain ⟨hsharp, hext⟩ := sharp_next h.sharp
  exact h.extends hsharp hext (h.phase.mono hext)

/-- A program of the source. -/
theorem LocalInv.onSys {α : Type} {p : SqlM μ QueuedRecord α} {Q : α → Outside μ → Prop}
    (h : LocalInv ph w) (hp : LogsFrom w.sys.here p Q)
    {ph' : α → Phase (Outside μ) Act QueuedRecord (List QueuedRecord)}
    (hph : ∀ a o, Extends w.sys.here o → Q a o → LocalPhase o (ph' a)) :
    wp (onSys p) (fun a ↦ LocalInv (ph' a)) (fun _ ↦ LocalInv .done) (LocalInv .done) w := by
  rw [wp_onSys]
  refine wp_mono (hp w.sys rfl h.sharp) ?_ ?_ ?_
  · intro a s' ⟨hsharp, hext, ha⟩
    exact h.extends hsharp hext (hph a _ hext ha)
  · intro e s' ⟨hsharp, hext⟩
    exact h.extends hsharp hext trivial
  · intro s' ⟨hsharp, hext⟩
    exact h.extends hsharp hext trivial

/-- A call of the transport. -/
theorem LocalInv.call {call : Event QueuedRecord (List QueuedRecord)}
    {answer : Outcome QueuedRecord → Event QueuedRecord (List QueuedRecord)}
    {ph' : Outcome QueuedRecord → Phase (Outside μ) Act QueuedRecord (List QueuedRecord)}
    (h : LocalInv ph w) (hcall : ∀ b, call = .shipping b → FromHits w.sys.here.log b)
    (hanswer : ∀ o b, answer o ≠ .shipping b) (hph : ∀ o l, LocalPhase l ph → LocalPhase l (ph' o)) :
    wp (do
      note call
      let outcome ← HsUploader.onSys callOpen
      note (answer outcome)
      pure outcome) (fun o ↦ LocalInv (ph' o)) (fun _ ↦ LocalInv .done) (LocalInv .done) w := by
  have hb : LocalInv ph (w.noted call).next := (h.noted hcall h.phase).next
  refine wp_callNoted (fun _ ↦ hb.done) (fun _ _ _ ↦ hb.done) fun o _ _ ↦ ?_
  exact hb.noted (fun b he ↦ absurd he (hanswer o b)) (hph o _ hb.phase)

end inv

/-- **Each step of a pump keeps the log clean.** -/
theorem localInv_rules (u : Uploader) (set : PipelineSettings)
    {source : Source (Outside μ) Act QueuedRecord} (hsource : KeepsLocal source) :
    PumpRules u (set.pipeline source) LocalInv (LocalInv .done) (LocalInv .done) where
  breathe _ _ h := by
    split
    · exact h.next.done
    · exact h.next
  gate _ _ _ h := h.noted nofun h.phase
  attempt _ _ _ _ h := h.stored _ h.phase
  heldStart _ _ h := h.done
  heldDraining _ _ _ h := h.done
  heldFetched _ _ _ _ _ h := h.done
  enter _ h := h.to trivial
  pop _ _ _ _ _ h hg _ := (hg.keeps h fun h ↦ h.noted nofun h.phase).stored _ trivial
  replay d w h := h.call nofun nofun fun _ _ _ ↦ trivial
  replayAdvance _ _ _ _ h _ _ := h.stored _ trivial
  replayNoCursor _ _ _ h _ _ := h.to trivial
  replayCommit d w h := h.onSys (hsource.commit _ _) fun _ _ _ _ ↦ trivial
  requeue _ _ _ _ _ h _ _ _ := h.stored _ trivial
  requeueRaised _ _ _ h _ _ _ := h.done
  replayDead _ _ _ _ h _ _ := h.stored _ trivial
  replaySpent _ _ _ _ h _ _ _ := h.stored _ trivial
  replayOdd _ _ _ h _ _ _ := h.to trivial
  queued _ h _ := h.elim (·.done) (·.done)
  queueEmpty _ h _ := h.elim (·.to trivial) (·.to trivial)
  noBudget _ _ h _ := h.done
  cursor _ _ _ h _ := h.to trivial
  cursorRaised _ _ _ h _ := h.done
  iter c any w h := h.onSys (hsource.iterBatches _ _ _) fun rest _ _ hrest ↦ hrest
  resume p rest any w h := by
    have hp : Resumes w.sys.here p := h.phase p List.mem_cons_self
    have hrest : ∀ o, Extends w.sys.here o → ∀ q ∈ rest, Resumes o q :=
      fun o hext q hq ↦ (h.phase q (List.mem_cons_of_mem p hq)).mono hext
    rw [wp_onSys]
    refine wp_mono (hp _ (.refl _) w.sys rfl h.sharp) ?_ ?_ ?_
    · intro b s' ⟨hsharp, hext, hb⟩
      cases b with
      | none => exact h.extends hsharp hext (hrest _ hext)
      | some b =>
        dsimp only
        split
        · exact h.extends hsharp hext (hrest _ hext)
        · exact h.extends hsharp hext ⟨hb b rfl, hrest _ hext⟩
    · intro e s' ⟨hsharp, hext⟩
      exact h.extends hsharp hext trivial
    · intro s' ⟨hsharp, hext⟩
      exact h.extends hsharp hext trivial
  exhausted _ _ h := h.done
  again _ h := h.to trivial
  ship b rest any w h := by
    obtain ⟨w₀, h₀, hg⟩ := h
    have h := hg.keeps h₀ fun h ↦ h.noted nofun h.phase
    exact h.call (fun b' he ↦ by cases he; exact h.phase.1) nofun fun _ _ hph ↦ hph.2
  acked _ _ _ _ _ h _ := h.stored _ h.phase
  ackedPart _ _ _ _ _ h _ := h.stored _ h.phase
  commit b o rest w h := by
    have hrest : ∀ p ∈ rest, Resumes w.sys.here p := h.phase
    exact h.onSys (hsource.commit _ _) fun _ _ hext _ p hp ↦ (hrest p hp).mono hext
  serialize b o rest _ w h := by
    rw [wp_onSys]
    change wp (do let _ ← callOpen; pure b.records) _ _ _ w.sys
    rw [wp_bind, wp_callOpen]
    split
    · exact h.next.done
    · split
      · exact h.next.to trivial
      · exact h.next.done
  enqueueRaised _ _ _ _ h _ := h.done
  enqueue _ _ _ _ _ _ h _ := h.stored _ trivial
  dead _ _ _ _ _ h _ _ := h.stored _ trivial
  unhandled _ _ _ _ _ h _ := h.done
  enough _ _ h := h.done

/-- A log of clean statements that all had the column in sight has hit no local row. -/
theorem LocalInv.localStays {ph : Phase (Outside μ) Act QueuedRecord (List QueuedRecord)}
    {w : World (Outside μ) Act QueuedRecord (List QueuedRecord)} (h : LocalInv ph w)
    (hsight : InSight w.sys.here.log) : LocalStays w := by
  have hhit : ∀ st ∈ w.sys.here.log, ∀ r ∈ st.hit, r.isLocal = false := by
    intro st hst r hr
    exact h.clean st hst (hsight st hst) r hr
  refine ⟨hhit, fun b hb r hr ↦ ?_, fun r hr ↦ ?_⟩
  · obtain ⟨q, hq, rfl⟩ := List.mem_map.mp hr
    obtain ⟨st, hst, hrow⟩ := h.shipping b hb q hq
    exact hhit st hst q.row hrow
  · obtain ⟨st, hst, hr⟩ := List.mem_flatMap.mp hr
    split at hr
    · exact hhit st hst r hr
    · cases hr

/-- What a source object holds of its connection when it is built. -/
def View.fresh : View := ⟨none, 0, false, {}⟩

/-- A source object that was just built has no connection and remembers nothing. -/
theorem sharp_fresh {o : Outside μ} (h : o.view = .fresh) : Sharp o := by
  constructor <;> rw [h] <;> exact nofun

/-- Any number of pumps of a source that keeps the log clean. -/
theorem KeepsLocal.localStays {source : Source (Outside μ) Act QueuedRecord}
    (hsource : KeepsLocal source) (u : Uploader) (set : PipelineSettings)
    (restart : Outside μ → Outside μ)
    (hrestart : ∀ o, (restart o).log = o.log ∧ (restart o).view = .fresh)
    {w : World (Outside μ) Act QueuedRecord (List QueuedRecord)} (hfresh : w.sys.here.view = .fresh)
    (hlog : w.sys.here.log = []) (htrace : w.trace = []) (n : ℕ)
    (hsight : InSight (run u (set.pipeline source) restart n w).sys.here.log) :
    LocalStays (run u (set.pipeline source) restart n w) := by
  have hinit : LocalInv .done w := by
    refine ⟨sharp_fresh hfresh, fun st hst ↦ ?_, fun b hb ↦ ?_, trivial⟩
    · rw [hlog] at hst
      cases hst
    · rw [htrace] at hb
      cases hb
  refine LocalInv.localStays ((localInv_rules u set hsource).run (fun _ h ↦ h) (fun w h ↦ ?_)
    (fun _ h ↦ h.to trivial) hinit n) hsight
  obtain ⟨hlog', hview⟩ := hrestart w.sys.here
  refine ⟨sharp_fresh hview, ?_, ?_, trivial⟩
  · intro st hst
    exact h.clean st (hlog' ▸ hst)
  · intro b hb
    exact (h.shipping b hb).mono (hlog' ▸ List.Subset.refl _)

/-- A queue from before the `producer` and the `local` column. -/
def Queue.old : Queue := { Queue.empty with
  hasProducer := false
  hasLocal := false
  producer_default := fun _ _ h ↦ nomatch h
  local_default := fun _ _ h ↦ nomatch h }

/-- A writer that adds the columns before the `k`-th step, and inserts this row once as a local one
and once as an ordinary one. -/
def lateColumn (row : NewRow) (k : ℕ) : ℕ → Choice Act QueuedRecord := fun n ↦
  if n = k then
    { ops := [.sink .ensureColumns, .sink (.insert 0 { row with isLocal := true }),
        .sink (.insert 0 row)], now := 600 }
  else { now := 600 }

/-- A world with an old file in which the columns are added late. -/
def oldWorld {μ : Type} (m : μ) (row : NewRow) (k : ℕ) :
    World (Outside μ) Act QueuedRecord (List QueuedRecord) where
  sys := { here := { sink := some Queue.old, mem := m }, env := lateColumn row k }
  store := {}

/-- A source of cycles that reads every time as the start of the epoch. -/
def cycleSource : WsprCycleSource where
  fromBeginning := true
  parseIso := fun _ ↦ some 0
  strptime := fun _ ↦ some 0

/-- A WSPR spot of the first cycle of the epoch. -/
def wsprSpot : NewRow where
  targetDb := "wspr"
  targetTable := "spots"
  payloadJson := .ofJson (.obj [("time", .str "1970-01-01T00:00:00Z")])

end HsUploader
