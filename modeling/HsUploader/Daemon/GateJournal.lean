import Mathlib.Data.List.Chain
import Mathlib.Data.List.Pairwise
import HsUploader.Daemon.SinkGate

/-!
# The journal of the sink gate

Five tables decide which lines a gate writes.  `Sound` says what they hold of the journal: the time
a fault is stamped with is that of its last `ERROR` line, a pipeline that is owed a recovery line
has logged an `ERROR` line since its last one, and a pipeline's last decision is what its last
transition line says.  The rules a decision asks leave all of this alone (`Quiet`), whatever they
raise; what is left are the three places that write such a line.

A clock that runs backwards does no harm: what is compared with a reminder's interval is always the
reading the line itself is dated by.

## What is here

* `errorTimes` and `turns` — the parts of a journal that its tables speak of: the `ERROR` lines of a
  pipeline and exception type, with their times, and a pipeline's transition lines.
* `Sound` — the invariant, one clause for each table.
* `Quiet` and `ends_rules` — the rules leave the tables alone, whether they answer or raise.
* `Reported` — whether a fault is to be said, and the stamp that is written when it is.
* `Sound.recovered`, `Sound.failed`, `Sound.turned` — the three places that write a line.
* `triple_decide` — a whole decision, put together from these.
-/

set_option autoImplicit false

namespace HsUploader
namespace SinkGate

open Prog Trace

/-! ## What the journal holds -/

/-- The time of an `ERROR` line about the gate itself, for this pipeline and exception type. -/
def Line.errorTime (k : PipeKey) (type : String) : Line → Option ℚ
  | .failed k' type' _ _ time => if k' = k ∧ type' = type then some time else none
  | _ => none

/-- The times of these lines. -/
def errorTimes (k : PipeKey) (type : String) (j : List Line) : List ℚ :=
  j.filterMap (Line.errorTime k type)

/-- The pipeline of an `ERROR` line about the gate itself. -/
def Line.errorOf : Line → Option PipeKey
  | .failed k _ _ _ _ => some k
  | _ => none

/-- The pipeline of a recovery line. -/
def Line.recoveryOf : Line → Option PipeKey
  | .recovered k _ _ => some k
  | _ => none

/-- The line is an `ERROR` line about the gate itself, for this pipeline. -/
def IsError (k : PipeKey) (l : Line) : Prop := l.errorOf = some k

/-- The line is this pipeline's recovery line. -/
def IsRecovery (k : PipeKey) (l : Line) : Prop := l.recoveryOf = some k

instance (k : PipeKey) : DecidablePred (IsError k) := fun l ↦
  inferInstanceAs (Decidable (l.errorOf = some k))

instance (k : PipeKey) : DecidablePred (IsRecovery k) := fun l ↦
  inferInstanceAs (Decidable (l.recoveryOf = some k))

/-- What a transition line of this pipeline turns it to. -/
def Line.turn (k : PipeKey) : Line → Option Bool
  | .turned k' send _ => if k' = k then some send else none
  | _ => none

/-- This pipeline's transition lines: true where it starts to send. -/
def turns (k : PipeKey) (j : List Line) : List Bool := j.filterMap (Line.turn k)

theorem errorTimes_concat (k : PipeKey) (type : String) (j : List Line) (l : Line) :
    errorTimes k type (j ++ [l]) = errorTimes k type j ++ (l.errorTime k type).toList := by
  rw [errorTimes, List.filterMap_append, errorTimes]
  cases h : l.errorTime k type <;> simp [h]

theorem turns_concat (k : PipeKey) (j : List Line) (l : Line) :
    turns k (j ++ [l]) = turns k j ++ (l.turn k).toList := by
  rw [turns, List.filterMap_append, turns]
  cases h : l.turn k <;> simp [h]

/-- The line is none of the three. -/
def Line.Quiet : Line → Prop
  | .failed .. | .recovered .. | .turned .. => False
  | _ => True

theorem Line.Quiet.silent {l : Line} (h : l.Quiet) (k : PipeKey) :
    (∀ type, l.errorTime k type = none) ∧ ¬ IsRecovery k l ∧ l.turn k = none := by
  cases l <;> first | exact h.elim | exact ⟨fun _ ↦ rfl, (fun h ↦ by cases h), rfl⟩

/-! ## What the tables hold of it -/

structure Sound (g : Gate) : Prop where
  spaced : ∀ k type, (errorTimes k type g.journal).Pairwise fun a b ↦ a + REMIND_S ≤ b
  stamped : ∀ k type,
    Table.lookup (.raised k type) g.faultAt = (errorTimes k type g.journal).getLast?
  owed : ∀ k ∈ g.owed, Since (IsError k) (IsRecovery k) g.journal
  paired : ∀ k, Preceded (IsRecovery k) (Since (IsError k) (IsRecovery k)) g.journal
  alternate : ∀ k, (true :: turns k g.journal).IsChain (· ≠ ·)
  last : ∀ k, match Table.lookup k g.last with
    | none => turns k g.journal = []
    | some send => (true :: turns k g.journal).getLast? = some send

theorem sound_new : Sound {} where
  spaced _ _ := List.Pairwise.nil
  stamped _ _ := rfl
  owed _ h := nomatch h
  paired _ := preceded_nil
  alternate _ := .singleton _
  last _ := rfl

/-- Nothing the invariant speaks of has changed. -/
structure Quiet (g g' : Gate) : Prop where
  stamped : ∀ k type, Table.lookup (.raised k type) g'.faultAt = Table.lookup (.raised k type) g.faultAt
  owed : g'.owed = g.owed
  last : g'.last = g.last
  journal : ∃ ls, g'.journal = g.journal ++ ls ∧ ∀ l ∈ ls, l.Quiet

theorem Quiet.refl (g : Gate) : Quiet g g := ⟨fun _ _ ↦ rfl, rfl, rfl, [], by simp, by simp⟩

theorem Quiet.trans {g g' g'' : Gate} (h : Quiet g g') (h' : Quiet g' g'') : Quiet g g'' := by
  obtain ⟨ls, hls, hquiet⟩ := h.journal
  obtain ⟨ls', hls', hquiet'⟩ := h'.journal
  refine ⟨fun k type ↦ (h'.stamped k type).trans (h.stamped k type), h'.owed.trans h.owed,
    h'.last.trans h.last, ls ++ ls', ?_, fun l hl ↦ ?_⟩
  · rw [hls', hls, List.append_assoc]
  · exact (List.mem_append.mp hl).elim (hquiet l) (hquiet' l)

/-- Quiet lines more, and pipelines that are owed no longer, leave what the tables hold of the
journal as it was. -/
theorem Sound.append {g g' : Gate} (h : Sound g)
    (hstamped : ∀ k type,
      Table.lookup (.raised k type) g'.faultAt = Table.lookup (.raised k type) g.faultAt)
    (howed : ∀ k ∈ g'.owed, k ∈ g.owed) (hlast : g'.last = g.last) {ls : List Line}
    (hjournal : g'.journal = g.journal ++ ls) (hquiet : ∀ l ∈ ls, l.Quiet) : Sound g' := by
  have herrors : ∀ k type, errorTimes k type g'.journal = errorTimes k type g.journal :=
    fun k type ↦ by
      rw [errorTimes, hjournal, List.filterMap_append,
        List.filterMap_eq_nil_iff.mpr fun l hl ↦ ((hquiet l hl).silent k).1 type, List.append_nil]
      rfl
  have hturns : ∀ k, turns k g'.journal = turns k g.journal := fun k ↦ by
    rw [turns, hjournal, List.filterMap_append,
      List.filterMap_eq_nil_iff.mpr fun l hl ↦ ((hquiet l hl).silent k).2.2, List.append_nil]
    rfl
  have hsince : ∀ k, Since (IsError k) (IsRecovery k) g.journal →
      Since (IsError k) (IsRecovery k) g'.journal := fun k hs ↦ by
    rw [hjournal]
    exact hs.append fun l hl ↦ ((hquiet l hl).silent k).2.1
  refine ⟨fun k type ↦ ?_, fun k type ↦ ?_, fun k hk ↦ ?_, fun k ↦ ?_, fun k ↦ ?_, fun k ↦ ?_⟩
  · rw [herrors]
    exact h.spaced k type
  · rw [herrors, hstamped]
    exact h.stamped k type
  · exact hsince k (h.owed k (howed k hk))
  · rw [hjournal]
    exact (h.paired k).append fun l hl ↦ ((hquiet l hl).silent k).2.1
  · rw [hturns]
    exact h.alternate k
  · rw [hturns, hlast]
    exact h.last k

theorem Sound.quiet {g g' : Gate} (h : Sound g) (hq : Quiet g g') : Sound g' := by
  obtain ⟨ls, hjournal, hquiet⟩ := hq.journal
  exact h.append hq.stamped (fun _ hk ↦ hq.owed ▸ hk) hq.last hjournal hquiet

/-! ## What the rules leave alone -/

section rules

variable (clock : ℕ → ℚ)

/-- A key that is no exception's. -/
def FaultKey.Shared : FaultKey → Prop
  | .raised .. => False
  | _ => True

theorem FaultKey.Shared.ne {key : FaultKey} (h : key.Shared) (k : PipeKey) (type : String) :
    FaultKey.raised k type ≠ key := by
  rintro rfl
  exact h

theorem ends_of_quiet {f : Gate → Gate} (h : ∀ g, Quiet g (f g)) :
    Ends Quiet (modify f : GateM Unit) := h

theorem ends_write {l : Line} (hl : l.Quiet) : Ends Quiet (write l) :=
  ends_of_quiet fun _ ↦ ⟨fun _ _ ↦ rfl, rfl, rfl, [l], rfl, by simpa using hl⟩

theorem ends_get {α : Type} {f : Gate → GateM α} (hf : ∀ g, Ends Quiet (f g)) :
    Ends Quiet (get >>= f) := fun g ↦ by
  rw [wp_bind, wp_get]
  exact hf g g

theorem ends_first (key : SaidKey) : Ends Quiet (first key) := by
  refine ends_get fun g ↦ ?_
  split
  · exact .pure Quiet.refl _
  · split
    · split
      · exact .pure Quiet.refl _
      · refine .bind Quiet.trans (ends_of_quiet fun g ↦ ⟨fun _ _ ↦ rfl, rfl, rfl, [], by simp, by simp⟩)
          fun _ ↦ ?_
        exact .bind Quiet.trans (ends_write trivial) fun _ ↦ .pure Quiet.refl _
    · refine .bind Quiet.trans (ends_of_quiet fun g ↦ ⟨fun _ _ ↦ rfl, rfl, rfl, [], by simp, by simp⟩)
        fun _ ↦ .pure Quiet.refl _

theorem ends_once (key : SaidKey) {line : Line} (hline : line.Quiet) :
    Ends Quiet (once key line) := by
  refine .bind Quiet.trans (ends_first key) fun seen ↦ ?_
  split
  · exact ends_write hline
  · exact .pure Quiet.refl _

theorem ends_readClock : Ends Quiet (readClock clock) := fun _ ↦
  ⟨fun _ _ ↦ rfl, rfl, rfl, [], by simp, by simp⟩

theorem ends_stamp {key : FaultKey} (hkey : key.Shared) (now : ℚ) : Ends Quiet (stamp key now) :=
  ends_of_quiet fun _ ↦
    ⟨fun k type ↦ Table.lookup_upsert_of_ne _ _ (hkey.ne k type), rfl, rfl, [], by simp, by simp⟩

/-- Deleting one fault leaves the others. -/
theorem lookup_filter_ne {key key' : FaultKey} (h : key' ≠ key) (l : List (FaultKey × ℚ)) :
    Table.lookup key' (l.filter fun x ↦ x.1 ≠ key) = Table.lookup key' l := by
  induction l with
  | nil => rfl
  | cons x l ih =>
    obtain ⟨k, time⟩ := x
    by_cases hk : k = key
    · subst hk
      rw [List.filter_cons_of_neg (by simp), ih, Table.lookup, if_neg h.symm]
    · rw [List.filter_cons_of_pos (by simpa using hk), Table.lookup, Table.lookup, ih]

theorem ends_clear {key : FaultKey} (hkey : key.Shared) : Ends Quiet (clear key) := by
  refine ends_of_quiet fun g ↦ ?_
  split
  · exact ⟨fun k type ↦ lookup_filter_ne (hkey.ne k type) _, rfl, rfl, [], by simp, by simp⟩
  · exact Quiet.refl g

theorem ends_fault {key : FaultKey} (hkey : key.Shared) (firstLogs : Bool) :
    Ends Quiet (fault clock key firstLogs) := by
  refine .bind Quiet.trans (ends_readClock clock) fun now ↦ ends_get fun g ↦ ?_
  split
  · split
    · exact .pure Quiet.refl _
    · exact .bind Quiet.trans (ends_stamp hkey now) fun _ ↦ .pure Quiet.refl _
  · refine .bind Quiet.trans (ends_first _) fun seen ↦ ?_
    split
    · exact .bind Quiet.trans (ends_stamp hkey now) fun _ ↦ .pure Quiet.refl _
    · exact .pure Quiet.refl _

theorem ends_fileFault {key : FaultKey} (hkey : key.Shared) (stands firstLogs : Bool)
    {line : Say → Line} (hline : ∀ say, (line say).Quiet) :
    Ends Quiet (fileFault clock key stands firstLogs line) := by
  rw [fileFault]
  split
  · exact ends_clear hkey
  · refine .bind Quiet.trans (ends_fault clock hkey firstLogs) fun say ↦ ?_
    split
    · exact .pure Quiet.refl _
    · exact ends_write (hline say)

theorem ends_fileFaults (v : Sight) (client : String) (eff : Effective) :
    Ends Quiet (fileFaults clock v client eff) := by
  have hclient := ends_fileFault clock (show (FaultKey.client client).Shared from trivial)
    (eff.clientError ≠ "") false (show ∀ say, (Line.switchFault eff.clientError say).Quiet from
      fun _ ↦ trivial)
  have hsite := ends_fileFault clock (show FaultKey.site.Shared from trivial)
    (eff.siteError ≠ "") false (show ∀ say, (Line.switchFault eff.siteError say).Quiet from
      fun _ ↦ trivial)
  have hsinks (noSinks : Bool) := ends_fileFault clock (show FaultKey.noSinks.Shared from trivial)
    noSinks true (show ∀ say, (Line.noSinks say).Quiet from fun _ ↦ trivial)
  rw [fileFaults]
  split
  · refine .bind Quiet.trans ?_ fun noSinks ↦ .bind Quiet.trans hclient fun _ ↦
      .bind Quiet.trans hsite fun _ ↦ hsinks noSinks
    rw [sinksMissing]
    split
    · exact .ofExcept Quiet.refl _
    · exact .pure Quiet.refl _
  · exact hclient

/-- **The rules, whatever they answer and whatever they raise, leave the faults of the gate
alone.** -/
theorem ends_rules (p : Daemon.Pipeline) (v : Sight) : Ends Quiet (rules clock p v) := by
  refine .bind Quiet.trans (.ofExcept Quiet.refl _) fun _ ↦ ?_
  split
  · exact .pure Quiet.refl _
  · refine .bind Quiet.trans ?_ fun _ ↦ ?_
    · rw [warnUngoverned]
      split
      · exact .pure Quiet.refl _
      · exact ends_once _ trivial
    · split
      · exact .pure Quiet.refl _
      · refine .bind Quiet.trans (.ofExcept Quiet.refl _) fun stands ↦ ?_
        split
        · exact .pure Quiet.refl _
        · split
          · exact .bind Quiet.trans (ends_once _ trivial) fun _ ↦ .pure Quiet.refl _
          · refine .bind Quiet.trans (.ofExcept Quiet.refl _) fun eff ↦ ?_
            refine .bind Quiet.trans (ends_fileFaults clock v _ eff) fun _ ↦ ?_
            split <;> exact .pure Quiet.refl _

end rules

/-! ## What is said of an exception -/

section report

variable (clock : ℕ → ℚ) {k : PipeKey} {type : String}

/-- What `report` answers, and what it leaves: where a line is to be written the fault is stamped
with the reading the line is dated by, and its last stamp lies a reminder's interval back. -/
structure Reported (k : PipeKey) (type : String) (g : Gate) (say : Say) (g' : Gate) : Prop where
  owed : g'.owed = g.owed
  last : g'.last = g.last
  journal : ∃ ls, g'.journal = g.journal ++ ls ∧ ∀ l ∈ ls, l.Quiet
  others : ∀ k' type', (k', type') ≠ (k, type) →
    Table.lookup (.raised k' type') g'.faultAt = Table.lookup (.raised k' type') g.faultAt
  silent : say = .nothing →
    Table.lookup (.raised k type) g'.faultAt = Table.lookup (.raised k type) g.faultAt
  said : say ≠ .nothing → Table.lookup (.raised k type) g'.faultAt = some g'.now ∧
    ∀ time, Table.lookup (.raised k type) g.faultAt = some time → time + REMIND_S ≤ g'.now

theorem Quiet.reported {g g' : Gate} (h : Quiet g g') : Reported k type g .nothing g' :=
  ⟨h.owed, h.last, h.journal, fun k' type' _ ↦ h.stamped k' type', fun _ ↦ h.stamped k type,
    fun hne ↦ absurd rfl hne⟩

theorem Reported.after {g g' g'' : Gate} {say : Say} (h : Quiet g g')
    (h' : Reported k type g' say g'') : Reported k type g say g'' := by
  obtain ⟨ls, hls, hquiet⟩ := h.journal
  obtain ⟨ls', hls', hquiet'⟩ := h'.journal
  refine ⟨h'.owed.trans h.owed, h'.last.trans h.last, ⟨ls ++ ls', ?_, fun l hl ↦ ?_⟩,
    fun k' type' hne ↦ (h'.others k' type' hne).trans (h.stamped k' type'),
    fun hsay ↦ (h'.silent hsay).trans (h.stamped k type), fun hsay ↦ ?_⟩
  · rw [hls', hls, List.append_assoc]
  · exact (List.mem_append.mp hl).elim (hquiet l) (hquiet' l)
  · obtain ⟨hnow, hapart⟩ := h'.said hsay
    exact ⟨hnow, fun time htime ↦ hapart time (by rw [h.stamped, htime])⟩

/-- The stamp of a fault that is to be said. -/
theorem reported_stamp {g : Gate} {say : Say}
    (hapart : ∀ time, Table.lookup (.raised k type) g.faultAt = some time →
      time + REMIND_S ≤ g.now) (hsay : say ≠ .nothing) :
    Reported k type g say { g with faultAt := Table.upsert (.raised k type) g.now g.faultAt } where
  owed := rfl
  last := rfl
  journal := ⟨[], by simp, by simp⟩
  others k' type' hne := Table.lookup_upsert_of_ne _ _ fun heq ↦ by
    rw [FaultKey.raised.injEq] at heq
    exact hne (Prod.ext heq.1 heq.2)
  silent h := absurd h hsay
  said _ := ⟨Table.lookup_upsert_self _ _ _, hapart⟩

/-- A look at the clock, and what is done with it. -/
theorem wp_readClock {α : Type} {f : ℚ → GateM α} {Q : α → Gate → Prop} {E : Exn → Gate → Prop}
    {S : Gate → Prop} {g : Gate}
    (h : ∀ g', Quiet g g' → g'.cleared = g.cleared → wp (f g'.now) Q E S g') :
    wp (readClock clock >>= f) Q E S g := by
  rw [wp_bind]
  exact h { g with readings := g.readings + 1, now := clock g.readings }
    ⟨fun _ _ ↦ rfl, rfl, rfl, [], by simp, by simp⟩ rfl

theorem wp_fault (g : Gate) :
    wp (fault clock (.raised k type) true) (Reported k type g) (fun _ _ ↦ False) (fun _ ↦ False)
      g := by
  rw [fault]
  refine wp_readClock clock fun g' hq _ ↦ ?_
  rw [wp_bind, wp_get]
  cases hstamp : Table.lookup (.raised k type) g'.faultAt with
  | some time =>
    dsimp only
    split
    · exact hq.reported
    · rename_i hlate
      refine Reported.after hq (reported_stamp (fun time' htime ↦ ?_) Say.noConfusion)
      obtain rfl : time = time' := Option.some.inj (hstamp.symm.trans htime)
      rw [not_lt] at hlate
      linarith
  | none =>
    dsimp only
    rw [wp_bind]
    have hfirst := ends_first (.fault (.raised k type)) g'
    have hnow : wp (first (.fault (.raised k type))) (fun _ g'' ↦ g''.now = g'.now)
        (fun _ _ ↦ False) (fun _ ↦ False) g' := by
      rw [first, wp_bind, wp_get]
      split
      · rfl
      · split
        · split <;> rfl
        · rfl
    refine wp_mono (wp_and hfirst hnow) (fun seen g'' h ↦ ?_) (fun _ _ h ↦ h.2) fun _ h ↦ h.1
    split
    · rw [← h.2]
      refine Reported.after (hq.trans h.1) (reported_stamp (fun time htime ↦ ?_) Say.noConfusion)
      rw [h.1.stamped, hstamp] at htime
      cases htime
    · exact (hq.trans h.1).reported

theorem wp_report (g : Gate) :
    wp (report clock (.raised k type)) (Reported k type g) (fun _ _ ↦ False) (fun _ ↦ False) g := by
  rw [report, wp_bind, recur]
  refine wp_readClock clock fun g' hq hcleared ↦ ?_
  rw [wp_bind, wp_get]
  split
  · -- not a cleared fault
    rw [wp_pure]
    exact wp_mono_ok (wp_fault clock g') fun _ _ h ↦ .after hq h
  · have hforget : Quiet g' { g' with cleared := g'.cleared.filter fun x ↦ x ≠ .raised k type } :=
      ⟨fun _ _ ↦ rfl, rfl, rfl, [], by simp, by simp⟩
    rw [wp_bind, wp_modify]
    split
    · exact (hq.trans hforget).reported
    · rename_i hlate
      refine Reported.after (hq.trans hforget) (reported_stamp (fun time htime ↦ ?_) Say.noConfusion)
      change Table.lookup (.raised k type) g'.faultAt = some time at htime
      rw [htime, Option.getD_some, not_lt] at hlate
      change time + REMIND_S ≤ g'.now
      linarith

end report

/-! ## The three lines -/

section lines

variable {g g' : Gate} {k : PipeKey}

/-- A pipeline's recovery line, which it is owed and is then owed no longer. -/
theorem Sound.recovered (h : Sound g) (hk : k ∈ g.owed) {send : Bool} {reason : String}
    (hfaults : g'.faultAt = g.faultAt) (hlast : g'.last = g.last)
    (howed : ∀ k' ∈ g'.owed, k' ∈ g.owed ∧ k' ≠ k)
    (hjournal : g'.journal = g.journal ++ [.recovered k send reason]) : Sound g' where
  spaced k' type := by
    rw [hjournal, errorTimes_concat]
    exact (List.append_nil _).symm ▸ h.spaced k' type
  stamped k' type := by
    rw [hjournal, errorTimes_concat, hfaults]
    exact (List.append_nil _).symm ▸ h.stamped k' type
  owed k' hk' := by
    obtain ⟨hmem, hne⟩ := howed k' hk'
    rw [hjournal]
    exact (h.owed k' hmem).concat fun heq ↦ hne (Option.some.inj heq).symm
  paired k' := by
    rw [hjournal]
    refine preceded_concat.mpr ⟨h.paired k', fun heq ↦ ?_⟩
    obtain rfl : k = k' := Option.some.inj heq
    exact h.owed k hk
  alternate k' := by
    rw [hjournal, turns_concat]
    exact (List.append_nil _).symm ▸ h.alternate k'
  last k' := by
    rw [hjournal, turns_concat, hlast]
    exact (List.append_nil _).symm ▸ h.last k'

/-- An `ERROR` line about the gate itself. -/
theorem Sound.failed (h : Sound g) {type text : String} {say : Say} {g'' : Gate}
    (hr : Reported k type g say g') (hsay : say ≠ .nothing) (hfaults : g''.faultAt = g'.faultAt)
    (hlast : g''.last = g'.last) (howed : ∀ k' ∈ g''.owed, k' ∈ g'.owed ∨ k' = k)
    (hjournal : g''.journal = g'.journal ++ [.failed k type text say g'.now]) : Sound g'' := by
  -- the quiet lines of the report come first
  obtain ⟨ls, hls, hquiet⟩ := hr.journal
  have hq : Sound { g with journal := g'.journal } :=
    h.append (fun _ _ ↦ rfl) (fun _ hk ↦ hk) rfl hls hquiet
  obtain ⟨hnow, hapart⟩ := hr.said hsay
  have hother : ∀ k' type', (k', type') ≠ (k, type) →
      errorTimes k' type' g''.journal = errorTimes k' type' g'.journal := fun k' type' hne ↦ by
    have hline : Line.errorTime k' type' (.failed k type text say g'.now) = none :=
      if_neg fun heq ↦ hne (by rw [heq.1, heq.2])
    rw [hjournal, errorTimes_concat, hline]
    exact List.append_nil _
  have hself : errorTimes k type g''.journal = errorTimes k type g'.journal ++ [g'.now] := by
    rw [hjournal, errorTimes_concat, Line.errorTime, if_pos ⟨rfl, rfl⟩]
    rfl
  refine ⟨fun k' type' ↦ ?_, fun k' type' ↦ ?_, fun k' hk' ↦ ?_, fun k' ↦ ?_, fun k' ↦ ?_,
    fun k' ↦ ?_⟩
  · by_cases heq : (k', type') = (k, type)
    · cases heq
      rw [hself, List.pairwise_append]
      refine ⟨hq.spaced k type, List.pairwise_singleton _ _, fun time htime now hnow ↦ ?_⟩
      obtain rfl := List.mem_singleton.mp hnow
      have hstamped : Table.lookup (.raised k type) g.faultAt = _ := hq.stamped k type
      have hne := List.ne_nil_of_mem htime
      rw [List.getLast?_eq_some_getLast hne] at hstamped
      have hlate := hapart _ hstamped
      -- the last of them is the closest
      have hpos : (0 : ℚ) ≤ REMIND_S := by norm_num [REMIND_S]
      have hle : time ≤ (errorTimes k type g'.journal).getLast hne :=
        ((hq.spaced k type).imp fun {a b} hab ↦ show a ≤ b by linarith).rel_getLast htime
      linarith
    · rw [hother k' type' heq]
      exact hq.spaced k' type'
  · rw [hfaults]
    by_cases heq : (k', type') = (k, type)
    · cases heq
      rw [hself, hnow, List.getLast?_concat]
    · rw [hother k' type' heq, hr.others k' type' heq]
      exact hq.stamped k' type'
  · rw [hjournal]
    rcases howed k' hk' with hmem | rfl
    · exact (hq.owed k' (hr.owed ▸ hmem)).concat fun heq ↦ by cases heq
    · exact since_concat_good rfl
  · rw [hjournal]
    exact (hq.paired k').concat fun heq ↦ by cases heq
  · rw [hjournal, turns_concat]
    exact (List.append_nil _).symm ▸ hq.alternate k'
  · rw [hjournal, turns_concat, hlast, hr.last]
    exact (List.append_nil _).symm ▸ hq.last k'

/-- What a pipeline does now is what its transition lines say. -/
theorem Sound.last_eq (h : Sound g) {send : Bool} (hlast : Table.lookup k g.last = some send) :
    (true :: turns k g.journal).getLast? = some send := by
  have hk := h.last k
  rwa [hlast] at hk

/-- Without a decision a pipeline counts as sending. -/
theorem Sound.last_none (h : Sound g) (hlast : Table.lookup k g.last = none) :
    (true :: turns k g.journal).getLast? = some true := by
  have hk := h.last k
  rw [hlast] at hk
  rw [hk]
  rfl

/-- A decision that turns nothing. -/
theorem Sound.noted (h : Sound g) {send : Bool}
    (hsame : (true :: turns k g.journal).getLast? = some send) :
    Sound { g with last := Table.upsert k send g.last } where
  spaced := h.spaced
  stamped := h.stamped
  owed := h.owed
  paired := h.paired
  alternate := h.alternate
  last k' := by
    by_cases hk : k' = k
    · subst hk
      rw [Table.lookup_upsert_self]
      exact hsame
    · rw [Table.lookup_upsert_of_ne _ _ hk]
      exact h.last k'

/-- A transition line: the pipeline does what it did not do before. -/
theorem Sound.turned (h : Sound g) {send : Bool} {reason : String}
    (hturn : (true :: turns k g.journal).getLast? = some (!send)) :
    Sound { g with
      last := Table.upsert k send g.last
      journal := g.journal ++ [.turned k send reason] } where
  spaced k' type := by
    rw [errorTimes_concat]
    exact (List.append_nil _).symm ▸ h.spaced k' type
  stamped k' type := by
    rw [errorTimes_concat]
    exact (List.append_nil _).symm ▸ h.stamped k' type
  owed k' hk' := (h.owed k' hk').concat fun heq ↦ by cases heq
  paired k' := (h.paired k').concat fun heq ↦ by cases heq
  alternate k' := by
    rw [turns_concat, ← List.cons_append]
    by_cases hk : k = k'
    · subst hk
      rw [Line.turn, if_pos rfl, Option.toList_some, List.isChain_append]
      refine ⟨h.alternate k, .singleton _, fun x hx y hy ↦ ?_⟩
      rw [hturn, Option.mem_some_iff] at hx
      rw [List.head?_cons, Option.mem_some_iff] at hy
      rw [← hx, ← hy]
      exact Bool.not_ne_self send
    · rw [Line.turn, if_neg hk, Option.toList_none, List.append_nil]
      exact h.alternate k'
  last k' := by
    rw [turns_concat, Line.turn]
    by_cases hk : k = k'
    · subst hk
      rw [Table.lookup_upsert_self, if_pos rfl, Option.toList_some, ← List.cons_append]
      exact List.getLast?_concat
    · rw [Table.lookup_upsert_of_ne _ _ (Ne.symm hk), if_neg hk, Option.toList_none, List.append_nil]
      exact h.last k'

end lines

/-! ## One decision, and all of them -/

section decisions

variable (clock : ℕ → ℚ)

theorem triple_clearExceptions (p : Daemon.Pipeline) (d : Decision) :
    Triple Sound (clearExceptions p d) (fun _ ↦ Sound) (fun _ _ ↦ False) (fun _ ↦ False) := by
  intro g h
  have hfewer : ∀ k' ∈ g.owed.filter fun x ↦ x ≠ pipeKey p, k' ∈ g.owed ∧ k' ≠ pipeKey p :=
    fun k' hk' ↦ by
      obtain ⟨hmem, hne⟩ := List.mem_filter.mp hk'
      exact ⟨hmem, of_decide_eq_true hne⟩
  rw [clearExceptions, wp_bind, wp_get, wp_bind, wp_modify]
  split
  · rename_i hk
    rw [write, wp_modify]
    exact h.recovered hk rfl rfl hfewer rfl
  · rw [wp_pure]
    have hsame : g.journal = g.journal ++ [] := (List.append_nil _).symm
    exact h.append (fun _ _ ↦ rfl) (fun k' hk' ↦ (hfewer k' hk').1) rfl hsame fun _ hl ↦
      absurd hl List.not_mem_nil

theorem mem_insertKey {κ : Type} [DecidableEq κ] {x y : κ} {s : List κ} (h : y ∈ insertKey x s) :
    y ∈ s ∨ y = x := by
  rw [insertKey] at h
  split at h
  · exact .inl h
  · exact (List.mem_append.mp h).imp_right List.mem_singleton.mp

theorem triple_failed (p : Daemon.Pipeline) (e : Exn) :
    Triple Sound (failed clock p e) (fun d g ↦ Sound g ∧ d.rule = 0) (fun _ _ ↦ False)
      (fun _ ↦ False) := by
  intro g h
  rw [failed]
  dsimp only
  rw [wp_bind]
  refine wp_mono_ok (wp_report clock g) fun say g' hr ↦ ?_
  rw [wp_bind, wp_modify]
  split
  · rename_i hsay
    subst hsay
    obtain ⟨ls, hls, hquiet⟩ := hr.journal
    rw [wp_pure]
    refine ⟨h.append (fun k type ↦ ?_) (fun k hk ↦ ?_) hr.last hls hquiet, rfl⟩
    · by_cases heq : (k, type) = (pipeKey p, e.typeName)
      · cases heq
        exact hr.silent rfl
      · exact hr.others k type heq
    · dsimp only at hk
      rw [if_neg fun hne ↦ hne.1 rfl] at hk
      exact hr.owed ▸ hk
  · rename_i hsay
    rw [wp_bind, wp_get, wp_bind, write, wp_modify, wp_pure]
    refine ⟨h.failed hr hsay rfl rfl (fun k hk ↦ ?_) rfl, rfl⟩
    dsimp only at hk
    split at hk
    · exact mem_insertKey hk
    · exact .inl hk

theorem triple_transition (p : Daemon.Pipeline) (d : Decision) :
    Triple Sound (transition p d) (fun _ ↦ Sound) (fun _ _ ↦ False) (fun _ ↦ False) := by
  intro g h
  rw [transition]
  split
  · exact h
  · dsimp only
    rw [wp_bind, wp_get]
    cases hlast : Table.lookup (pipeKey p) g.last with
    | none =>
      dsimp only
      have hnone := h.last_none hlast
      split
      · split
        · exact h
        · rw [wp_bind, wp_modify, write, wp_modify]
          exact h.append (fun _ _ ↦ rfl) (fun _ hk ↦ hk) rfl rfl (by simp [Line.Quiet])
      · rw [wp_bind, wp_modify]
        split
        · rename_i hsend
          rw [hsend]
          exact h.noted hnone
        · rename_i hsend
          rw [write, wp_modify, Bool.not_eq_true] at *
          rw [hsend]
          exact h.turned hnone
    | some prev =>
      dsimp only
      have hsome := h.last_eq hlast
      rw [wp_bind, wp_modify]
      split
      · rename_i hsame
        rw [← hsame]
        exact h.noted hsome
      · rename_i hturn
        rw [write, wp_modify]
        refine h.turned ?_
        rw [hsome, Bool.eq_not_of_ne hturn]

/-- **A decision, clean or not, keeps what the tables hold of the journal.** -/
theorem triple_decide (p : Daemon.Pipeline) (v : Sight) :
    Triple Sound (decide clock p v) (fun _ ↦ Sound) (fun _ _ ↦ False) (fun _ ↦ False) := by
  intro g h
  rw [decide, wp_bind, wp_tryCatch, wp_bind]
  refine wp_mono (ends_rules clock p v g) (fun d g' hq ↦ ?_) (fun e g' hq ↦ ?_) fun _ h ↦ h
  · rw [wp_bind]
    refine wp_mono (triple_clearExceptions p d g' (h.quiet hq)) (fun _ g'' h ↦ ?_)
      (fun _ _ h ↦ h.elim) fun _ h ↦ h
    rw [wp_pure, wp_bind]
    exact triple_transition p d g'' h
  · refine wp_mono_ok (triple_failed clock p e g' (h.quiet hq)) fun d g'' h ↦ ?_
    rw [wp_bind]
    exact triple_transition p d g'' h.1

/-- What a new gate writes over these decisions. -/
def journalOf (ds : List (Daemon.Pipeline × Sight)) : List Line := (decideAll clock ds {}).journal

theorem sound_decideAll (ds : List (Daemon.Pipeline × Sight)) {g : Gate} (h : Sound g) :
    Sound (decideAll clock ds g) := by
  induction ds generalizing g with
  | nil => exact h
  | cons d ds ih =>
    obtain ⟨p, v⟩ := d
    refine ih (snd_of_wp (wp_mono (triple_decide clock p v g h) (fun _ _ h ↦ h) (fun _ _ h ↦ h.elim)
      fun _ h ↦ h.elim))

/-- **The journal of a gate**, whatever the pipelines, what their decisions find or raise, and what
the clock says: two `ERROR` lines for one pipeline and exception type are a reminder's interval
apart; before each recovery line of a pipeline an `ERROR` line of its own stands, since its last
recovery line, so that at each point it has no more of these than of those; and its transition
lines alternate, held first. -/
theorem journal_throttled (clock : ℕ → ℚ) (ds : List (Daemon.Pipeline × Sight)) :
    (∀ k type, (errorTimes k type (journalOf clock ds)).Pairwise fun a b ↦ a + REMIND_S ≤ b) ∧
    (∀ k, Preceded (IsRecovery k) (Since (IsError k) (IsRecovery k)) (journalOf clock ds)) ∧
    (∀ k n, ((journalOf clock ds).take n).countP (IsRecovery k ·) ≤
      ((journalOf clock ds).take n).countP (IsError k ·)) ∧
    ∀ k, (turns k (journalOf clock ds)).IsChain (· ≠ ·) ∧
      ∀ send ∈ (turns k (journalOf clock ds)).head?, send = false := by
  have h : Sound (decideAll clock ds {}) := sound_decideAll clock ds sound_new
  refine ⟨h.spaced, h.paired, fun k n ↦ ?_, fun k ↦ ?_⟩
  · have hne : ∀ l, IsError k l → ¬ IsRecovery k l := fun l hl hl' ↦ by
      cases l <;> cases hl
      cases hl'
    exact (countP_le_of_preceded hne ((h.paired k).take n)).1
  · have halt := h.alternate k
    change (true :: turns k (journalOf clock ds)).IsChain (· ≠ ·) at halt
    cases hturns : turns k (journalOf clock ds) with
    | nil => exact ⟨.nil, fun _ h ↦ nomatch h⟩
    | cons send rest =>
      rw [hturns] at halt
      rw [List.isChain_cons_cons] at halt
      refine ⟨halt.2, fun send' hsend' ↦ ?_⟩
      rw [List.head?_cons, Option.mem_some_iff] at hsend'
      rw [← hsend']
      exact Bool.eq_false_of_not_eq_true (Ne.symm halt.1)

end decisions

end SinkGate
end HsUploader
