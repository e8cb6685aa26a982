import Mathlib.Logic.Relation
import HsUploader.Library.Table

/-!
# Delivery from a table, with a cursor and a retry queue

The protocol behind a store-and-forward uploader, without its calls and its failures.  Rows with
increasing keys are appended to a table.  A reader takes a batch past the cursor, and hands it over;
when the receiver has acked it the cursor advances to the key the batch accounts for, and the rows
up to that key may be removed from the table.  A batch that was not acked joins the queue or is
dropped.  While the queue holds a batch the table is not read.

What a read takes is a parameter, `Rules.Reads`, and so is whether the process may crash between an
ack and the advance.  Two things are proved of every run:

* `Covered`: if a read never leaves a wanted row out between the cursor and the key the batch
  accounts for (`Rules.Complete`), every wanted row up to the cursor was delivered, crashes or not;
* `Exact`: if moreover it takes nothing else (`Rules.Precise`) and there are no crashes, the rows
  delivered are the wanted rows up to the cursor, each once and in order.

## What is here

* `State` and `Step` — the table, the rows there ever were, the cursor, the queue, what is in hand,
  and what has been delivered, and the steps between them.
* `Sound` and `Carried` — what every run keeps without any condition on the reads: the table is what
  is left of the rows, and a batch carries rows of a kind only if every read takes such rows.
* `Covered` — each batch *accounts* for every wanted row up to its key, with what was delivered
  before it.  New rows lie past every key that is accounted for, so an append costs nothing
  (`Accounts.grow`); an advance moves the cursor to the key of a delivered batch.
* `Tidy` and `Exact` — there is one batch at most between the cursor and the rest of the table, and
  it carries what comes next.

Nothing is supposed of the keys but their order, nor of what a row is.
-/

set_option autoImplicit false

namespace Outbox

open Table

variable {α κ : Type*} [LinearOrder κ]

/-- A batch: the rows it carries, and the key it accounts for. -/
structure Batch (α κ : Type*) where
  rows : List α
  upTo : κ

/-- What the process holds between two steps. -/
inductive Hand (α κ : Type*) where
  | idle
  /-- A batch, read or taken off the queue, that has not been acked. -/
  | held (b : Batch α κ)
  /-- A batch that has been acked and whose advance is outstanding. -/
  | acked (b : Batch α κ)
  /-- A batch whose rows may be removed now. -/
  | advanced (b : Batch α κ)

/-- The rows that have been delivered and that the cursor does not account for yet. -/
def Hand.inFlight : Hand α κ → List α
  | acked b => b.rows
  | idle | held _ | advanced _ => []

/-- The state of a delivery. -/
structure State (α κ : Type*) where
  table : List α
  /-- Every key up to this one has been given out. -/
  top : κ
  /-- The rows the table has ever had. -/
  ever : List α
  removed : List α
  cursor : κ
  queue : List (Batch α κ)
  delivered : List α
  hand : Hand α κ

/-- The parameters of the protocol. -/
structure Rules (α κ : Type*) where
  key : α → κ
  /-- From this table and cursor a read may take this batch. -/
  Reads : List α → κ → Batch α κ → Prop
  /-- The rows a cleanup may remove. -/
  Removes : α → Prop
  /-- The process may crash between an ack and the advance. -/
  crashes : Prop
  /-- A batch accounts for the key of a row. -/
  upTo_mem : ∀ {table c b}, Reads table c b → ∃ r ∈ table, key r = b.upTo

/-- One step of a delivery. -/
inductive Step (R : Rules α κ) : State α κ → State α κ → Prop
  /-- Rows are appended to the table. -/
  | grow {s} (new : List α) (top : κ) (hnew : ∀ r ∈ new, s.top < R.key r ∧ R.key r ≤ top)
      (hinc : Increasing R.key new) (htop : s.top ≤ top) :
      Step R s { s with table := s.table ++ new, ever := s.ever ++ new, top := top }
  /-- A batch is taken off the queue. -/
  | take {s} (b : Batch α κ) (q : List (Batch α κ)) (hidle : s.hand = .idle) (hb : b ∈ s.queue)
      (hq : q.Sublist s.queue) (hlt : q.length < s.queue.length) :
      Step R s { s with queue := q, hand := .held b }
  /-- A batch is read. -/
  | read {s} (b : Batch α κ) (hidle : s.hand = .idle) (hq : s.queue = [])
      (hb : R.Reads s.table s.cursor b) : Step R s { s with hand := .held b }
  /-- It is acked. -/
  | ack {s} (b : Batch α κ) (hb : s.hand = .held b) :
      Step R s { s with delivered := s.delivered ++ b.rows, hand := .acked b }
  /-- The cursor advances. -/
  | advance {s} (b : Batch α κ) (hb : s.hand = .acked b) :
      Step R s { s with cursor := max s.cursor b.upTo, hand := .advanced b }
  /-- Rows are removed. -/
  | clean {s} (b : Batch α κ) (hit : α → Bool) (hb : s.hand = .advanced b)
      (hhit : ∀ r ∈ s.table, hit r = true → R.Removes r ∧ R.key r ≤ b.upTo) :
      Step R s { s with
        table := s.table.filter fun r ↦ !hit r, removed := s.removed ++ s.table.filter hit
        hand := .idle }
  /-- No rows are removed. -/
  | leave {s} (b : Batch α κ) (hb : s.hand = .advanced b) : Step R s { s with hand := .idle }
  /-- The batch joins the queue. -/
  | requeue {s} (b : Batch α κ) (hb : s.hand = .held b) :
      Step R s { s with queue := s.queue ++ [b], hand := .idle }
  /-- It is dropped. -/
  | drop {s} (b : Batch α κ) (hb : s.hand = .held b) : Step R s { s with hand := .idle }
  /-- The process crashes between an ack and the advance. -/
  | crash {s} (b : Batch α κ) (hc : R.crashes) (hb : s.hand = .acked b) :
      Step R s { s with hand := .idle }

/-- A run of the protocol. -/
abbrev Run (R : Rules α κ) : State α κ → State α κ → Prop := Relation.ReflTransGen (Step R)

variable {R : Rules α κ} {s s' : State α κ}

/-! ## What holds of every run -/

/-- The batches that have not been accounted for yet. -/
def State.pending (s : State α κ) : List (Batch α κ) :=
  match s.hand with
  | .idle => s.queue
  | .held b | .acked b | .advanced b => b :: s.queue

/-- The table is what is left of the rows it has ever had, and no key lies above the top. -/
structure Sound (R : Rules α κ) (s : State α κ) : Prop where
  increasing : Increasing R.key s.ever
  sublist : s.table.Sublist s.ever
  mem_ever : ∀ r, r ∈ s.ever ↔ r ∈ s.table ∨ r ∈ s.removed
  removes : ∀ r ∈ s.removed, R.Removes r
  le_top : ∀ r ∈ s.ever, R.key r ≤ s.top
  cursor_le : s.cursor ≤ s.top
  pending_le : ∀ b ∈ s.pending, b.upTo ≤ s.top

theorem Sound.table_increasing (h : Sound R s) : Increasing R.key s.table :=
  h.increasing.sublist h.sublist

theorem Sound.mem_table (h : Sound R s) {r : α} (hr : r ∈ s.table) : r ∈ s.ever :=
  h.sublist.subset hr

theorem Sound.step (h : Sound R s) (hs : Step R s s') : Sound R s' := by
  cases hs with
  | grow new top hnew hinc htop =>
    refine ⟨h.increasing.append hinc fun a ha b hb ↦ (h.le_top a ha).trans_lt (hnew b hb).1,
      h.sublist.append_right new, fun r ↦ ?_, h.removes, fun r hr ↦ ?_, h.cursor_le.trans htop,
      fun b hb ↦ (h.pending_le b hb).trans htop⟩
    · rw [List.mem_append, List.mem_append, h.mem_ever]
      tauto
    · rcases List.mem_append.mp hr with hr | hr
      · exact (h.le_top r hr).trans htop
      · exact (hnew r hr).2
  | take b q hidle hb hq hlt =>
    have hpend : s.pending = s.queue := by rw [State.pending, hidle]
    refine { h with pending_le := fun b' hb' ↦ ?_ }
    rcases List.mem_cons.mp hb' with rfl | hb'
    · exact h.pending_le _ (hpend ▸ hb)
    · exact h.pending_le b' (hpend ▸ hq.subset hb')
  | read b hidle hq hb =>
    refine { h with pending_le := fun b' hb' ↦ ?_ }
    rw [State.pending, hq, List.mem_singleton] at hb'
    subst hb'
    obtain ⟨r, hr, hkey⟩ := R.upTo_mem hb
    exact hkey ▸ h.le_top r (h.mem_table hr)
  | ack b hb =>
    exact { h with pending_le := fun b' hb' ↦ h.pending_le b' (by rwa [State.pending, hb]) }
  | advance b hb =>
    refine { h with
      cursor_le := max_le h.cursor_le (h.pending_le b ?_)
      pending_le := fun b' hb' ↦ h.pending_le b' (by rwa [State.pending, hb]) }
    rw [State.pending, hb]
    exact List.mem_cons_self
  | clean b hit hb hhit =>
    refine { h with
      sublist := List.filter_sublist.trans h.sublist
      mem_ever := fun r ↦ ?_
      removes := fun r hr ↦ ?_
      pending_le := fun b' hb' ↦ h.pending_le b' ?_ }
    · rw [h.mem_ever, List.mem_append, List.mem_filter, List.mem_filter]
      cases hit r <;> simp
      tauto
    · rcases List.mem_append.mp hr with hr | hr
      · exact h.removes r hr
      · exact (hhit r (List.mem_filter.mp hr).1 (List.mem_filter.mp hr).2).1
    · rw [State.pending, hb]
      exact List.mem_cons_of_mem b hb'
  | requeue b hb =>
    refine { h with pending_le := fun b' hb' ↦ h.pending_le b' ?_ }
    rw [State.pending, hb]
    simp only [State.pending, List.mem_append, List.mem_singleton] at hb'
    exact List.mem_cons.mpr hb'.symm
  | leave b hb | drop b hb | crash b _ hb =>
    refine { h with pending_le := fun b' hb' ↦ h.pending_le b' ?_ }
    rw [State.pending, hb]
    exact List.mem_cons_of_mem b hb'

theorem Sound.run (h : Sound R s) (hs : Run R s s') : Sound R s' := by
  induction hs with
  | refl => exact h
  | tail _ hstep ih => exact ih.step hstep

/-- Only rows with the property `P` are carried. -/
structure Carried (P : α → Prop) (s : State α κ) : Prop where
  delivered : ∀ r ∈ s.delivered, P r
  pending : ∀ b ∈ s.pending, ∀ r ∈ b.rows, P r

theorem Carried.step {P : α → Prop} (hR : ∀ table c b, R.Reads table c b → ∀ r ∈ b.rows, P r)
    (h : Carried P s) (hs : Step R s s') : Carried P s' := by
  have hpend := h.pending
  cases hs with
  | grow new top hnew hinc htop => exact ⟨h.delivered, hpend⟩
  | take b q hidle hb hq hlt =>
    rw [State.pending, hidle] at hpend
    refine ⟨h.delivered, fun b' hb' ↦ ?_⟩
    rcases List.mem_cons.mp hb' with rfl | hb'
    · exact hpend _ hb
    · exact hpend b' (hq.subset hb')
  | read b hidle hq hb =>
    refine ⟨h.delivered, fun b' hb' ↦ ?_⟩
    rw [State.pending, hq, List.mem_singleton] at hb'
    rw [hb']
    exact hR _ _ b hb
  | ack b hb =>
    rw [State.pending, hb] at hpend
    refine ⟨fun r hr ↦ ?_, hpend⟩
    rcases List.mem_append.mp hr with hr | hr
    · exact h.delivered r hr
    · exact hpend b List.mem_cons_self r hr
  | advance b hb =>
    rw [State.pending, hb] at hpend
    exact ⟨h.delivered, hpend⟩
  | requeue b hb =>
    rw [State.pending, hb] at hpend
    refine ⟨h.delivered, fun b' hb' ↦ hpend b' ?_⟩
    rcases List.mem_append.mp hb' with hb' | hb'
    · exact List.mem_cons_of_mem b hb'
    · rw [List.mem_singleton.mp hb']
      exact List.mem_cons_self
  | clean b hit hb hhit | leave b hb | drop b hb | crash b _ hb =>
    rw [State.pending, hb] at hpend
    exact ⟨h.delivered, fun b' hb' ↦ hpend b' (List.mem_cons_of_mem b hb')⟩

theorem Carried.run {P : α → Prop} (hR : ∀ table c b, R.Reads table c b → ∀ r ∈ b.rows, P r)
    (h : Carried P s) (hs : Run R s s') : Carried P s' := by
  induction hs with
  | refl => exact h
  | tail _ hstep ih => exact ih.step hR hstep

/-! ## At least once -/

/-- A read leaves no wanted row out between the cursor and the key it accounts for. -/
def Rules.Complete (R : Rules α κ) (want : α → Prop) : Prop :=
  ∀ table c b, R.Reads table c b → ∀ r ∈ table, want r → c < R.key r → R.key r ≤ b.upTo →
    r ∈ b.rows

/-- Every wanted row up to the key `e` is in the list. -/
def Accounts (R : Rules α κ) (want : α → Prop) (s : State α κ) (e : κ) (l : List α) : Prop :=
  ∀ r ∈ s.ever, want r → R.key r ≤ e → r ∈ l

/-- What a held batch accounts for. -/
def Hand.Accounts (R : Rules α κ) (want : α → Prop) (s : State α κ) : Prop :=
  match s.hand with
  | .idle => True
  | .held b => Outbox.Accounts R want s b.upTo (s.delivered ++ b.rows)
  | .acked b | .advanced b => Outbox.Accounts R want s b.upTo s.delivered

/-- Every wanted row up to the cursor has been delivered, and so has every wanted row removed. -/
structure Covered (R : Rules α κ) (want : α → Prop) (s : State α κ) : Prop where
  cursor : Accounts R want s s.cursor s.delivered
  removed : ∀ r ∈ s.removed, want r → r ∈ s.delivered
  queue : ∀ b ∈ s.queue, Accounts R want s b.upTo (s.delivered ++ b.rows)
  hand : Hand.Accounts R want s

section covered

variable {want : α → Prop}

/-- New rows lie past everything a batch may account for. -/
theorem Accounts.grow {e : κ} {l new : List α} {top : κ} (h : Accounts R want s e l)
    (he : e ≤ s.top) (hnew : ∀ r ∈ new, s.top < R.key r ∧ R.key r ≤ top) :
    Accounts R want { s with table := s.table ++ new, ever := s.ever ++ new, top := top } e l := by
  intro r hr hw hle
  rcases List.mem_append.mp hr with hr | hr
  · exact h r hr hw hle
  · exact absurd ((hnew r hr).1.trans_le hle) (not_lt.mpr he)

/-- A batch just read, and what was delivered before, account for every row up to its key. -/
theorem Covered.read (hR : R.Complete want) (hs : Sound R s) (h : Covered R want s)
    {b : Batch α κ} (hb : R.Reads s.table s.cursor b) :
    Accounts R want s b.upTo (s.delivered ++ b.rows) := by
  intro r hr hw hle
  rw [List.mem_append]
  rcases le_or_gt (R.key r) s.cursor with hc | hc
  · exact .inl (h.cursor r hr hw hc)
  · rcases (hs.mem_ever r).mp hr with ht | ht
    · exact .inr (hR _ _ _ hb r ht hw hc hle)
    · exact .inl (h.removed r ht hw)

theorem Covered.step (hR : R.Complete want) (hs : Sound R s) (h : Covered R want s)
    (hstep : Step R s s') : Covered R want s' := by
  have hhand := h.hand
  cases hstep with
  | grow new top hnew hinc htop =>
    refine ⟨h.cursor.grow hs.cursor_le hnew, h.removed, fun b hb ↦ ?_, ?_⟩
    · refine (h.queue b hb).grow (hs.pending_le b ?_) hnew
      rw [State.pending]
      split
      · exact hb
      all_goals exact List.mem_cons_of_mem _ hb
    · have hle := hs.pending_le
      simp only [Hand.Accounts, State.pending] at hhand hle ⊢
      split
      · trivial
      all_goals
        rename_i hb
        rw [hb] at hhand hle
        exact Accounts.grow hhand (hle _ List.mem_cons_self) hnew
  | take b q hidle hb hq hlt =>
    exact ⟨h.cursor, h.removed, fun b' hb' ↦ h.queue b' (hq.subset hb'), h.queue b hb⟩
  | read b hidle hq hb =>
    exact ⟨h.cursor, h.removed, h.queue, h.read hR hs hb⟩
  | ack b hb =>
    rw [Hand.Accounts, hb] at hhand
    exact ⟨fun r hr hw hle ↦ List.mem_append_left _ (h.cursor r hr hw hle),
      fun r hr hw ↦ List.mem_append_left _ (h.removed r hr hw),
      fun b' hb' r hr hw hle ↦ by
        have := h.queue b' hb' r hr hw hle
        simp only [List.mem_append] at this ⊢
        tauto,
      hhand⟩
  | advance b hb =>
    rw [Hand.Accounts, hb] at hhand
    refine ⟨fun r hr hw hle ↦ ?_, h.removed, h.queue, hhand⟩
    rcases le_sup_iff.mp hle with hle | hle
    · exact h.cursor r hr hw hle
    · exact hhand r hr hw hle
  | clean b hit hb hhit =>
    rw [Hand.Accounts, hb] at hhand
    refine ⟨h.cursor, fun r hr hw ↦ ?_, h.queue, trivial⟩
    rcases List.mem_append.mp hr with hr | hr
    · exact h.removed r hr hw
    · obtain ⟨hr, hit⟩ := List.mem_filter.mp hr
      exact hhand r (hs.mem_table hr) hw (hhit r hr hit).2
  | requeue b hb =>
    rw [Hand.Accounts, hb] at hhand
    refine ⟨h.cursor, h.removed, fun b' hb' ↦ ?_, trivial⟩
    rcases List.mem_append.mp hb' with hb' | hb'
    · exact h.queue b' hb'
    · rw [List.mem_singleton.mp hb']
      exact hhand
  | leave b hb | drop b hb | crash b _ hb => exact ⟨h.cursor, h.removed, h.queue, trivial⟩

/-- **Every wanted row up to the cursor was delivered**, in every run and across crashes. -/
theorem Covered.run (hR : R.Complete want) (hs : Sound R s) (h : Covered R want s)
    (hrun : Run R s s') : Covered R want s' := by
  induction hrun with
  | refl => exact h
  | tail hrun hstep ih => exact ih.step hR (hs.run hrun) hstep

end covered

/-! ## Exactly once, in order -/

/-- A read takes the wanted rows between the cursor and the key it accounts for, and no others. -/
def Rules.Precise (R : Rules α κ) (want : α → Bool) : Prop :=
  ∀ table c b, Increasing R.key table → R.Reads table c b →
    c ≤ b.upTo ∧ b.rows = window R.key c b.upTo (table.filter want)

theorem Rules.Precise.complete {want : α → Bool} (h : R.Precise want)
    (hinc : ∀ table c b, R.Reads table c b → Increasing R.key table) :
    R.Complete fun r ↦ want r = true := by
  intro table c b hb r hr hw hc hle
  rw [(h table c b (hinc table c b hb) hb).2, mem_window]
  exact ⟨List.mem_filter.mpr ⟨hr, hw⟩, hc, hle⟩

/-- The wanted rows past the key `c` and up to `e`. -/
def span (R : Rules α κ) (want : α → Bool) (rows : List α) (c e : κ) : List α :=
  window R.key c e (rows.filter want)

/-- The batch carries what lies between the cursor and its key, of the rows there ever were. -/
structure Due (R : Rules α κ) (want : α → Bool) (ever : List α) (cursor : κ) (b : Batch α κ) :
    Prop where
  le : cursor ≤ b.upTo
  rows : b.rows = span R want ever cursor b.upTo

/-- At most one batch is pending, and it carries what comes next. -/
structure Tidy (R : Rules α κ) (want : α → Bool) (s : State α κ) : Prop where
  /-- Nothing past the cursor has been removed. -/
  ahead : ∀ r ∈ s.ever, s.cursor < R.key r → r ∈ s.table
  single : s.pending.length ≤ 1
  queue : ∀ b ∈ s.queue, Due R want s.ever s.cursor b
  hand : match s.hand with
    | .idle => True
    | .held b | .acked b => Due R want s.ever s.cursor b
    | .advanced b => b.upTo ≤ s.cursor

section exact

variable {want : α → Bool}

theorem span_append {rows new : List α} {c e top top' : κ} (he : e ≤ top)
    (hnew : ∀ r ∈ new, top < R.key r ∧ R.key r ≤ top') :
    span R want (rows ++ new) c e = span R want rows c e := by
  have hnil : window R.key c e (new.filter want) = [] := by
    refine List.filter_eq_nil_iff.mpr fun r hr ↦ ?_
    have := (hnew r (List.mem_filter.mp hr).1).1
    simpa using fun _ ↦ he.trans_lt this
  rw [span, span, List.filter_append, window, List.filter_append, ← window, ← window,
    hnil, List.append_nil]

theorem Due.grow {b : Batch α κ} {ever new : List α} {cursor top top' : κ}
    (h : Due R want ever cursor b) (he : b.upTo ≤ top)
    (hnew : ∀ r ∈ new, top < R.key r ∧ R.key r ≤ top') : Due R want (ever ++ new) cursor b :=
  ⟨h.le, h.rows.trans (span_append he hnew).symm⟩

/-- A batch just read carries what comes next. -/
theorem Tidy.read (hR : R.Precise want) (hs : Sound R s) (h : Tidy R want s) {b : Batch α κ}
    (hb : R.Reads s.table s.cursor b) : Due R want s.ever s.cursor b := by
  obtain ⟨hle, hrows⟩ := hR _ _ _ hs.table_increasing hb
  refine ⟨hle, hrows.trans ?_⟩
  refine ((hs.table_increasing.filter _).filter _).eq_of_mem_iff
    ((hs.increasing.filter _).filter _) fun r ↦ ?_
  change r ∈ window R.key s.cursor b.upTo (s.table.filter want) ↔
    r ∈ window R.key s.cursor b.upTo (s.ever.filter want)
  rw [mem_window, mem_window, List.mem_filter, List.mem_filter]
  constructor
  · rintro ⟨⟨hr, hw⟩, hk⟩
    exact ⟨⟨hs.mem_table hr, hw⟩, hk⟩
  · rintro ⟨⟨hr, hw⟩, hk⟩
    exact ⟨⟨h.ahead r hr hk.1, hw⟩, hk⟩

theorem Tidy.queue_nil (h : Tidy R want s) {b : Batch α κ} (hp : s.pending = b :: s.queue) :
    s.queue = [] := by
  have := h.single
  rw [hp, List.length_cons] at this
  exact List.eq_nil_of_length_eq_zero (by omega)

theorem Tidy.step (hR : R.Precise want) (hs : Sound R s) (h : Tidy R want s)
    (hstep : Step R s s') : Tidy R want s' := by
  have hhand := h.hand
  have hsingle := h.single
  cases hstep with
  | grow new top hnew hinc htop =>
    refine ⟨fun r hr hc ↦ ?_, hsingle, fun b hb ↦ ?_, ?_⟩
    · rcases List.mem_append.mp hr with hr | hr
      · exact List.mem_append_left _ (h.ahead r hr hc)
      · exact List.mem_append_right _ hr
    · refine (h.queue b hb).grow (hs.pending_le b ?_) hnew
      rw [State.pending]
      split
      · exact hb
      all_goals exact List.mem_cons_of_mem _ hb
    · have hle := hs.pending_le
      simp only [State.pending] at hhand hle ⊢
      split
      · trivial
      · rename_i hb
        rw [hb] at hhand hle
        exact hhand.grow (hle _ List.mem_cons_self) hnew
      · rename_i hb
        rw [hb] at hhand hle
        exact hhand.grow (hle _ List.mem_cons_self) hnew
      · rename_i hb
        rw [hb] at hhand
        exact hhand
  | take b q hidle hb hq hlt =>
    rw [State.pending, hidle] at hsingle
    dsimp only at hsingle
    obtain rfl : q = [] := List.eq_nil_of_length_eq_zero (by omega)
    exact ⟨h.ahead, le_rfl, fun b' hb' ↦ h.queue b' (hq.subset hb'), h.queue b hb⟩
  | read b hidle hq hb =>
    refine ⟨h.ahead, ?_, h.queue, h.read hR hs hb⟩
    simp [State.pending, hq]
  | ack b hb =>
    rw [hb] at hhand
    rw [State.pending, hb] at hsingle
    exact ⟨h.ahead, hsingle, h.queue, hhand⟩
  | advance b hb =>
    rw [hb] at hhand
    have hq : s.queue = [] := h.queue_nil (by rw [State.pending, hb])
    refine ⟨fun r hr hc ↦ h.ahead r hr ((le_max_left _ _).trans_lt hc), ?_, ?_, le_max_right _ _⟩
    · simp [State.pending, hq]
    · simp [hq]
  | clean b hit hb hhit =>
    rw [hb] at hhand
    have hq : s.queue = [] := h.queue_nil (by rw [State.pending, hb])
    refine ⟨fun r hr hc ↦ ?_, ?_, h.queue, trivial⟩
    · have ht := h.ahead r hr hc
      refine List.mem_filter.mpr ⟨ht, ?_⟩
      rw [Bool.not_eq_true', Bool.eq_false_iff]
      exact fun hr' ↦ absurd (hhand.trans_lt hc) (not_lt.mpr (hhit r ht hr').2)
    · simp [State.pending, hq]
  | requeue b hb =>
    rw [hb] at hhand
    have hq : s.queue = [] := h.queue_nil (by rw [State.pending, hb])
    refine ⟨h.ahead, ?_, fun b' hb' ↦ ?_, trivial⟩
    · simp [State.pending, hq]
    · rw [hq, List.nil_append, List.mem_singleton] at hb'
      rw [hb']
      exact hhand
  | leave b hb | drop b hb | crash b _ hb =>
    have hq : s.queue = [] := h.queue_nil (by rw [State.pending, hb])
    exact ⟨h.ahead, by simp [State.pending, hq], h.queue, trivial⟩

theorem Tidy.run (hR : R.Precise want) (hs : Sound R s) (h : Tidy R want s)
    (hrun : Run R s s') : Tidy R want s' := by
  induction hrun with
  | refl => exact h
  | tail hrun hstep ih => exact ih.step hR (hs.run hrun) hstep

/-- Since the state in which `base` had been delivered and the cursor stood at `c`, what was
delivered is what the cursor has passed, and what is in flight. -/
structure Exact (R : Rules α κ) (want : α → Bool) (base : List α) (c : κ) (s : State α κ) :
    Prop where
  tidy : Tidy R want s
  le : c ≤ s.cursor
  delivered : s.delivered = base ++ span R want s.ever c s.cursor ++ s.hand.inFlight

variable {base : List α} {c : κ}

theorem Exact.step (hR : R.Precise want) (hc : ¬ R.crashes) (hs : Sound R s)
    (h : Exact R want base c s) (hstep : Step R s s') : Exact R want base c s' := by
  have htidy := h.tidy.step hR hs hstep
  have hdel := h.delivered
  have hhand := h.tidy.hand
  cases hstep with
  | grow new top hnew hinc htop =>
    refine ⟨htidy, h.le, ?_⟩
    rw [span_append hs.cursor_le hnew]
    exact hdel
  | take b q hidle hb hq hlt =>
    rw [hidle] at hdel
    exact ⟨htidy, h.le, hdel⟩
  | read b hidle hq hb =>
    rw [hidle] at hdel
    exact ⟨htidy, h.le, hdel⟩
  | ack b hb =>
    rw [hb] at hdel
    refine ⟨htidy, h.le, ?_⟩
    dsimp only [Hand.inFlight] at hdel ⊢
    rw [hdel, List.append_nil]
  | advance b hb =>
    rw [hb] at hdel hhand
    refine ⟨htidy, h.le.trans (le_max_left _ _), ?_⟩
    -- what was in flight is what the cursor passes
    have hwin : span R want s.ever c b.upTo =
        span R want s.ever c s.cursor ++ span R want s.ever s.cursor b.upTo :=
      window_append_window (hs.increasing.filter _) h.le hhand.le
    rw [max_eq_right hhand.le]
    dsimp only [Hand.inFlight] at hdel ⊢
    rw [hdel, hhand.rows, hwin, List.append_nil, List.append_assoc]
  | clean b hit hb hhit | leave b hb | requeue b hb | drop b hb =>
    rw [hb] at hdel
    exact ⟨htidy, h.le, hdel⟩
  | crash b hcr hb => exact absurd hcr hc

/-- **What was delivered is what the cursor has passed**, each row once and in order, in every run
without crashes. -/
theorem Exact.run (hR : R.Precise want) (hc : ¬ R.crashes) (hs : Sound R s)
    (h : Exact R want base c s) (hrun : Run R s s') : Exact R want base c s' := by
  induction hrun with
  | refl => exact h
  | tail hrun hstep ih => exact ih.step hR hc (hs.run hrun) hstep

end exact

end Outbox
