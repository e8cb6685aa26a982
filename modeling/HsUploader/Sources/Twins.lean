import HsUploader.Library.Relational
import HsUploader.Sources.WsprGate
import HsUploader.Sources.Yields

/-!
# Two processes over two queues

Two queues that differ in rows marked local alone (`SameButLocal`), and a source over each of them
while nobody else moves and the clock stands still (`Twins`).  A statement with `local = 0` sees the
same rows of both queues, so the two processes go the same way as long as their statements carry it;
what they remember, and how many steps they have made, may differ.

## What is here

* `shared` and `SameButLocal` — the rows that count, and two queues that share them.
* `Twins` — the two processes, in terms of `Both`.
* `LocalRowFilter.Sighted` — the filter does not remember that there was no column, which it would
  never look for again.
* What a statement that carries `local = 0` makes of the two queues: the same rows.
-/

set_option autoImplicit false

namespace HsUploader

open Prog

variable {μ ρ α β : Type}

/-! ## Two queues -/

/-- The rows that are not local. -/
def shared (rows : List Row) : List Row := rows.filter fun r ↦ !r.isLocal

theorem mem_shared {rows : List Row} {r : Row} : r ∈ shared rows ↔ r ∈ rows ∧ r.isLocal = false := by
  simp [shared]

/-- Both files have the `local` column, and they hold the same rows but for those marked local. -/
structure SameButLocal (k k' : Sink) : Prop where
  column : k.hasLocal = true
  column' : k'.hasLocal = true
  producer : k.hasProducer = k'.hasProducer
  rows : shared k.rows = shared k'.rows

theorem SameButLocal.symm {k k' : Sink} (h : SameButLocal k k') : SameButLocal k' k :=
  ⟨h.column', h.column, h.producer.symm, h.rows.symm⟩

theorem Sink.isSome_of_hasLocal {k : Sink} (h : k.hasLocal = true) : k.isSome = true := by
  cases k with
  | none => exact absurd h Bool.false_ne_true
  | some q => rfl

theorem matching_shared {cs : List Clause} {rows : List Row}
    (h : ∀ r ∈ rows, r.isLocal = true → holds cs r = .ok false) :
    matching cs rows = matching cs (shared rows) :=
  matching_filter _ fun r hr hl ↦ h r hr (by simpa using hl)

theorem firstMatching_shared {cs : List Clause} {limit : Option ℕ} {rows : List Row}
    (h : ∀ r ∈ rows, r.isLocal = true → holds cs r = .ok false) :
    firstMatching cs limit rows = firstMatching cs limit (shared rows) :=
  firstMatching_filter _ fun r hr hl ↦ h r hr (by simpa using hl)

/-- A statement with `local = 0` behind clauses that raise on no local row gives the same of both. -/
theorem SameButLocal.matching_eq {k k' : Sink} (h : SameButLocal k k') {cs : List Clause}
    (hk : ∀ r ∈ k.rows, r.isLocal = true → holds cs r = .ok false)
    (hk' : ∀ r ∈ k'.rows, r.isLocal = true → holds cs r = .ok false) :
    matching cs k.rows = matching cs k'.rows := by
  rw [matching_shared hk, matching_shared hk', h.rows]

theorem holds_localClause {cs : List Clause} {r : Row} (h : r.isLocal = true) :
    holds (localClause :: cs) r = .ok false := by
  rw [localClause, holds_column, h]
  rfl

/-! ## Two processes -/

/-- Two processes over such queues: nobody else moves, their clocks read the same instant, and what
the sources hold is related by `M`. -/
structure Twins (M : μ → μ → Prop) (C : Option String → Option String → Prop) (now : ℚ)
    (k k' : Sink) (s t : Sys (Outside μ) Act ρ) : Prop where
  left : Still s.env k s
  right : Still t.env k' t
  clock : ∀ n, (s.env n).now = now
  clock' : ∀ n, (t.env n).now = now
  ceiling : C s.here.ceiling t.here.ceiling
  switches : s.here.switches = t.here.switches
  mem : M s.here.mem t.here.mem

section rules

variable {M : μ → μ → Prop} {C : Option String → Option String → Prop} {now : ℚ}
  {k k' : Sink} {s t s' t' : Sys (Outside μ) Act ρ}
  {R : Except Exn α → Except Exn β → Prop}

/-- The left process has made steps, and what its source holds or has logged may have changed. -/
theorem Twins.stepped_left (h : Twins M C now k k' s t) {m : μ} {l : List Statement}
    (henv : s'.env = s.env) (hhere : s'.here = { s.here with mem := m, log := l })
    (hM : M m t.here.mem) : Twins M C now k k' s' t where
  left := ⟨rfl, by rw [henv]; exact h.left.ops, by rw [henv]; exact h.left.runs,
    by rw [hhere]; exact h.left.reachable, by rw [hhere]; exact h.left.sink_eq⟩
  right := h.right
  clock := by
    rw [henv]
    exact h.clock
  clock' := h.clock'
  ceiling := by
    rw [hhere]
    exact h.ceiling
  switches := by
    rw [hhere]
    exact h.switches
  mem := by
    rw [hhere]
    exact hM

/-- The right process has. -/
theorem Twins.stepped_right (h : Twins M C now k k' s t) {m : μ} {l : List Statement}
    (henv : t'.env = t.env) (hhere : t'.here = { t.here with mem := m, log := l })
    (hM : M s.here.mem m) : Twins M C now k k' s t' where
  left := h.left
  right := ⟨rfl, by rw [henv]; exact h.right.ops, by rw [henv]; exact h.right.runs,
    by rw [hhere]; exact h.right.reachable, by rw [hhere]; exact h.right.sink_eq⟩
  clock := h.clock
  clock' := by
    rw [henv]
    exact h.clock'
  ceiling := by
    rw [hhere]
    exact h.ceiling
  switches := by
    rw [hhere]
    exact h.switches
  mem := by
    rw [hhere]
    exact hM

theorem Twins.next_left (h : Twins M C now k k' s t) : Twins M C now k k' s.next t :=
  h.stepped_left rfl h.left.here_next h.mem

theorem Twins.next_right (h : Twins M C now k k' s t) : Twins M C now k k' s t.next :=
  h.stepped_right rfl h.right.here_next h.mem

theorem Twins.next (h : Twins M C now k k' s t) : Twins M C now k k' s.next t.next :=
  h.next_left.next_right

theorem Still.run_breathe {env : ℕ → Choice Act ρ} {sink : Sink} (h : Still env sink s) :
    Sys.breathe s = (.ok s.choice, s.next) := by
  rw [Sys.breathe, if_neg h.not_stop]

/-- How a statement runs while nobody else moves. -/
theorem Still.run_statement {env : ℕ → Choice Act ρ} {sink : Sink} (h : Still env sink s)
    (f : Outside μ → Except Exn (α × Outside μ)) :
    statement f s = match f s.here with
      | .ok r => (.ok r.1, { s.next with here := r.2 })
      | .error e => (.raised e, s.next) := by
  rw [statement, bind_of_ok h.run_breathe]
  simp only [actE]
  rw [if_pos h.next.reachable, h.here_next]
  cases f s.here <;> rfl

theorem Still.run_query {env : ℕ → Choice Act ρ} {sink : Sink} (h : Still env sink s)
    (f : Sink → Except Exn α) :
    HsUploader.query f s = match f sink with
      | .ok a => (.ok a, s.next)
      | .error e => (.raised e, s.next) := by
  rw [HsUploader.query, h.run_statement, h.sink_eq]
  cases f sink with
  | error e => rfl
  | ok a => rw [← h.here_next]; rfl

theorem Still.run_selection {env : ℕ → Choice Act ρ} {sink : Sink} (h : Still env sink s)
    (g : List Row → Except Exn (List Row)) (l : Outside μ → List Row → List Statement) :
    statement (fun o ↦ (g o.sink.rows).map fun hit ↦ (hit, { o with log := l o hit })) s =
      match g sink.rows with
      | .ok hit => (.ok hit, { s.next with here := { s.here with log := l s.here hit } })
      | .error e => (.raised e, s.next) := by
  obtain rfl := h.sink_eq
  rw [h.run_statement]
  cases g s.here.sink.rows <;> rfl

/-- One of the two looks at its queue. -/
theorem alone_query {f : Sink → Except Exn α} :
    Alone (Twins (ρ := ρ) M C now k k') (· = f k) (query f) := by
  intro s t hT
  refine ⟨f k, ?_, rfl, ?_⟩ <;> rw [hT.left.run_query]
  · cases f k <;> rfl
  · cases f k <;> exact hT.next_left

theorem alone_setMem {f : μ → μ} (h : ∀ m m', M m m' → M (f m) m') :
    Alone (Twins (ρ := ρ) M C now k k') (· = .ok ()) (setMem f) :=
  fun _ _ hT ↦ ⟨.ok (), rfl, rfl, { hT with
    left := hT.left.setMem _
    ceiling := hT.ceiling
    clock := hT.clock
    switches := hT.switches
    mem := h _ _ hT.mem }⟩

/-- What it holds, it holds beside something the other may hold. -/
theorem alone_mem : Alone (Twins (ρ := ρ) M C now k k')
    (fun x ↦ match x with | .ok m => ∃ m', M m m' | .error _ => False) mem :=
  fun s t hT ↦ ⟨.ok s.here.mem, rfl, ⟨t.here.mem, hT.mem⟩, hT⟩

/-- One of the two selects rows, and logs it. -/
theorem alone_selection {g : List Row → Except Exn (List Row)}
    {l : Outside μ → List Row → List Statement} :
    Alone (Twins (ρ := ρ) M C now k k') (· = g k.rows)
      (statement fun o ↦ (g o.sink.rows).map fun hit ↦ (hit, { o with log := l o hit })) := by
  intro s t hT
  refine ⟨g k.rows, ?_, rfl, ?_⟩ <;> rw [hT.left.run_selection]
  · cases g k.rows <;> rfl
  · cases g k.rows with
    | error e => exact hT.next_left
    | ok hit =>
      have hleft : Twins M C now k k' { s.next with here := { s.here with log := l s.here hit } } t :=
        hT.stepped_left rfl rfl hT.mem
      exact hleft

/-- Both look at their queues. -/
theorem both_query {f : Sink → Except Exn α} {f' : Sink → Except Exn β} (h : R (f k) (f' k')) :
    Both (Twins (ρ := ρ) M C now k k') R (query f) (query f') := by
  intro s t hT
  refine ⟨f k, f' k', ?_, ?_, h, ?_⟩
  · rw [hT.left.run_query]
    cases f k <;> rfl
  · rw [hT.right.run_query]
    cases f' k' <;> rfl
  · rw [hT.left.run_query, hT.right.run_query]
    cases f k <;> cases f' k' <;> exact hT.next

/-- Both select rows, and log it. -/
theorem both_selection {g g' : List Row → Except Exn (List Row)}
    {l l' : Outside μ → List Row → List Statement}
    {R : Except Exn (List Row) → Except Exn (List Row) → Prop} (h : R (g k.rows) (g' k'.rows)) :
    Both (Twins (ρ := ρ) M C now k k') R
      (statement fun o ↦ (g o.sink.rows).map fun hit ↦ (hit, { o with log := l o hit }))
      (statement fun o ↦ (g' o.sink.rows).map fun hit ↦ (hit, { o with log := l' o hit })) := by
  intro s t hT
  refine ⟨g k.rows, g' k'.rows, ?_, ?_, h, ?_⟩
  · rw [hT.left.run_selection]
    cases g k.rows <;> rfl
  · rw [hT.right.run_selection]
    cases g' k'.rows <;> rfl
  · rw [hT.left.run_selection, hT.right.run_selection]
    have hleft : ∀ hit,
        Twins M C now k k' { s.next with here := { s.here with log := l s.here hit } } t :=
      fun hit ↦ hT.stepped_left rfl rfl hT.mem
    cases g k.rows with
    | error e =>
      cases g' k'.rows with
      | error e' => exact hT.next
      | ok hit' => exact hT.next_left.stepped_right rfl rfl hT.next_left.mem
    | ok hit =>
      cases g' k'.rows with
      | error e' => exact (hleft hit).next_right
      | ok hit' => exact (hleft hit).stepped_right rfl rfl hT.mem

theorem both_mem : Both (Twins (ρ := ρ) M C now k k') (Alike M) mem mem :=
  fun s t hT ↦ ⟨.ok s.here.mem, .ok t.here.mem, rfl, rfl, hT.mem, hT⟩

theorem both_setMem {f f' : μ → μ} (h : ∀ m m', M m m' → M (f m) (f' m')) :
    Both (Twins (ρ := ρ) M C now k k') (Alike (· = ·)) (setMem f) (setMem f') :=
  fun _ _ hT ↦ ⟨.ok (), .ok (), rfl, rfl, rfl,
    { left := hT.left.setMem _
      right := hT.right.setMem _
      clock := hT.clock
      clock' := hT.clock'
      ceiling := hT.ceiling
      switches := hT.switches
      mem := h _ _ hT.mem }⟩

theorem both_breathe :
    Both (Twins (ρ := ρ) M C now k k') (Alike fun c c' ↦ c.now = now ∧ c'.now = now) Sys.breathe
      Sys.breathe := by
  intro s t hT
  refine ⟨.ok s.choice, .ok t.choice, ?_, ?_, ⟨hT.clock _, hT.clock' _⟩, ?_⟩
  · rw [hT.left.run_breathe]
    rfl
  · rw [hT.right.run_breathe]
    rfl
  · rw [hT.left.run_breathe, hT.right.run_breathe]
    exact hT.next

theorem both_clock :
    Both (Twins (ρ := ρ) M C now k k') (Alike fun a b ↦ a = now ∧ b = now) clock clock :=
  both_breathe.bind (fun _ _ h ↦ .pure h) fun _ ↦ rfl

theorem both_switches :
    Both (Twins (ρ := ρ) M C now k k') (Alike (· = ·)) (Sys.inMemory fun o ↦ (o.switches, o))
      (Sys.inMemory fun o ↦ (o.switches, o)) :=
  fun s t hT ↦ ⟨.ok s.here.switches, .ok t.here.switches, rfl, rfl, hT.switches, hT⟩

/-! ## The filter -/

/-- The filter remembers no missing column. -/
def LocalRowFilter.Sighted (f : LocalRowFilter) : Prop := f.conn ≠ none → f.hasLocal = true

/-- Over a file with the column a filter that remembers no missing column finds it. -/
theorem Still.run_probe {env : ℕ → Choice Act ρ} {sink : Sink} (h : Still env sink s)
    (hcol : sink.hasLocal = true) {f : LocalRowFilter} (hf : f.Sighted) (conn : ℕ) :
    ∃ f' s', f.probe conn s = (.ok f', s') ∧ f'.hasLocal = true ∧ Looked s s' := by
  rw [LocalRowFilter.probe]
  split
  · rename_i hconn
    exact ⟨f, s, rfl, hf (by rw [hconn]; exact Option.some_ne_none _), rfl, rfl⟩
  · have hask : HsUploader.query (fun s ↦ .ok s.hasLocal) s = (.ok sink.hasLocal, s.next) :=
      h.run_query _
    refine ⟨⟨some conn, sink.hasLocal, sink.hasLocal⟩, s.next, ?_, hcol, h.looked_next⟩
    rw [bind_of_ok hask]
    rfl

/-- One of the two looks for the column, and finds it. -/
theorem alone_probe (hcol : k.hasLocal = true) {f : LocalRowFilter} (hf : f.Sighted) (conn : ℕ) :
    Alone (Twins (ρ := ρ) M C now k k')
      (fun x ↦ ∃ g : LocalRowFilter, x = .ok g ∧ g.hasLocal = true) (f.probe conn) := by
  intro s t hT
  obtain ⟨g, s', hs, hg, hlook⟩ := hT.left.run_probe hcol hf conn
  refine ⟨.ok g, by rw [hs]; rfl, ⟨g, rfl, hg⟩, ?_⟩
  rw [hs]
  exact hT.stepped_left hlook.env_eq hlook.here_eq hT.mem

theorem both_probe (hk : SameButLocal k k') {f f' : LocalRowFilter} (hf : f.Sighted)
    (hf' : f'.Sighted) (conn : ℕ) :
    Both (Twins (ρ := ρ) M C now k k')
      (Alike fun g g' ↦ g.hasLocal = true ∧ g'.hasLocal = true) (f.probe conn) (f'.probe conn) := by
  intro s t hT
  obtain ⟨g, s', hs, hg, hlook⟩ := hT.left.run_probe hk.column hf conn
  obtain ⟨g', t', ht, hg', hlook'⟩ := hT.right.run_probe hk.column' hf' conn
  refine ⟨.ok g, .ok g', by rw [hs]; rfl, by rw [ht]; rfl, ⟨hg, hg'⟩, ?_⟩
  rw [hs, ht]
  exact (hT.stepped_left hlook.env_eq hlook.here_eq hT.mem).stepped_right hlook'.env_eq
    hlook'.here_eq (by rw [hlook.here_eq]; exact hT.mem)

end rules

theorem alike_refl (x : Except Exn α) : Alike (· = ·) x x := by
  cases x <;> rfl

theorem alike_of_eq {x y : Except Exn α} (h : x = y) : Alike (· = ·) x y := h ▸ alike_refl x

/-! ## What is yielded -/

/-- What two runs of the loop yield. -/
theorem Source.yielded_eq {T : Sys (Outside μ) Act ρ → Sys (Outside μ) Act ρ → Prop}
    {source : Source (Outside μ) Act ρ} {cursor : Bytes} {limit : ℤ}
    (h : Both T (Alike fun r r' ↦ r.1 = r'.1) (source.yields cursor limit)
      (source.yields cursor limit)) {s t : Sys (Outside μ) Act ρ} (hT : T s t) :
    (source.yielded cursor limit s).1 = (source.yielded cursor limit t).1 := by
  obtain ⟨x, y, hx, hy, hxy, -⟩ := h s t hT
  rw [Source.yielded, Source.yielded]
  rcases hs : source.yields cursor limit s with ⟨_ | _ | _ | _, s'⟩ <;> rw [hs] at hx <;> cases hx <;>
    rcases ht : source.yields cursor limit t with ⟨_ | _ | _ | _, t'⟩ <;> rw [ht] at hy <;> cases hy
  · exact hxy
  · exact hxy.elim
  · exact hxy.elim

end HsUploader
