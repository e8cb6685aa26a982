import HsUploader.Library.Prog
import HsUploader.Sink.Queue

/-!
# Selecting rows

The `WHERE` and `LIMIT` of a statement on the queue.  A condition is three-valued, as SQL's are, and
evaluating it may raise: `json_extract` does on a malformed payload.  So a statement either raises
or returns rows, and which rows it returns then is a matter of filtering and cutting
(`matching_eq`, `firstMatching_eq`), with nothing left of the way they were found.

## What is here

* `Clause` and `holds` — a condition, and a conjunction in the order in which SQLite evaluates it.
* `matching` and `firstMatching` — a statement that visits every row, and one that stops at its
  limit and so does not raise over the rows behind it.
* `Passes` — the row passes and nothing raises on the way.
* `matching_eq`, `firstMatching_eq` — what a statement returns; `matching_ok`,
  `exists_firstMatching` — when it does not raise.
* `matching_filter`, `matching_congr` — what a statement does not see: rows that fail a clause which
  comes first, and ways of writing the clauses.
-/

set_option autoImplicit false

namespace HsUploader

/-! ## Clauses -/

/-- A condition of a `WHERE` clause, three-valued; evaluating it may raise. -/
abbrev Clause := Row → Except Exn (Option Bool)

/-- A row passes a conjunction when every condition is true.  The conditions are evaluated in turn
and the first one that is not true ends it. -/
def holds : List Clause → Row → Except Exn Bool
  | [], _ => .ok true
  | c :: cs, r => do
    match ← c r with
    | some true => holds cs r
    | _ => pure false

/-- The rows that pass, for a statement that visits every row. -/
def matching (cs : List Clause) : List Row → Except Exn (List Row)
  | [] => .ok []
  | r :: rs => do
    let hit ← holds cs r
    let rest ← matching cs rs
    pure (if hit then r :: rest else rest)

/-- The first rows that pass, for a statement that stops at its `LIMIT`. -/
def firstMatching (cs : List Clause) : Option ℕ → List Row → Except Exn (List Row)
  | some 0, _ => .ok []
  | _, [] => .ok []
  | none, r :: rs => do
    let hit ← holds cs r
    let rest ← firstMatching cs none rs
    pure (if hit then r :: rest else rest)
  | some (n + 1), r :: rs => do
    if ← holds cs r then
      let rest ← firstMatching cs (some n) rs
      pure (r :: rest)
    else firstMatching cs (some (n + 1)) rs

/-- `LIMIT ?`: a negative limit is none. -/
def sqlLimit (limit : ℤ) : Option ℕ := if limit < 0 then none else some limit.toNat

/-- The rows a limit leaves. -/
def takeLimit (limit : Option ℕ) (rows : List Row) : List Row :=
  match limit with
  | none => rows
  | some n => rows.take n

/-- A clause about a column that cannot raise. -/
def Clause.column (p : Row → Bool) : Clause := fun r ↦ .ok (some (p r))

/-- `json_extract(payload_json, '$.<field>') <op> ...`, for a comparison `p`. -/
def Clause.json (field : String) (p : SqlValue → Option Bool) : Clause := fun r ↦
  (r.payloadJson.jsonExtract field).map p

theorem holds_cons (c : Clause) (cs : List Clause) (r : Row) :
    holds (c :: cs) r = c r >>= fun v ↦ if v = some true then holds cs r else pure false := by
  rw [holds]
  cases c r with
  | error e => rfl
  | ok v => rcases v with _ | _ | _ <;> rfl

theorem matching_cons (cs : List Clause) (r : Row) (rs : List Row) :
    matching cs (r :: rs) = (do
      let hit ← holds cs r
      let rest ← matching cs rs
      pure (if hit then r :: rest else rest)) := rfl

theorem firstMatching_none (cs : List Clause) (r : Row) (rs : List Row) :
    firstMatching cs none (r :: rs) = (do
      let hit ← holds cs r
      let rest ← firstMatching cs none rs
      pure (if hit then r :: rest else rest)) := rfl

theorem firstMatching_succ (cs : List Clause) (n : ℕ) (r : Row) (rs : List Row) :
    firstMatching cs (some (n + 1)) (r :: rs) = (do
      if ← holds cs r then
        let rest ← firstMatching cs (some n) rs
        pure (r :: rest)
      else firstMatching cs (some (n + 1)) rs) := rfl

theorem SqlValue.compare_text (c t : String) :
    (SqlValue.text c).compare (.text t) = some (Ord.compare c t) := rfl

theorem Payload.jsonExtract_ok {p : Payload} (field : String) :
    (∃ v, p.jsonExtract field = .ok v) ↔ p.sql ≠ none := by
  rw [Payload.jsonExtract]
  cases p.sql with
  | none => simp
  | some j => cases j <;> simp

/-! ### What passes -/

/-- The row passes, and evaluating the clauses does not raise. -/
def Passes (cs : List Clause) (r : Row) : Prop := holds cs r = .ok true

instance (cs : List Clause) (r : Row) : Decidable (Passes cs r) :=
  match h : holds cs r with
  | .ok true => isTrue h
  | .ok false => isFalse fun h' ↦ by rw [Passes, h] at h'; cases h'
  | .error _ => isFalse fun h' ↦ by rw [Passes, h] at h'; cases h'

theorem holds_column {p : Row → Bool} {cs : List Clause} {r : Row} :
    holds (.column p :: cs) r = if p r then holds cs r else .ok false := by
  rw [holds_cons, Clause.column]
  cases p r <;> rfl

theorem ok_of_holds_cons {c : Clause} {cs : List Clause} {r : Row} {hit : Bool}
    (h : holds (c :: cs) r = .ok hit) : ∃ v, c r = .ok v := by
  rw [holds_cons] at h
  obtain ⟨v, hv, -⟩ := Prog.exists_of_bind_eq_ok h
  exact ⟨v, hv⟩

/-- A clause that does not raise leaves the conjunction to the ones behind it. -/
theorem holds_cons_ok {c : Clause} {cs : List Clause} {r : Row} {v : Option Bool} (hc : c r = .ok v)
    (hcs : v = some true → ∃ hit, holds cs r = .ok hit) : ∃ hit, holds (c :: cs) r = .ok hit := by
  rw [holds_cons, hc]
  match v with
  | some true => exact hcs rfl
  | some false => exact ⟨false, rfl⟩
  | none => exact ⟨false, rfl⟩

/-- Nor does a conjunction of clauses that do not. -/
theorem exists_holds {cs : List Clause} {r : Row} (h : ∀ c ∈ cs, ∃ v, c r = .ok v) :
    ∃ hit, holds cs r = .ok hit := by
  induction cs with
  | nil => exact ⟨true, rfl⟩
  | cons c cs ih =>
    obtain ⟨v, hv⟩ := h c List.mem_cons_self
    exact holds_cons_ok hv fun _ ↦ ih fun c' hc' ↦ h c' (List.mem_cons_of_mem c hc')

/-- Behind clauses that come out the same a conjunction is what its rest is. -/
theorem holds_append_congr {cs ds ds' : List Clause} {r : Row}
    (h : holds cs r = .ok true → holds ds r = holds ds' r) :
    holds (cs ++ ds) r = holds (cs ++ ds') r := by
  induction cs with
  | nil => exact h rfl
  | cons c cs ih =>
    rw [List.cons_append, List.cons_append, holds_cons, holds_cons]
    match hc : c r with
    | .error e => rfl
    | .ok (some true) => exact ih fun hcs ↦ h (by rw [holds_cons, hc]; exact hcs)
    | .ok (some false) => rfl
    | .ok none => rfl

theorem passes_nil (r : Row) : Passes [] r := rfl

theorem passes_cons {c : Clause} {cs : List Clause} {r : Row} :
    Passes (c :: cs) r ↔ c r = .ok (some true) ∧ Passes cs r := by
  rw [Passes, holds_cons]
  constructor
  · intro h
    match hc : c r, h with
    | .ok (some true), h => exact ⟨rfl, h⟩
    | .ok (some false), h => simp [bind, Except.bind, pure, Except.pure] at h
    | .ok none, h => simp [bind, Except.bind, pure, Except.pure] at h
    | .error e, h => simp [bind, Except.bind] at h
  · rintro ⟨hc, h⟩
    rw [hc]
    exact h

theorem passes_append {cs ds : List Clause} {r : Row} :
    Passes (cs ++ ds) r ↔ Passes cs r ∧ Passes ds r := by
  induction cs with
  | nil => simp [passes_nil]
  | cons c cs ih => rw [List.cons_append, passes_cons, passes_cons, ih, and_assoc]

/-- A statement that visits every row and does not raise returns the rows that pass. -/
theorem matching_eq {cs : List Clause} {rows out : List Row} (h : matching cs rows = .ok out) :
    out = rows.filter fun r ↦ decide (Passes cs r) := by
  induction rows generalizing out with
  | nil =>
    cases h
    rfl
  | cons r rs ih =>
    rw [matching_cons] at h
    obtain ⟨hit, hr, h⟩ := Prog.exists_of_bind_eq_ok h
    obtain ⟨rest, hrest, h⟩ := Prog.exists_of_bind_eq_ok h
    cases h
    rw [List.filter_cons, ih hrest]
    cases hit with
    | true => rw [if_pos rfl, if_pos (decide_eq_true (show Passes cs r from hr))]
    | false =>
      have : ¬ Passes cs r := fun hp ↦ by rw [Passes, hr] at hp; cases hp
      rw [if_neg Bool.false_ne_true, if_neg (by simpa using this)]

/-- A statement does not raise when no clause does on any row. -/
theorem matching_ok {cs : List Clause} {rows : List Row}
    (h : ∀ r ∈ rows, ∃ hit, holds cs r = .ok hit) :
    matching cs rows = .ok (rows.filter fun r ↦ decide (Passes cs r)) := by
  suffices hok : ∃ out, matching cs rows = .ok out by
    obtain ⟨out, hout⟩ := hok
    rw [hout, matching_eq hout]
  induction rows with
  | nil => exact ⟨[], rfl⟩
  | cons r rs ih =>
    obtain ⟨hit, hr⟩ := h r List.mem_cons_self
    obtain ⟨rest, hrest⟩ := ih fun r' hr' ↦ h r' (List.mem_cons_of_mem r hr')
    rw [matching_cons, hr, hrest]
    exact ⟨_, rfl⟩

/-- A statement that does not raise has evaluated its conditions on every row. -/
theorem holds_of_matching {cs : List Clause} {rows out : List Row} (h : matching cs rows = .ok out) :
    ∀ r ∈ rows, ∃ hit, holds cs r = .ok hit := by
  induction rows generalizing out with
  | nil => exact fun r hr ↦ absurd hr List.not_mem_nil
  | cons r rs ih =>
    rw [matching_cons] at h
    obtain ⟨hit, hr, h⟩ := Prog.exists_of_bind_eq_ok h
    obtain ⟨rest, hrest, -⟩ := Prog.exists_of_bind_eq_ok h
    intro r' hr'
    rcases List.mem_cons.mp hr' with rfl | hr'
    · exact ⟨hit, hr⟩
    · exact ih hrest r' hr'

/-- A statement does not see the rows that fail a clause before another one is evaluated. -/
theorem matching_filter {cs : List Clause} {rows : List Row} (p : Row → Bool)
    (h : ∀ r ∈ rows, p r = false → holds cs r = .ok false) :
    matching cs rows = matching cs (rows.filter p) := by
  induction rows with
  | nil => rfl
  | cons r rs ih =>
    have hrs := ih fun r' hr' ↦ h r' (List.mem_cons_of_mem r hr')
    cases hp : p r with
    | true => rw [List.filter_cons, if_pos hp, matching_cons, matching_cons, hrs]
    | false =>
      rw [List.filter_cons, if_neg (by simp [hp]), matching_cons, h r List.mem_cons_self hp, hrs]
      cases matching cs (rs.filter p) <;> rfl

/-- A limited statement does not see them either. -/
theorem firstMatching_filter {cs : List Clause} {limit : Option ℕ} {rows : List Row} (p : Row → Bool)
    (h : ∀ r ∈ rows, p r = false → holds cs r = .ok false) :
    firstMatching cs limit rows = firstMatching cs limit (rows.filter p) := by
  induction rows generalizing limit with
  | nil => rfl
  | cons r rs ih =>
    have hrs := fun limit ↦ @ih limit fun r' hr' ↦ h r' (List.mem_cons_of_mem r hr')
    cases hp : p r with
    | true =>
      rw [List.filter_cons, if_pos hp]
      rcases limit with _ | _ | n
      · rw [firstMatching_none, firstMatching_none, hrs]
      · rfl
      · rw [firstMatching_succ, firstMatching_succ, hrs, hrs]
    | false =>
      rw [List.filter_cons, if_neg (by simp [hp]), ← hrs]
      have hr := h r List.mem_cons_self hp
      rcases limit with _ | _ | n
      · rw [firstMatching_none, hr]
        cases firstMatching cs none rs <;> rfl
      · cases rs <;> rfl
      · rw [firstMatching_succ, hr]
        rfl

/-- Statements whose conditions come out the same on every row return the same. -/
theorem matching_congr {cs ds : List Clause} {rows : List Row}
    (h : ∀ r ∈ rows, holds cs r = holds ds r) : matching cs rows = matching ds rows := by
  induction rows with
  | nil => rfl
  | cons r rs ih =>
    rw [matching_cons, matching_cons, h r List.mem_cons_self,
      ih fun r' hr' ↦ h r' (List.mem_cons_of_mem r hr')]

theorem firstMatching_congr {cs ds : List Clause} {limit : Option ℕ} {rows : List Row}
    (h : ∀ r ∈ rows, holds cs r = holds ds r) :
    firstMatching cs limit rows = firstMatching ds limit rows := by
  induction rows generalizing limit with
  | nil => rcases limit with _ | _ | n <;> rfl
  | cons r rs ih =>
    have hrs := fun limit ↦ @ih limit fun r' hr' ↦ h r' (List.mem_cons_of_mem r hr')
    have hr := h r List.mem_cons_self
    rcases limit with _ | _ | n
    · rw [firstMatching_none, firstMatching_none, hr, hrs]
    · rfl
    · rw [firstMatching_succ, firstMatching_succ, hr, hrs, hrs]

/-- A limited statement does not raise when no clause does on any row. -/
theorem exists_firstMatching {cs : List Clause} {limit : Option ℕ} {rows : List Row}
    (h : ∀ r ∈ rows, ∃ hit, holds cs r = .ok hit) :
    ∃ out, firstMatching cs limit rows = .ok out := by
  induction rows generalizing limit with
  | nil => rcases limit with _ | _ | n <;> exact ⟨[], rfl⟩
  | cons r rs ih =>
    obtain ⟨hit, hr⟩ := h r List.mem_cons_self
    have hrs := fun limit ↦ @ih limit fun r' hr' ↦ h r' (List.mem_cons_of_mem r hr')
    rcases limit with _ | _ | n
    · obtain ⟨out, hout⟩ := hrs none
      exact ⟨_, by rw [firstMatching_none, hr, hout]; rfl⟩
    · exact ⟨[], rfl⟩
    · cases hit with
      | true =>
        obtain ⟨out, hout⟩ := hrs (some n)
        exact ⟨r :: out, by rw [firstMatching_succ, hr]; simp only [bind, Except.bind, hout]; rfl⟩
      | false =>
        obtain ⟨out, hout⟩ := hrs (some (n + 1))
        exact ⟨out, by rw [firstMatching_succ, hr]; exact hout⟩

/-- **A limited statement returns the first rows that pass.** -/
theorem firstMatching_eq {cs : List Clause} {limit : Option ℕ} {rows out : List Row}
    (h : firstMatching cs limit rows = .ok out) :
    out = takeLimit limit (rows.filter fun r ↦ decide (Passes cs r)) := by
  induction rows generalizing out limit with
  | nil =>
    rcases limit with _ | _ | n <;> cases h <;> rfl
  | cons r rs ih =>
    rcases limit with _ | _ | n
    · rw [firstMatching_none] at h
      obtain ⟨hit, hr, h⟩ := Prog.exists_of_bind_eq_ok h
      obtain ⟨rest, hrest, h⟩ := Prog.exists_of_bind_eq_ok h
      cases h
      have hrs := ih hrest
      rw [takeLimit] at hrs ⊢
      rw [List.filter_cons, hrs]
      cases hit with
      | true => rw [if_pos rfl, if_pos (decide_eq_true (show Passes cs r from hr))]
      | false =>
        have : ¬ Passes cs r := fun hp ↦ by rw [Passes, hr] at hp; cases hp
        rw [if_neg Bool.false_ne_true, if_neg (by simpa using this)]
    · cases h
      rfl
    · rw [firstMatching_succ] at h
      obtain ⟨hit, hr, h⟩ := Prog.exists_of_bind_eq_ok h
      cases hit with
      | true =>
        obtain ⟨rest, hrest, h⟩ := Prog.exists_of_bind_eq_ok h
        cases h
        rw [ih hrest, takeLimit, takeLimit, List.filter_cons,
          if_pos (decide_eq_true (show Passes cs r from hr)), List.take_succ_cons]
      | false =>
        have : ¬ Passes cs r := fun hp ↦ by rw [Passes, hr] at hp; cases hp
        rw [ih h, List.filter_cons, if_neg (by simpa using this)]

end HsUploader
