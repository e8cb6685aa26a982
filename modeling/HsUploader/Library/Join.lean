import Mathlib.Order.Lattice
import Mathlib.Data.Nat.Notation

/-!
# Waiting for tasks in turn

A caller has handed out tasks and collects their results in the order of a list.  Each wait lasts
until the task has ended; a result that is an exception is raised there and then, and the tasks
behind it are not waited for.

So the caller goes on while tasks are running exactly when a task behind the first one that raises
ends later than all those the caller did wait for.  `collect_barrier_iff` says this of every way in
which the caller's thread may be scheduled between the waits.

## What is here

* `Future` — a task by its end: when, and with a result or an exception.
* `collect` — the caller's loop, with a delay of the caller's own after each wait.
* `Safe` and `AllDone` — the condition, on the tasks alone, and what a barrier is.
* `collect_barrier_iff` — for each list of tasks: every schedule of the caller is a barrier exactly
  when the tasks are safe.
-/

set_option autoImplicit false

namespace Join

variable {ε α : Type*}

/-- A task that has been handed out: when it ends, and how. -/
structure Future (ε α : Type*) where
  doneAt : ℕ
  result : Except ε α

/-- Collect the results, from the time `now` on; `lag k` passes after the `k`-th wait.  The answer
comes with the time at which the caller goes on. -/
def collect : ℕ → List (Future ε α) → (ℕ → ℕ) → Except ε (List α) × ℕ
  | now, [], _ => (.ok [], now)
  | now, f :: fs, lag =>
    match f.result with
    | .error e => (.error e, max now f.doneAt + lag 0)
    | .ok a =>
      let r := collect (max now f.doneAt + lag 0) fs fun k ↦ lag (k + 1)
      (r.1.map fun as ↦ a :: as, r.2)

/-- No task behind the first one that raises ends later than all those up to it. -/
def Safe (now : ℕ) (fs : List (Future ε α)) : Prop :=
  ∀ pre f post e, fs = pre ++ f :: post → (∀ g ∈ pre, g.result.isOk) → f.result = .error e →
    ∀ g ∈ post, g.doneAt ≤ now ∨ ∃ h ∈ pre ++ [f], g.doneAt ≤ h.doneAt

/-- Every task has ended by then. -/
def AllDone (t : ℕ) (fs : List (Future ε α)) : Prop := ∀ f ∈ fs, f.doneAt ≤ t

instance (t : ℕ) (fs : List (Future ε α)) : Decidable (AllDone t fs) :=
  inferInstanceAs (Decidable (∀ f ∈ fs, f.doneAt ≤ t))

theorem le_collect (now : ℕ) (fs : List (Future ε α)) (lag : ℕ → ℕ) :
    now ≤ (collect now fs lag).2 := by
  induction fs generalizing now lag with
  | nil => simp [collect]
  | cons f fs ih =>
    have hle : now ≤ max now f.doneAt + lag 0 := by omega
    cases hf : f.result with
    | error e => simpa [collect, hf] using hle
    | ok a =>
      have hrest := ih (max now f.doneAt + lag 0) fun k ↦ lag (k + 1)
      simp only [collect, hf]
      omega

theorem safe_nil (now : ℕ) : Safe now ([] : List (Future ε α)) := by
  intro pre f post e h
  simp at h

/-- A task that does not raise is one more the caller has waited for. -/
theorem safe_cons_ok {now : ℕ} {f : Future ε α} {fs : List (Future ε α)} {a : α}
    (hf : f.result = .ok a) : Safe now (f :: fs) ↔ Safe (max now f.doneAt) fs := by
  constructor
  · intro h pre g post e hfs hpre hg x hx
    have hpre' : ∀ y ∈ f :: pre, y.result.isOk := by
      intro y hy
      rcases List.mem_cons.mp hy with rfl | hy
      · rw [hf]
        rfl
      · exact hpre y hy
    rcases h (f :: pre) g post e (by rw [hfs]; rfl) hpre' hg x hx with hle | ⟨y, hy, hle⟩
    · exact .inl (by omega)
    · rcases List.mem_cons.mp hy with rfl | hy
      · exact .inl (by omega)
      · exact .inr ⟨y, hy, hle⟩
  · intro h pre g post e hfs hpre hg x hx
    cases pre with
    | nil =>
      obtain ⟨rfl, -⟩ := List.cons.inj hfs
      rw [hf] at hg
      cases hg
    | cons y pre =>
      obtain ⟨rfl, htail⟩ := List.cons.inj hfs
      rcases h pre g post e htail (fun z hz ↦ hpre z (List.mem_cons_of_mem _ hz)) hg x hx with
        hle | ⟨z, hz, hle⟩
      · by_cases hnow : x.doneAt ≤ now
        · exact .inl hnow
        · exact .inr ⟨f, List.mem_cons_self, by omega⟩
      · exact .inr ⟨z, List.mem_cons_of_mem _ hz, hle⟩

/-- Nothing behind a task that raises is waited for. -/
theorem safe_cons_error {now : ℕ} {f : Future ε α} {fs : List (Future ε α)} {e : ε}
    (hf : f.result = .error e) : Safe now (f :: fs) ↔ AllDone (max now f.doneAt) fs := by
  constructor
  · intro h x hx
    rcases h [] f fs e rfl (by simp) hf x hx with hle | ⟨y, hy, hle⟩
    · omega
    · obtain rfl : y = f := by simpa using hy
      omega
  · intro h pre g post e' hfs hpre hg x hx
    cases pre with
    | nil =>
      obtain ⟨rfl, rfl⟩ := List.cons.inj hfs
      have hle := h x hx
      by_cases hnow : x.doneAt ≤ now
      · exact .inl hnow
      · exact .inr ⟨f, by simp, by omega⟩
    | cons y pre =>
      obtain ⟨rfl, -⟩ := List.cons.inj hfs
      have hok := hpre f List.mem_cons_self
      rw [hf] at hok
      cases hok

theorem Safe.later {now now' : ℕ} {fs : List (Future ε α)} (h : Safe now fs) (hle : now ≤ now') :
    Safe now' fs := by
  intro pre f post e hfs hpre hf g hg
  rcases h pre f post e hfs hpre hf g hg with hdone | hdone
  · exact .inl (hdone.trans hle)
  · exact .inr hdone

/-- Where the tasks are safe, the caller goes on when all of them have ended. -/
theorem Safe.allDone {now : ℕ} {fs : List (Future ε α)} (h : Safe now fs) (lag : ℕ → ℕ) :
    AllDone (collect now fs lag).2 fs := by
  induction fs generalizing now lag with
  | nil => exact fun f hf ↦ nomatch hf
  | cons f fs ih =>
    intro g hg
    cases hf : f.result with
    | error e =>
      have hrest := (safe_cons_error hf).mp h
      simp only [collect, hf]
      rcases List.mem_cons.mp hg with rfl | hg
      · omega
      · have := hrest g hg
        omega
    | ok a =>
      have hrest := ((safe_cons_ok hf).mp h).later (Nat.le_add_right _ (lag 0))
      have hle := le_collect (max now f.doneAt + lag 0) fs fun k ↦ lag (k + 1)
      simp only [collect, hf]
      rcases List.mem_cons.mp hg with rfl | hg
      · omega
      · exact ih hrest (fun k ↦ lag (k + 1)) g hg

/-- A caller that is scheduled at once goes on too early where they are not. -/
theorem safe_of_allDone {now : ℕ} {fs : List (Future ε α)}
    (h : AllDone (collect now fs fun _ ↦ 0).2 fs) : Safe now fs := by
  induction fs generalizing now with
  | nil => exact safe_nil now
  | cons f fs ih =>
    have hrest : AllDone (collect now (f :: fs) fun _ ↦ 0).2 fs :=
      fun g hg ↦ h g (List.mem_cons_of_mem _ hg)
    cases hf : f.result with
    | error e =>
      simp only [collect, hf] at hrest
      exact (safe_cons_error hf).mpr hrest
    | ok a =>
      simp only [collect, hf] at hrest
      exact (safe_cons_ok hf).mpr (ih hrest)

/-- **Collecting is a barrier, however the caller is scheduled, exactly when the tasks are safe.** -/
theorem collect_barrier_iff {now : ℕ} {fs : List (Future ε α)} :
    (∀ lag, AllDone (collect now fs lag).2 fs) ↔ Safe now fs :=
  ⟨fun h ↦ safe_of_allDone (h fun _ ↦ 0), fun h lag ↦ h.allDone lag⟩

end Join
