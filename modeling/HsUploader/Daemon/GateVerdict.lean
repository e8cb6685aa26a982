import HsUploader.Daemon.SinkGate
import HsUploader.Library.Gives

/-!
# The verdict of the sink gate

A gate remembers what it has logged, and for how long each fault has stood.  None of it reaches its
answer: `verdict` is what a decision comes to from what it finds outside alone, and `decide` gives
it whatever the gate remembers and whatever its clock says (`decide_gives`).  So a gate that is made
for one report answers as the daemon's own does, which may have run for weeks.

## What is here

* `lookForSinks` and `ruled` — what the five rules answer, with the places at which they may raise.
* `verdict` — an exception holds.
* `send_verdict` — when the verdict is to send.
* `decide_gives` — the journal is written on the way and the tables change; the answer does not.
* `answers_eq` — pipeline after pipeline, with one gate.
-/

set_option autoImplicit false

namespace HsUploader
namespace SinkGate

open Prog

/-! ## What is answered -/

/-- What looking for the directory of the switch files raises, where `_file_faults` looks for it. -/
def lookForSinks (v : Sight) (client : String) (eff : Effective) : Except Exn Unit :=
  if Daemon.validClientName client && eff.clientMissing then v.isDir.map fun _ ↦ () else pure ()

/-- What the five rules answer. -/
def ruled (p : Daemon.Pipeline) (v : Sight) : Except Exn Decision := do
  v.attributes
  if Daemon.exemptRule p = 1 then pure ⟨true, 1, "ungoverned"⟩
  else if Daemon.exemptRule p = 2 then pure ⟨true, 2, "legacy heartbeat"⟩
  else do
    let stands ← v.marker
    if !stands then pure ⟨true, 3, "no carry-over marker"⟩
    else if p.client = "" then pure ⟨true, 4, "no client"⟩
    else do
      let eff ← v.effective
      lookForSinks v p.client eff
      if eff.state = .upload then pure ⟨true, 5, "sink uploading"⟩
      else pure ⟨false, 5, why p.client eff⟩

/-- What a decision comes to: an exception holds. -/
def verdict (p : Daemon.Pipeline) (v : Sight) : Decision :=
  match ruled p v with
  | .ok d => d
  | .error e => ⟨false, 0, "gate fault: " ++ (e.typeName ++ ": " ++ message e)⟩

theorem exemptRule_cases (p : Daemon.Pipeline) :
    Daemon.exemptRule p = 0 ∨ Daemon.exemptRule p = 1 ∨ Daemon.exemptRule p = 2 := by
  rw [Daemon.exemptRule]
  split
  · exact .inr (.inl rfl)
  · split
    · exact .inr (.inr rfl)
    · exact .inl rfl

/-- **When the verdict is to send**: by one of the first four rules, or because the switches of the
pipeline's client come to `upload`. -/
theorem send_verdict (p : Daemon.Pipeline) (v : Sight) :
    (verdict p v).send = true ↔ v.attributes = .ok () ∧ (Daemon.exemptRule p ≠ 0 ∨
      v.marker = .ok false ∨ v.marker = .ok true ∧ (p.client = "" ∨
        ∃ eff, v.effective = .ok eff ∧ lookForSinks v p.client eff = .ok () ∧
          eff.state = .upload)) := by
  rw [verdict, ruled]
  cases v.attributes with
  | error e => exact iff_of_false Bool.false_ne_true fun h ↦ by cases h.1
  | ok u =>
    rcases exemptRule_cases p with hrule | hrule | hrule
    · rw [hrule]
      cases v.marker with
      | error e => simp [Bind.bind, Except.bind]
      | ok stands =>
        cases stands with
        | false => simp [Bind.bind, Except.bind, pure, Except.pure]
        | true =>
          by_cases hclient : p.client = ""
          · simp [hclient, Bind.bind, Except.bind, pure, Except.pure]
          · cases v.effective with
            | error e => simp [hclient, Bind.bind, Except.bind]
            | ok eff =>
              cases hlook : lookForSinks v p.client eff with
              | error e => simp [hclient, hlook, Bind.bind, Except.bind]
              | ok u =>
                by_cases hstate : eff.state = .upload
                · simp [hclient, hlook, hstate, Bind.bind, Except.bind, pure, Except.pure]
                · simp [hclient, hlook, hstate, Bind.bind, Except.bind, pure, Except.pure]
    · simp [hrule, Bind.bind, Except.bind, pure, Except.pure]
    · simp [hrule, Bind.bind, Except.bind, pure, Except.pure]

/-- A decision by the fifth rule read the switches of the pipeline's client. -/
theorem rule_five {p : Daemon.Pipeline} {v : Sight} (h : (verdict p v).rule = 5) :
    v.attributes = .ok () ∧ Daemon.exemptRule p = 0 ∧ v.marker = .ok true ∧ p.client ≠ "" ∧
      ∃ eff, v.effective = .ok eff := by
  rw [verdict, ruled] at h
  cases hattr : v.attributes with
  | error e =>
    rw [hattr] at h
    cases h
  | ok u =>
    rw [hattr] at h
    rcases exemptRule_cases p with hrule | hrule | hrule
    · rw [hrule] at h
      cases hmarker : v.marker with
      | error e =>
        rw [hmarker] at h
        cases h
      | ok stands =>
        rw [hmarker] at h
        cases stands with
        | false => cases h
        | true =>
          by_cases hclient : p.client = ""
          · simp [hclient, Bind.bind, Except.bind, pure, Except.pure] at h
          · cases heff : v.effective with
            | error e => simp [hclient, heff, Bind.bind, Except.bind] at h
            | ok eff => exact ⟨rfl, hrule, rfl, hclient, eff, rfl⟩
    · simp [hrule, Bind.bind, Except.bind, pure, Except.pure] at h
    · simp [hrule, Bind.bind, Except.bind, pure, Except.pure] at h

/-! ## What is said on the way -/

section

variable (clock : ℕ → ℚ)

theorem finishes_write (l : Line) : Finishes (write l) := .modify _

theorem finishes_first (key : SaidKey) : Finishes (first key) := by
  refine .bind .get fun g ↦ ?_
  split
  · exact .pure _
  · split
    · split
      · exact .pure _
      · exact .bind (.modify _) fun _ ↦ .bind (finishes_write _) fun _ ↦ .pure _
    · exact .bind (.modify _) fun _ ↦ .pure _

theorem finishes_once (key : SaidKey) (line : Line) : Finishes (once key line) := by
  refine .bind (finishes_first key) fun seen ↦ ?_
  split
  · exact finishes_write line
  · exact .pure _

theorem finishes_fault (key : FaultKey) (firstLogs : Bool) :
    Finishes (fault clock key firstLogs) := by
  refine .bind (.act _) fun now ↦ .bind .get fun g ↦ ?_
  split
  · split
    · exact .pure _
    · exact .bind (.modify _) fun _ ↦ .pure _
  · refine .bind (finishes_first _) fun seen ↦ ?_
    split
    · exact .bind (.modify _) fun _ ↦ .pure _
    · exact .pure _

theorem finishes_fileFault (key : FaultKey) (stands firstLogs : Bool) (line : Say → Line) :
    Finishes (fileFault clock key stands firstLogs line) := by
  rw [fileFault]
  split
  · exact .modify _
  · refine .bind (finishes_fault clock key firstLogs) fun say ↦ ?_
    split
    · exact .pure _
    · exact finishes_write _

theorem finishes_report (key : FaultKey) : Finishes (report clock key) := by
  have hrecur : Finishes (recur clock key) := by
    refine .bind (.act _) fun now ↦ .bind .get fun g ↦ ?_
    split
    · exact .pure _
    · refine .bind (.modify _) fun _ ↦ ?_
      split
      · exact .pure _
      · exact .bind (.modify _) fun _ ↦ .pure _
  refine .bind hrecur fun say ↦ ?_
  split
  · exact .pure _
  · exact finishes_fault clock key true

theorem finishes_clearExceptions (p : Daemon.Pipeline) (d : Decision) :
    Finishes (clearExceptions p d) := by
  refine .bind .get fun g ↦ .bind (.modify _) fun _ ↦ ?_
  split
  · exact finishes_write _
  · exact .pure _

theorem finishes_transition (p : Daemon.Pipeline) (d : Decision) : Finishes (transition p d) := by
  rw [transition]
  split
  · exact .pure _
  · refine .bind .get fun g ↦ ?_
    split
    · split
      · split
        · exact .pure _
        · exact .bind (.modify _) fun _ ↦ finishes_write _
      · refine .bind (.modify _) fun _ ↦ ?_
        split
        · exact .pure _
        · exact finishes_write _
    · refine .bind (.modify _) fun _ ↦ ?_
      split
      · exact .pure _
      · exact finishes_write _

/-! ## The answer -/

theorem fileFaults_gives (v : Sight) (client : String) (eff : Effective) :
    Gives (fileFaults clock v client eff) (lookForSinks v client eff) := by
  rw [fileFaults, lookForSinks]
  cases Daemon.validClientName client with
  | false => exact (finishes_fileFault clock _ _ _ _).gives
  | true =>
    have hfaults (noSinks : Bool) : Finishes (do
        fileFault clock (.client client) (eff.clientError ≠ "") false (.switchFault eff.clientError)
        fileFault clock .site (eff.siteError ≠ "") false (.switchFault eff.siteError)
        fileFault clock .noSinks noSinks true .noSinks) :=
      .bind (finishes_fileFault clock _ _ _ _) fun _ ↦
        .bind (finishes_fileFault clock _ _ _ _) fun _ ↦ finishes_fileFault clock _ _ _ _
    cases hmissing : eff.clientMissing with
    | false =>
      rw [if_pos rfl, sinksMissing, hmissing]
      exact .after (.pure _) fun noSinks ↦ (hfaults noSinks).gives
    | true =>
      rw [if_pos rfl, sinksMissing, hmissing]
      have h := Gives.bind (.ofExcept (v.isDir.map (!·))) fun noSinks _ ↦ (hfaults noSinks).gives
      cases hdir : v.isDir <;> rw [hdir] at h <;> exact h

theorem rules_gives (p : Daemon.Pipeline) (v : Sight) : Gives (rules clock p v) (ruled p v) := by
  refine .bind (.ofExcept v.attributes) fun _ _ ↦ ?_
  split
  · exact .pure _
  · refine .after ?_ fun _ ↦ ?_
    · rw [warnUngoverned]
      split
      · exact .pure _
      · exact finishes_once _ _
    · split
      · exact .pure _
      · refine .bind (.ofExcept v.marker) fun stands _ ↦ ?_
        split
        · exact .pure _
        · split
          · exact .after (finishes_once _ _) fun _ ↦ .pure _
          · refine .bind (.ofExcept v.effective) fun eff _ ↦ ?_
            refine .bind (fileFaults_gives clock v p.client eff) fun _ _ ↦ ?_
            split <;> exact .pure _

theorem failed_gives (p : Daemon.Pipeline) (e : Exn) :
    Gives (failed clock p e)
      (.ok ⟨false, 0, "gate fault: " ++ (e.typeName ++ ": " ++ message e)⟩) := by
  refine .after (finishes_report clock _) fun say ↦ .after (.modify _) fun _ ↦ ?_
  dsimp only
  split
  · exact .pure _
  · exact .after .get fun g ↦ .after (finishes_write _) fun _ ↦ .pure _

/-- **A decision is the verdict on what it finds outside**, whatever the gate remembers. -/
theorem decide_gives (p : Daemon.Pipeline) (v : Sight) :
    Gives (decide clock p v) (.ok (verdict p v)) := by
  have hrules : Gives (do
      let d ← rules clock p v
      clearExceptions p d
      pure d) (ruled p v) := by
    have h := Gives.bind (rules_gives clock p v) fun d _ ↦
      Gives.after (finishes_clearExceptions p d) fun _ ↦ Gives.pure d
    cases hruled : ruled p v <;> rw [hruled] at h <;> exact h
  have hcaught := hrules.tryCatch (failed_gives clock p)
  have hverdict : (ruled p v).tryCatch (fun e ↦
      .ok ⟨false, 0, "gate fault: " ++ (e.typeName ++ ": " ++ message e)⟩) = .ok (verdict p v) := by
    rw [verdict]
    cases ruled p v <;> rfl
  rw [hverdict] at hcaught
  exact .bind hcaught fun d _ ↦ .after (finishes_transition p d) fun _ ↦ .pure d

/-- What one gate answers of pipeline after pipeline. -/
def answers : List (Daemon.Pipeline × Sight) → Gate → List (Res Exn Decision)
  | [], _ => []
  | (p, v) :: rest, g => (decide clock p v g).1 :: answers rest (decide clock p v g).2

/-- **One after the other, the answers are the verdicts**, each on its own. -/
theorem answers_eq (ds : List (Daemon.Pipeline × Sight)) (g : Gate) :
    answers clock ds g = ds.map fun d ↦ .ok (verdict d.1 d.2) := by
  induction ds generalizing g with
  | nil => rfl
  | cons d ds ih =>
    obtain ⟨p, v⟩ := d
    rw [answers, (decide_gives clock p v).run_eq, ih, List.map_cons]

end

end SinkGate
end HsUploader
