import HsUploader.SinkSwitch.SinksDir
import Mathlib.Data.List.Dedup

/-!
# What `sink status` tells

`hs-uploader sink status` runs beside the daemon: it builds a view of each pipeline from the same
files, asks a gate of its own about each, and says of each that is held which switch holds it.

What it lists as held is what the daemon's gate holds that finds the same, whatever that gate
remembers (`status_agrees`).  The switch it names is the one to change: while the site's stays as it
is, no state of the client's lets a pipeline send that is held by `site`, and the other way round
(`status_names_who_binds`).
-/

set_option autoImplicit false

namespace HsUploader

open SinkSwitch (Setting Reads ruling)

/-! ## Who holds a client -/

namespace SinkGate

/-- `held_by(client, eff)`. -/
def heldBy (client : String) (eff : Effective) : Option String :=
  if eff.state = .upload then none
  else if !Daemon.validClientName client || eff.clientMissing || eff.clientError ≠ "" ||
      eff.siteError ≠ "" then some "fault"
  else some (orderBy eff)

end SinkGate

namespace Cli

/-- The switch that holds, of a client's and the site's. -/
def blame : Setting → Setting → Option String
  | .named .upload, .missing => none
  | .named _, .missing => some "client"
  | .named c, .named s =>
    if c.stricter s = .upload then none
    else if s.index ≤ c.index then some "site" else some "client"
  | _, _ => some "fault"

theorem heldBy_eq {client : String} {file site : SwitchRead} {x y : Setting}
    (hclient : Daemon.validClientName client = true) (hx : Reads file x) (hy : Reads site y) :
    SinkGate.heldBy client (effectiveState client file site) = blame x y := by
  rw [SinkGate.heldBy, hx.state hclient hy, hclient, effectiveState, hclient]
  cases hx with
  | missing => cases hy <;> rfl
  | broken he => cases hy <;> simp [he, ruling, blame]
  | named c =>
    cases hy with
    | missing => cases c <;> rfl
    | broken he => simp [he, ruling, blame]
    | named s => cases c <;> cases s <;> rfl

/-- **While the site's switch stays as it is**, nothing the client's says releases what the site
holds. -/
theorem ruling_of_blame_site {x y : Setting} (h : blame x y = some "site") (x' : Setting) :
    ruling x' y ≠ .upload := by
  cases x with
  | named c =>
    cases y with
    | named s =>
      cases x' with
      | named c' => revert h; cases c <;> cases s <;> cases c' <;> decide
      | _ => simp [ruling]
    | missing => cases c <;> simp [blame] at h
    | _ => simp [blame] at h
  | _ => simp [blame] at h

/-- **While the client's switch stays as it is**, nothing the site's says releases what the client
holds. -/
theorem ruling_of_blame_client {x y : Setting} (h : blame x y = some "client") (y' : Setting) :
    ruling x y' ≠ .upload := by
  cases x with
  | named c =>
    cases y with
    | named s =>
      cases y' with
      | named s' => revert h; cases c <;> cases s <;> cases s' <;> decide
      | missing => revert h; cases c <;> cases s <;> decide
      | _ => simp [ruling]
    | missing =>
      cases y' with
      | named s' => revert h; cases c <;> cases s' <;> decide
      | missing => revert h; cases c <;> decide
      | _ => simp [ruling]
    | _ => simp [blame] at h
  | _ => simp [blame] at h

/-- What is held is held by one of them. -/
theorem exists_blame {x y : Setting} (h : ruling x y ≠ .upload) : ∃ who, blame x y = some who := by
  cases x with
  | named c =>
    cases y with
    | named s =>
      have hheld : c.stricter s ≠ .upload := h
      rw [blame, if_neg hheld]
      split_ifs
      · exact ⟨_, rfl⟩
      · exact ⟨_, rfl⟩
    | missing => revert h; cases c <;> simp [blame, ruling]
    | _ => exact ⟨"fault", by cases c <;> rfl⟩
  | _ => exact ⟨"fault", rfl⟩

theorem blame_cases {x y : Setting} {who : String} (h : blame x y = some who) :
    who = "site" ∨ who = "client" ∨ who = "fault" := by
  unfold blame at h
  split at h
  · cases h
  · cases h
    exact .inr (.inl rfl)
  · split_ifs at h
    · cases h
      exact .inl rfl
    · cases h
      exact .inr (.inl rfl)
  · cases h
    exact .inr (.inr rfl)

/-- A fault is a client's file that is missing or cannot be read, or a site's that cannot. -/
theorem blame_eq_fault {x y : Setting} :
    blame x y = some "fault" ↔ (∀ c, x ≠ .named c) ∨ y = .broken ∨ y = .raises := by
  cases x with
  | named c =>
    cases y with
    | named s => cases c <;> cases s <;> simp [blame, SwitchState.stricter, SwitchState.index]
    | missing => cases c <;> simp [blame]
    | _ => simp [blame]
  | _ => simp [blame]

/-! ## The report -/

/-- `PipeView`: what the gate reads of one pipeline. -/
structure View where
  name : String
  client : String
  governed : Bool
  origin : String
  /-- Its transport is a heartbeat's. -/
  heartbeat : Bool
  builder : Bool := false

/-- What the gate is handed: of the rest it reads nothing. -/
def View.pipe (w : View) : Daemon.Pipeline where
  id := 0
  entry := 0
  name := w.name
  client := w.client
  governed := w.governed
  origin := w.origin
  key := .ok ("", "", "")
  producer := false
  heartbeat := w.heartbeat
  initial := false
  parts := {}

/-- The view of a pipeline. -/
def viewOf (p : Daemon.Pipeline) : View where
  name := p.name
  client := p.client
  governed := p.governed
  origin := p.origin
  heartbeat := p.heartbeat

/-- One of `clients`. -/
structure ClientRow where
  client : String
  fileState : String
  effective : SwitchState
  heldBy : Option String
  error : String
  pipelines : List String

/-- One of `held_pipelines`. -/
structure HeldRow where
  pipeline : String
  client : String
  heldBy : String
  reason : String
  deriving DecidableEq

/-- What the report finds: the views, each with what a gate finds for it, the stems of the files in
`sinks/`, and the switches. -/
structure Found where
  views : List (View × SinkGate.Sight)
  stems : List String
  read : String → Except Exn SwitchRead
  effective : String → Except Exn Effective

/-- The report. -/
structure SinkStatus where
  clients : List ClientRow
  held : List HeldRow
  noClient : List String
  builders : List String

/-- The name of a state. -/
def stateName : SwitchState → String
  | .off => "off"
  | .fill => "fill"
  | .upload => "upload"

/-- `file_state(r)`. -/
def fileState (r : SwitchRead) : String :=
  match r.state with
  | some s => stateName s
  | none => if r.missing then "missing" else "error"

/-- The clients to report: those of governed pipelines, and those that have a file. -/
def clientNames (w : Found) : List String :=
  Daemon.sortNames (((w.views.map Prod.fst).filter fun v ↦
      v.client ≠ "" && Daemon.exemptRule v.pipe = 0).map View.client ++
    w.stems.filter Daemon.validClientName).dedup

/-- The state of a client's file.  Of a bad name no path is formed. -/
def clientFileState (w : Found) (client : String) : Except Exn String :=
  if Daemon.validClientName client then fileState <$> w.read client else pure "error"

/-- The row of a client. -/
def clientRow (w : Found) (client : String) : Except Exn ClientRow := do
  let eff ← w.effective client
  let state ← clientFileState w client
  pure {
    client
    fileState := state
    effective := eff.state
    heldBy := SinkGate.heldBy client eff
    error := "; ".intercalate eff.errors
    pipelines := (w.views.filter fun v ↦ v.1.client = client).map fun v ↦ v.1.name }

/-- `by_client.get(client)`. -/
def byClient (rows : List ClientRow) (client : String) : Option String :=
  (rows.find? fun r ↦ r.client = client).bind ClientRow.heldBy

/-- The row of a pipeline that is held. -/
def heldRow (rows : List ClientRow) (w : View) (d : SinkGate.Decision) : HeldRow where
  pipeline := w.name
  client := w.client
  heldBy := (if d.rule = 5 then byClient rows w.client else none).getD "fault"
  reason := d.reason

/-- The loop over the views, with the gate it asks. -/
def heldRows (clock : ℕ → ℚ) (rows : List ClientRow) :
    List (View × SinkGate.Sight) → SinkGate.Gate → List HeldRow
  | [], _ => []
  | (w, v) :: rest, g =>
    match SinkGate.decide clock w.pipe v g with
    | (.ok d, g) =>
      if d.send then heldRows clock rows rest g else heldRow rows w d :: heldRows clock rows rest g
    | (_, g) => heldRows clock rows rest g

/-- `_sink_status(args)`. -/
def sinkStatus (clock : ℕ → ℚ) (w : Found) : Except Exn SinkStatus := do
  let rows ← (clientNames w).mapM (clientRow w)
  pure {
    clients := rows
    held := heldRows clock rows w.views {}
    noClient := ((w.views.map Prod.fst).filter fun v ↦ v.client = "").map View.name
    builders := ((w.views.map Prod.fst).filter View.builder).map View.name }

/-! ## It tells what the daemon's gate does -/

theorem heldRows_eq (clock : ℕ → ℚ) (rows : List ClientRow) (ws : List (View × SinkGate.Sight))
    (g : SinkGate.Gate) :
    heldRows clock rows ws g = (ws.filter fun w ↦ !(SinkGate.verdict w.1.pipe w.2).send).map
      fun w ↦ heldRow rows w.1 (SinkGate.verdict w.1.pipe w.2) := by
  induction ws generalizing g with
  | nil => rfl
  | cons w ws ih =>
    obtain ⟨w, v⟩ := w
    rw [heldRows]
    have hrun := (SinkGate.decide_gives clock w.pipe v).run_eq g
    rcases hdecide : SinkGate.decide clock w.pipe v g with ⟨r, g'⟩
    rw [hdecide] at hrun
    cases hrun
    cases hsend : (SinkGate.verdict w.pipe v).send with
    | true => rw [List.filter_cons_of_neg (by simp [hsend])]; simpa [hsend] using ih g'
    | false => rw [List.filter_cons_of_pos (by simp [hsend])]; simpa [hsend] using ih g'

/-- The pipelines that are held, with the reasons, of pipelines and what a gate answers of them. -/
def holds (ps : List (Daemon.Pipeline × SinkGate.Sight)) (rs : List (Res Exn SinkGate.Decision)) :
    List (String × String) :=
  (ps.zip rs).filterMap fun
    | ((p, _), .ok d) => if d.send then none else some (p.name, d.reason)
    | _ => none

theorem holds_answers (clock : ℕ → ℚ) (ps : List (Daemon.Pipeline × SinkGate.Sight))
    (g : SinkGate.Gate) :
    holds ps (SinkGate.answers clock ps g) =
      (ps.filter fun d ↦ !(SinkGate.verdict d.1 d.2).send).map
        fun d ↦ (d.1.name, (SinkGate.verdict d.1 d.2).reason) := by
  rw [SinkGate.answers_eq, holds]
  induction ps with
  | nil => rfl
  | cons d ps ih =>
    obtain ⟨p, v⟩ := d
    rw [List.map_cons, List.zip_cons_cons]
    cases hsend : (SinkGate.verdict p v).send with
    | true =>
      rw [List.filterMap_cons_none (by simp [hsend]), ih, List.filter_cons_of_neg (by simp [hsend])]
    | false =>
      rw [List.filterMap_cons_some (b := (p.name, (SinkGate.verdict p v).reason)) (by simp [hsend]),
        ih, List.filter_cons_of_pos (by simp [hsend]), List.map_cons]

theorem sinkStatus_eq_ok {clock : ℕ → ℚ} {w : Found} {r : SinkStatus}
    (h : sinkStatus clock w = .ok r) :
    (clientNames w).mapM (clientRow w) = .ok r.clients ∧
      r.held = heldRows clock r.clients w.views {} := by
  obtain ⟨rows, hrows, h⟩ := Except.bind_eq_ok.mp h
  cases h
  exact ⟨hrows, rfl⟩

/-- **What the report lists as held** is what the daemon's gate holds that finds the same, whatever
it remembers. -/
theorem status_agrees (clock clock' : ℕ → ℚ) (g : SinkGate.Gate) {w : Found}
    {ps : List (Daemon.Pipeline × SinkGate.Sight)}
    (hviews : w.views = ps.map fun d ↦ (viewOf d.1, d.2)) {r : SinkStatus}
    (h : sinkStatus clock w = .ok r) :
    r.held.map (fun row ↦ (row.pipeline, row.reason)) =
      holds ps (SinkGate.answers clock' ps g) := by
  rw [(sinkStatus_eq_ok h).2, heldRows_eq, holds_answers, hviews, List.filter_map, List.map_map,
    List.map_map]
  -- of a pipeline the gate reads what its view has
  rfl

/-- A second client's pipeline. -/
def magPipe : Daemon.Pipeline :=
  { SinkSwitch.wsprPipe with name := "mag", client := "mag", origin := "pipelines.d/mag.toml" }

/-- The switches of two clients, where the site has none: `mag` is off and `wspr` uploads. -/
def twoSwitches (client : String) : Effective :=
  effectiveState client ⟨some (if client = "mag" then .off else .upload), false, ""⟩
    ⟨none, true, ""⟩

/-- What a gate finds for a client's pipeline while the marker stands. -/
def sightOf (client : String) : SinkGate.Sight where
  marker := .ok true
  effective := .ok (twoSwitches client)
  isDir := .ok true

/-- Their pipelines. -/
def twoPipes : List (Daemon.Pipeline × SinkGate.Sight) :=
  [(SinkSwitch.wsprPipe, sightOf "wspr"), (magPipe, sightOf "mag")]

/-- What the report finds. -/
def twoFound : Found where
  views := twoPipes.map fun d ↦ (viewOf d.1, d.2)
  stems := ["mag", "site", "wspr"]
  read client := .ok ⟨some (if client = "mag" then .off else .upload), false, ""⟩
  effective client := .ok (twoSwitches client)

theorem sinkStatus_twoFound : ∃ r, sinkStatus (fun _ ↦ 0) twoFound = .ok r ∧
    r.held = [⟨"mag", "mag", "client", "sink off (client)"⟩] := by
  have h : (sinkStatus (fun _ ↦ 0) twoFound).toOption.map SinkStatus.held =
      some [⟨"mag", "mag", "client", "sink off (client)"⟩] := by decide
  cases hr : sinkStatus (fun _ ↦ 0) twoFound with
  | error e =>
    rw [hr] at h
    cases h
  | ok r =>
    rw [hr] at h
    exact ⟨r, rfl, Option.some_inj.mp h⟩

/-- The daemon's gate has held `mag` before, and has said so. -/
theorem status_agrees_two : ∃ r, sinkStatus (fun _ ↦ 0) twoFound = .ok r ∧
    r.held.map (fun row ↦ (row.pipeline, row.reason)) = holds twoPipes (SinkGate.answers
      (fun n ↦ n) twoPipes { last := [(("pipelines.d/mag.toml", "mag"), false)] }) := by
  obtain ⟨r, hr, -⟩ := sinkStatus_twoFound
  exact ⟨r, hr, status_agrees (fun _ ↦ 0) _ _ rfl hr⟩

/-! ## It tells who is to act -/

theorem mem_clientNames {w : Found} {v : View × SinkGate.Sight} (hv : v ∈ w.views)
    (hclient : v.1.client ≠ "") (hrule : Daemon.exemptRule v.1.pipe = 0) :
    v.1.client ∈ clientNames w := by
  rw [clientNames, Daemon.sortNames, List.mem_insertionSort, List.mem_dedup]
  refine List.mem_append_left _ (List.mem_map.mpr ⟨v.1, List.mem_filter.mpr ⟨?_, ?_⟩, rfl⟩)
  · exact List.mem_map_of_mem hv
  · simp [hclient, hrule]

/-- The row of a client that is reported tells who holds it. -/
theorem byClient_eq {w : Found} {rows : List ClientRow} {client : String} {eff : Effective}
    (hrows : (clientNames w).mapM (clientRow w) = .ok rows) (hmem : client ∈ clientNames w)
    (heff : w.effective client = .ok eff) :
    byClient rows client = SinkGate.heldBy client eff := by
  have hrow : ∀ {name row}, clientRow w name = .ok row → row.client = name ∧
      ∃ eff, w.effective name = .ok eff ∧ row.heldBy = SinkGate.heldBy name eff := by
    intro name row h
    obtain ⟨eff, heff, h⟩ := Except.bind_eq_ok.mp h
    obtain ⟨state, -, h⟩ := Except.bind_eq_ok.mp h
    cases h
    exact ⟨rfl, eff, heff, rfl⟩
  obtain ⟨hnames, hback⟩ := Except.exists_of_mapM hrows
  obtain ⟨row, hin, hclient⟩ := hnames client hmem
  have hsome : (rows.find? fun r ↦ r.client = client).isSome :=
    List.find?_isSome.mpr ⟨row, hin, decide_eq_true (hrow hclient).1⟩
  obtain ⟨row', hfind⟩ := Option.isSome_iff_exists.mp hsome
  have hname : row'.client = client := by simpa using List.find?_some hfind
  obtain ⟨name, -, hname'⟩ := hback row' (List.mem_of_find?_eq_some hfind)
  obtain ⟨hself, eff', heff', hheld⟩ := hrow hname'
  obtain rfl : name = client := hself.symm.trans hname
  rw [heff] at heff'
  cases heff'
  rw [byClient, hfind, Option.bind_some, hheld]

/-- What the switches of a client come to is what the gate does with a pipeline they govern. -/
theorem send_of_switches {p : Daemon.Pipeline} {v : SinkGate.Sight} {file site : SwitchRead}
    (hattr : v.attributes = .ok ()) (hrule : Daemon.exemptRule p = 0)
    (hmarker : v.marker = .ok true) (hclient : p.client ≠ "")
    (heff : v.effective = .ok (effectiveState p.client file site)) :
    (SinkGate.verdict p v).send = true ↔ (effectiveState p.client file site).state = .upload := by
  rw [SinkGate.send_verdict, hattr, hmarker, heff]
  constructor
  · rintro ⟨-, h | h | ⟨-, h | ⟨eff, h, -, hstate⟩⟩⟩
    · exact absurd hrule h
    · cases h
    · exact absurd h hclient
    · cases h
      exact hstate
  · intro hstate
    exact ⟨rfl, .inr (.inr ⟨rfl, .inr
      ⟨_, rfl, SinkSwitch.lookForSinks_of_upload hstate, hstate⟩⟩)⟩

/-- A row of the report is right about who is to act on it, for a pipeline that the switches hold:
whatever the other switch says instead, the pipeline is held, and a fault is one of the files. -/
structure Blames (w : View) (v : SinkGate.Sight) (file site : SwitchRead) (x y : Setting)
    (who : String) : Prop where
  known : who = "site" ∨ who = "client" ∨ who = "fault"
  bySite : who = "site" → ∀ file' x', Reads file' x' →
    (SinkGate.verdict w.pipe
      { v with effective := .ok (effectiveState w.client file' site) }).send = false
  byClient : who = "client" → ∀ site' y', Reads site' y' →
    (SinkGate.verdict w.pipe
      { v with effective := .ok (effectiveState w.client file site') }).send = false
  byFault : who = "fault" ↔ (∀ c, x ≠ .named c) ∨ y = .broken ∨ y = .raises

/-- **The report names the switch that is to be changed**, of every pipeline the switches hold,
where it and the gate find them the same; of what else is held it says `fault`. -/
theorem status_names_who_binds (clock : ℕ → ℚ) {w : Found} {r : SinkStatus}
    (h : sinkStatus clock w = .ok r) :
    ∀ row ∈ r.held, ∃ v ∈ w.views, row.pipeline = v.1.name ∧ row.client = v.1.client ∧
      row.reason = (SinkGate.verdict v.1.pipe v.2).reason ∧
      (SinkGate.verdict v.1.pipe v.2).send = false ∧
      ((SinkGate.verdict v.1.pipe v.2).rule ≠ 5 → row.heldBy = "fault") ∧
      ((SinkGate.verdict v.1.pipe v.2).rule = 5 → v.2.effective = w.effective v.1.client →
        ∀ file site x y, w.effective v.1.client = .ok (effectiveState v.1.client file site) →
          Reads file x → Reads site y →
          (Daemon.validClientName v.1.client = false → row.heldBy = "fault") ∧
          (Daemon.validClientName v.1.client = true →
            Blames v.1 v.2 file site x y row.heldBy)) := by
  obtain ⟨hrows, hheld⟩ := sinkStatus_eq_ok h
  intro row hrow
  rw [hheld, heldRows_eq, List.mem_map] at hrow
  obtain ⟨⟨view, v⟩, hmem, rfl⟩ := hrow
  rw [List.mem_filter] at hmem
  obtain ⟨hview, hsend⟩ := hmem
  have hholds : (SinkGate.verdict view.pipe v).send = false := by simpa using hsend
  refine ⟨(view, v), hview, rfl, rfl, rfl, hholds, fun hne ↦ ?_, ?_⟩
  · rw [heldRow, if_neg hne]
    rfl
  · intro hfive heff file site x y hfiles hx hy
    obtain ⟨hattr, hrule, hmarker, hclient, -⟩ := SinkGate.rule_five hfive
    dsimp only at hattr hmarker heff hfiles ⊢
    have hwho : (heldRow r.clients view (SinkGate.verdict view.pipe v)).heldBy =
        (SinkGate.heldBy view.client (effectiveState view.client file site)).getD "fault" := by
      rw [heldRow, if_pos hfive, byClient_eq hrows (mem_clientNames hview hclient hrule) hfiles]
    rw [hwho]
    constructor
    · intro hvalid
      rw [SinkGate.heldBy, effectiveState, hvalid]
      rfl
    · intro hvalid
      rw [heldBy_eq hvalid hx hy]
      rw [hfiles] at heff
      have hgate {file' site' : SwitchRead} {x' y' : Setting} (hx' : Reads file' x')
          (hy' : Reads site' y') (hne : ruling x' y' ≠ .upload) :
          (SinkGate.verdict view.pipe
            { v with effective := .ok (effectiveState view.client file' site') }).send = false := by
        have hiff : (SinkGate.verdict view.pipe
            { v with effective := .ok (effectiveState view.client file' site') }).send = true ↔
            (effectiveState view.client file' site').state = .upload :=
          send_of_switches hattr hrule hmarker hclient rfl
        exact Bool.eq_false_iff.mpr fun h ↦
          hne ((hx'.state hvalid hy').symm.trans (hiff.mp h))
      have hheldNow : ruling x y ≠ .upload := by
        intro hstate
        have hstate' := (hx.state hvalid hy).trans hstate
        rw [(send_of_switches hattr hrule hmarker hclient heff).mpr hstate'] at hholds
        cases hholds
      obtain ⟨who, hblame⟩ := exists_blame hheldNow
      rw [hblame, Option.getD_some]
      refine ⟨blame_cases hblame, fun hsite file' x' hx' ↦ ?_, fun hcl site' y' hy' ↦ ?_, ?_⟩
      · subst hsite
        exact hgate hx' hy (ruling_of_blame_site hblame x')
      · subst hcl
        exact hgate hx hy' (ruling_of_blame_client hblame y')
      · rw [← blame_eq_fault, hblame, Option.some_inj]

/-- `mag` is held by its client's switch, and stays held whatever the site's says. -/
theorem status_names_who_binds_two : ∃ r row, sinkStatus (fun _ ↦ 0) twoFound = .ok r ∧
    row ∈ r.held ∧ row.heldBy = "client" ∧ row.client = "mag" ∧
    Blames (viewOf magPipe) (sightOf "mag") ⟨some .off, false, ""⟩ ⟨none, true, ""⟩
      (.named .off) .missing row.heldBy := by
  obtain ⟨r, hr, hheld⟩ := sinkStatus_twoFound
  have hmem : (⟨"mag", "mag", "client", "sink off (client)"⟩ : HeldRow) ∈ r.held := by simp [hheld]
  obtain ⟨v, hv, hname, -, -, -, -, hfive⟩ := status_names_who_binds (fun _ ↦ 0) hr _ hmem
  obtain rfl : v = (viewOf magPipe, sightOf "mag") := by
    rcases List.mem_pair.mp hv with rfl | rfl
    · exact absurd hname (by decide)
    · rfl
  obtain ⟨-, hblames⟩ := hfive (by decide) rfl _ _ _ _ rfl (.named .off) .missing
  exact ⟨r, _, hr, hmem, rfl, rfl, hblames (by decide)⟩

end Cli

end HsUploader
