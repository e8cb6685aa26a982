import HsUploader.Daemon.GateVerdict
import HsUploader.SinkSwitch.History
import HsUploader.Sink.WriterSwitch

/-!
# From an order to the gate

`sinks/` holds a switch file for each client and one for the site.  An operator's order is a call of
`write_switch` on one of them, which may fail anywhere; the gate of the daemon and the writers of
the clients read two of the files and go by the stricter.

What a file says after any orders is what the last of them that got through asked of it, and what
it said before where none did (`setting_obey`): no order for another file, and none that failed,
changes anything.  So the gate lets a pipeline send where the last orders for its client and for
the site come to `upload` (`gate_follows_orders`), and a writer leaves out the rows of a client
where they come to `off` (`writer_follows_orders`).

## What is here

* `Order`, `obey` and `heard` — orders, the directory after them, and those of them that put a new
  file in the place of the old one.  An order that raises after that has still been heard.
* `Setting` and `settingOf` — what a switch file says, and `ruling` what two of them come to.
* `settingAfter` and `setting_obey` — what a file says after any orders.
* `readBoth_cases` — the two reads of `effective_state`, with the orders that get through between
  them; each read finds what its file says at its own moment.
* `foundAfter` — the two switches of a client as those reads find them.
-/

set_option autoImplicit false

namespace HsUploader.SinkSwitch

/-! ## The directory -/

/-- The bytes of the switch files of `sinks/`, by their names. -/
abbrev SinksDir := String → Option Bytes

/-- A call of `write_switch` on a file of the directory. -/
structure Order (F : Type) where
  file : String
  call : Call F

/-- The state the order asks for. -/
def Order.asked {F : Type} (o : Order F) : Option SwitchState :=
  match o.call.change.state with
  | some (.str s) => SwitchState.ofName (String.ofList s)
  | _ => none

/-- What the order asks of a file. -/
def Order.askedFor {F : Type} (file : String) (o : Order F) : Option SwitchState :=
  if o.file = file then o.asked else none

/-- `f"{client}.toml"`. -/
def switchFile (client : String) : String := client ++ ".toml"

section

variable {fl : Floats} (lib : Stdlib fl) (dir : List String)

/-- How the call ends, and the directory afterwards. -/
def Order.on (o : Order fl.Finite) (d : SinksDir) : Ended Text × SinksDir :=
  let r := o.call.on lib (dir ++ [o.file]) (d o.file)
  (r.1, Function.update d o.file r.2)

/-- The directory after orders that come one after another. -/
def obey (orders : List (Order fl.Finite)) (d : SinksDir) : SinksDir :=
  orders.foldl (fun d o ↦ (o.on lib dir d).2) d

/-- The orders that put a new file in the place of the old one. -/
def heard : List (Order fl.Finite) → SinksDir → List (Order fl.Finite)
  | [], _ => []
  | o :: orders, d =>
    match o.on lib dir d with
    | (.failed _, d) => heard orders d
    | (_, d) => o :: heard orders d

/-- A look at a file of the directory.  `unreadable` is the text of the `OSError` of `stat` or
`read_bytes`, where it raises one. -/
def readFile (unreadable : String → Option Text) (d : SinksDir) (file : String) :
    Except Exn (SwitchRead fl.Finite) :=
  match unreadable file with
  | some e => .ok (.unreadable (pathText (dir ++ [file])) e)
  | none => parse lib.toInterpreter (pathText (dir ++ [file])) (d file)

/-- What the writer and the gate read of a switch file. -/
def SwitchRead.seen {F : Type} (r : SwitchRead F) : HsUploader.SwitchRead where
  state := r.state.bind fun s ↦ SwitchState.ofName (String.ofList s)
  missing := r.missing
  error := String.ofList r.error

/-- The two reads of `effective_state`.  Orders may get through between them. -/
def readBoth (unreadable : String → Option Text) (d d' : SinksDir) (client : String) :
    Except Exn (HsUploader.SwitchRead × HsUploader.SwitchRead) := do
  let file ← readFile lib dir unreadable d (switchFile client)
  let site ← readFile lib dir unreadable d' (switchFile "site")
  pure (file.seen, site.seen)

/-- `effective_state(client, sinks_dir=dir)`: of a bad name it forms no path. -/
def effectiveOn (unreadable : String → Option Text) (d d' : SinksDir) (client : String) :
    Except Exn Effective :=
  if Daemon.validClientName client then do
    let (file, site) ← readBoth lib dir unreadable d d' client
    pure (effectiveState client file site)
  else pure (effectiveState client ⟨none, true, ""⟩ ⟨none, true, ""⟩)

end

/-! ## What a switch says -/

/-- What a switch file says. -/
inductive Setting where
  | missing
  /-- It cannot be read, or it names no state. -/
  | broken
  /-- Reading it raises. -/
  | raises
  | named (s : SwitchState)
  deriving DecidableEq

/-- What a look at a file comes to. -/
def settingOf {F : Type} : Except Exn (SwitchRead F) → Setting
  | .error _ => .raises
  | .ok r =>
    if r.missing then .missing
    else match r.seen.state with
      | some s => .named s
      | none => .broken

/-- What the switch of a client and that of the site come to. -/
def ruling : Setting → Setting → SwitchState
  | .named c, .missing => c
  | .named c, .named s => c.stricter s
  | _, _ => .off

/-- A switch whose file cannot be looked at is as good as broken. -/
def glimpse (unreadable : String → Option Text) (file : String) (x : Setting) : Setting :=
  if (unreadable file).isSome then .broken else x

section

variable {fl : Floats} (lib : Stdlib fl) (dir : List String)

/-- What a file says of itself. -/
def settingIn (d : SinksDir) (file : String) : Setting :=
  settingOf (parse lib.toInterpreter (pathText (dir ++ [file])) (d file))

/-- What the orders that get through ask of a file, one after another. -/
def askedOf (orders : List (Order fl.Finite)) (d : SinksDir) (file : String) : List SwitchState :=
  (heard lib dir orders d).filterMap (Order.askedFor file)

/-- What a file says after orders: what the last of them that got through asked of it. -/
def settingAfter (orders : List (Order fl.Finite)) (d : SinksDir) (file : String) : Setting :=
  match (askedOf lib dir orders d file).getLast? with
  | some s => .named s
  | none => settingIn lib dir d file

end

/-! ## What is read -/

/-- What was read of a file says this. -/
inductive Reads : HsUploader.SwitchRead → Setting → Prop where
  | missing : Reads ⟨none, true, ""⟩ .missing
  | broken {e : String} (he : e ≠ "") : Reads ⟨none, false, e⟩ .broken
  | named (s : SwitchState) : Reads ⟨some s, false, ""⟩ (.named s)

theorem exists_ofName {s : Text} (h : s ∈ states) :
    ∃ st, SwitchState.ofName (String.ofList s) = some st := by
  have hall : ∀ s ∈ states, (SwitchState.ofName (String.ofList s)).isSome := by decide
  exact Option.isSome_iff_exists.mp (hall s h)

section

variable {F : Type}

theorem reads_broken {r : SwitchRead F} (hmissing : r.missing = false) (hstate : r.state = none)
    (herror : r.error ≠ []) : Reads r.seen (settingOf (.ok r)) := by
  have hseen : r.seen = ⟨none, false, String.ofList r.error⟩ := by
    rw [SwitchRead.seen, hmissing, hstate]
    rfl
  have hsetting : settingOf (.ok r) = .broken := by
    rw [settingOf, hmissing, hseen]
    rfl
  rw [hseen, hsetting]
  exact .broken fun h ↦ herror (String.ofList_eq_empty_iff.mp h)

theorem reads_named {r : SwitchRead F} {s : Text} (hmissing : r.missing = false)
    (hstate : r.state = some s) (hs : s ∈ states) (herror : r.error = []) :
    Reads r.seen (settingOf (.ok r)) := by
  obtain ⟨st, hst⟩ := exists_ofName hs
  have hseen : r.seen = ⟨some st, false, ""⟩ := by
    rw [SwitchRead.seen, hmissing, hstate, herror, Option.bind_some, hst]
  have hsetting : settingOf (.ok r) = .named st := by
    rw [settingOf, hmissing, hseen]
    rfl
  rw [hseen, hsetting]
  exact .named st

theorem reads_parse {it : Interpreter F} {path : Text} {file : Option Bytes} {r : SwitchRead F}
    (h : parse it path file = .ok r) : Reads r.seen (settingOf (.ok r)) := by
  unfold parse at h
  split at h
  · cases h
    exact .missing
  · split at h
    · cases h
      exact reads_broken rfl rfl (by simp [SwitchRead.parseError])
    · split at h
      · rename_i data _
        cases h
        cases hstate : stateOf data with
        | none =>
          rw [SwitchRead.ofData, hstate]
          exact reads_broken rfl rfl (by simp)
        | some s =>
          rw [SwitchRead.ofData, hstate]
          refine reads_named rfl rfl ?_ rfl
          unfold stateOf at hstate
          split at hstate
          · split_ifs at hstate with hs
            cases hstate
            exact hs
          · cases hstate
      · cases h
        exact reads_broken rfl rfl (by simp [SwitchRead.parseError])
      · cases h

end

/-- **What `effective_state` comes to** is what the two switches come to. -/
theorem Reads.state {client : String} {file site : HsUploader.SwitchRead} {x y : Setting}
    (hclient : Daemon.validClientName client = true) (hx : Reads file x) (hy : Reads site y) :
    (effectiveState client file site).state = ruling x y := by
  rw [effectiveState, hclient]
  cases hx with
  | missing => cases hy <;> rfl
  | broken he => cases hy <;> simp [he, ruling]
  | named c => cases hy <;> simp_all [ruling]

/-- A client's file is the one that is missing. -/
theorem Reads.missing_iff {file : HsUploader.SwitchRead} {x : Setting} (hx : Reads file x) :
    file.missing = true ↔ x = .missing := by
  cases hx <;> simp

section

variable {fl : Floats} (lib : Stdlib fl) (dir : List String)

/-- A look at a file raises, or reads what the file says, unless it cannot be looked at. -/
theorem readFile_cases (unreadable : String → Option Text) (d : SinksDir) (file : String) :
    ((∃ e, readFile lib dir unreadable d file = .error e) ∧
        glimpse unreadable file (settingIn lib dir d file) = .raises) ∨
      ∃ r, readFile lib dir unreadable d file = .ok r ∧
        Reads r.seen (glimpse unreadable file (settingIn lib dir d file)) := by
  rw [readFile, glimpse]
  cases unreadable file with
  | some e => exact .inr ⟨_, rfl, reads_broken rfl rfl (by simp [SwitchRead.unreadable])⟩
  | none =>
    rw [settingIn]
    cases h : parse lib.toInterpreter (pathText (dir ++ [file])) (d file) with
    | error e => exact .inl ⟨⟨e, rfl⟩, rfl⟩
    | ok r => exact .inr ⟨r, rfl, reads_parse h⟩

/-! ## What orders change -/

/-- An order fails and changes nothing, or its file says what it asked, and no other file has
changed. -/
theorem order_cases {o : Order fl.Finite} {d : SinksDir}
    (hd : ∀ file, SoundFile lib (d file)) (ho : SoundChange o.call.change) :
    (∃ e, o.on lib dir d = (.failed e, d)) ∨
      (∀ e, (o.on lib dir d).1 ≠ .failed e) ∧
        (∃ s, o.asked = some s ∧ settingIn lib dir (o.on lib dir d).2 o.file = .named s) ∧
        ∀ file ≠ o.file, (o.on lib dir d).2 file = d file := by
  have hkept : Kept lib (dir ++ [o.file]) o.call (d o.file)
      (o.call.on lib (dir ++ [o.file]) (d o.file)) := (kept_on lib (hd o.file) ho).1
  rcases hon : o.call.on lib (dir ++ [o.file]) (d o.file) with ⟨ended, bytes⟩
  rw [hon] at hkept
  have heq : o.on lib dir d = (ended, Function.update d o.file bytes) := by
    rw [Order.on, hon]
  rw [heq]
  by_cases hfailed : ∃ e, ended = .failed e
  · obtain ⟨e, rfl⟩ := hfailed
    obtain rfl : bytes = d o.file := hkept.failed e rfl
    exact .inl ⟨e, by rw [Function.update_eq_self]⟩
  · have hthrough : ∀ e, ended ≠ .failed e := fun e he ↦ hfailed ⟨e, he⟩
    obtain ⟨old, -, -, -, name, state, data, hnew⟩ := hkept.through hthrough
    have hstate := hnew.isState
    unfold newState at hstate
    split at hstate
    · rename_i s hs
      split_ifs at hstate with hmem
      cases hstate
      obtain ⟨st, hst⟩ := exists_ofName hmem
      refine .inr ⟨hthrough, ⟨st, ?_, ?_⟩, fun file hne ↦ Function.update_of_ne hne _ _⟩
      · rw [Order.asked, hs]
        exact hst
      · dsimp only
        rw [settingIn, Function.update_self, hnew.reads, settingOf, SwitchRead.seen]
        simp [hst]
    · cases hstate

theorem soundFile_on {o : Order fl.Finite} {d : SinksDir} (hd : ∀ file, SoundFile lib (d file))
    (ho : SoundChange o.call.change) (file : String) : SoundFile lib ((o.on lib dir d).2 file) := by
  rw [Order.on]
  dsimp only
  by_cases hfile : file = o.file
  · subst hfile
    rw [Function.update_self]
    exact (kept_on lib (hd o.file) ho).2
  · rw [Function.update_of_ne hfile]
    exact hd file

/-- **What a file says after any orders** is what the last of them that got through asked of it. -/
theorem setting_obey {orders : List (Order fl.Finite)} {d : SinksDir}
    (hd : ∀ file, SoundFile lib (d file)) (ho : ∀ o ∈ orders, SoundChange o.call.change)
    (file : String) :
    settingIn lib dir (obey lib dir orders d) file = settingAfter lib dir orders d file := by
  induction orders generalizing d with
  | nil => rfl
  | cons o orders ih =>
    rw [List.forall_mem_cons] at ho
    have hrest := ih (soundFile_on lib dir hd ho.1) ho.2
    rw [obey, List.foldl_cons, ← obey, hrest, settingAfter, settingAfter, askedOf, askedOf, heard]
    rcases order_cases lib dir hd ho.1 with ⟨e, heq⟩ | ⟨hthrough, ⟨s, hasked, hnamed⟩, hothers⟩
    · rw [heq]
    · rcases hon : o.on lib dir d with ⟨ended, d'⟩
      rw [hon] at hthrough hnamed hothers
      dsimp only at hthrough hnamed hothers ⊢
      have hheard : (match ((ended, d') : Ended Text × SinksDir) with
          | (.failed _, d) => heard lib dir orders d
          | (_, d) => o :: heard lib dir orders d) = o :: heard lib dir orders d' := by
        cases ended with
        | failed e => exact absurd rfl (hthrough e)
        | late e => rfl
        | returned answer => rfl
      rw [hheard]
      by_cases hfile : o.file = file
      · subst hfile
        have hself : o.askedFor o.file = some s := (if_pos rfl).trans hasked
        rw [List.filterMap_cons_some hself, List.getLast?_cons]
        -- where no later order for the file gets through, it says what this one asked
        cases (List.filterMap (Order.askedFor o.file) (heard lib dir orders d')).getLast? with
        | none => exact hnamed
        | some s' => rfl
      · have hother : o.askedFor file = none := if_neg hfile
        rw [List.filterMap_cons_none hother, settingIn, hothers file (Ne.symm hfile), ← settingIn]

/-! ## What the gate and the writers do -/

/-- The switch of a client as the reads of `effective_state` find it: the client's file first, and
the site's after orders that may get through in between. -/
def foundAfter (unreadable : String → Option Text) (orders later : List (Order fl.Finite))
    (d : SinksDir) (client : String) : Setting × Setting :=
  (glimpse unreadable (switchFile client) (settingAfter lib dir orders d (switchFile client)),
    glimpse unreadable (switchFile "site")
      (settingAfter lib dir (orders ++ later) d (switchFile "site")))

variable (unreadable : String → Option Text) (orders later : List (Order fl.Finite)) (d : SinksDir)

/-- What the two reads come to. -/
theorem readBoth_cases (hd : ∀ file, SoundFile lib (d file))
    (ho : ∀ o ∈ orders ++ later, SoundChange o.call.change) (client : String) :
    ((∃ e, readBoth lib dir unreadable (obey lib dir orders d) (obey lib dir (orders ++ later) d)
          client = .error e) ∧
        ((foundAfter lib dir unreadable orders later d client).1 = .raises ∨
          (foundAfter lib dir unreadable orders later d client).2 = .raises)) ∨
      ∃ file site, readBoth lib dir unreadable (obey lib dir orders d)
          (obey lib dir (orders ++ later) d) client = .ok (file, site) ∧
        Reads file (foundAfter lib dir unreadable orders later d client).1 ∧
        Reads site (foundAfter lib dir unreadable orders later d client).2 := by
  have hfile := readFile_cases lib dir unreadable (obey lib dir orders d) (switchFile client)
  have hsite := readFile_cases lib dir unreadable (obey lib dir (orders ++ later) d)
    (switchFile "site")
  rw [setting_obey lib dir hd fun o h ↦ ho o (List.mem_append_left _ h)] at hfile
  rw [setting_obey lib dir hd ho] at hsite
  rw [readBoth]
  rcases hfile with ⟨⟨e, hfile⟩, hraises⟩ | ⟨r, hfile, hreads⟩
  · rw [hfile]
    exact .inl ⟨⟨e, rfl⟩, .inl hraises⟩
  · rw [hfile]
    rcases hsite with ⟨⟨e, hsite⟩, hraises⟩ | ⟨r', hsite, hreads'⟩
    · rw [hsite]
      exact .inl ⟨⟨e, rfl⟩, .inr hraises⟩
    · rw [hsite]
      exact .inr ⟨_, _, rfl, hreads, hreads'⟩

theorem Reads.ne_raises {file : HsUploader.SwitchRead} {x : Setting} (h : Reads file x) :
    x ≠ .raises := by
  rintro rfl
  cases h

/-- What comes to `upload` has a file of the client's. -/
theorem clientMissing_of_upload {client : String} {file site : HsUploader.SwitchRead}
    (h : (effectiveState client file site).state = .upload) :
    (effectiveState client file site).clientMissing = false := by
  rw [effectiveState] at h ⊢
  split at h
  · cases h
  · rename_i hclient
    rw [if_neg hclient]
    dsimp only at h ⊢
    split_ifs at h with hoff
    all_goals
      simp only [Bool.or_eq_true, not_or] at hoff
      simpa using hoff.1.1

/-- So the gate does not look for the directory. -/
theorem lookForSinks_of_upload {v : SinkGate.Sight} {client : String}
    {file site : HsUploader.SwitchRead} (h : (effectiveState client file site).state = .upload) :
    SinkGate.lookForSinks v client (effectiveState client file site) = .ok () := by
  rw [SinkGate.lookForSinks, clientMissing_of_upload h, Bool.and_false]
  rfl

theorem ruling_raises {x y : Setting} (h : x = .raises ∨ y = .raises) : ruling x y = .off := by
  rcases h with rfl | rfl
  · rfl
  · cases x <;> rfl

/-- **The gate follows the orders.**  It lets a pipeline send that is exempt, where no marker
stands, or that names no client, and any other where the last orders for its client and for the
site that got through come to `upload`. -/
theorem gate_follows_orders (clock : ℕ → ℚ) (g : SinkGate.Gate) (p : Daemon.Pipeline)
    (v : SinkGate.Sight) (hd : ∀ file, SoundFile lib (d file))
    (ho : ∀ o ∈ orders ++ later, SoundChange o.call.change)
    (hv : v.effective = effectiveOn lib dir unreadable (obey lib dir orders d)
      (obey lib dir (orders ++ later) d) p.client) :
    ∃ answer, (SinkGate.decide clock p v g).1 = .ok answer ∧
      (answer.send = true ↔ v.attributes = .ok () ∧ (Daemon.exemptRule p ≠ 0 ∨
        v.marker = .ok false ∨ v.marker = .ok true ∧ (p.client = "" ∨
          Daemon.validClientName p.client = true ∧
            ruling (foundAfter lib dir unreadable orders later d p.client).1
              (foundAfter lib dir unreadable orders later d p.client).2 = .upload))) := by
  refine ⟨_, (SinkGate.decide_gives clock p v).run_eq g, ?_⟩
  rw [SinkGate.send_verdict, hv]
  have hswitches : (∃ eff, effectiveOn lib dir unreadable (obey lib dir orders d)
        (obey lib dir (orders ++ later) d) p.client = .ok eff ∧
        SinkGate.lookForSinks v p.client eff = .ok () ∧ eff.state = .upload) ↔
      Daemon.validClientName p.client = true ∧
        ruling (foundAfter lib dir unreadable orders later d p.client).1
          (foundAfter lib dir unreadable orders later d p.client).2 = .upload := by
    rw [effectiveOn]
    cases hclient : Daemon.validClientName p.client with
    | false =>
      refine iff_of_false ?_ fun h ↦ Bool.false_ne_true h.1
      rintro ⟨eff, heff, -, hstate⟩
      cases heff
      rw [effectiveState, hclient] at hstate
      cases hstate
    | true =>
      rcases readBoth_cases lib dir unreadable orders later d hd ho p.client with
        ⟨⟨e, hread⟩, hraises⟩ | ⟨file, site, hread, hx, hy⟩
      · rw [if_pos rfl, hread, ruling_raises hraises]
        refine iff_of_false ?_ fun h ↦ by cases h.2
        rintro ⟨eff, heff, -⟩
        cases heff
      · rw [if_pos rfl, hread, ← Reads.state hclient hx hy]
        constructor
        · rintro ⟨eff, heff, -, hstate⟩
          cases heff
          exact ⟨rfl, hstate⟩
        · rintro ⟨-, hstate⟩
          exact ⟨_, rfl, lookForSinks_of_upload hstate, hstate⟩
  rw [hswitches]

end

/-! ## Orders for two clients and the site -/

/-- An order for a state, by a call that names nothing else. -/
def orderFor (file state : String) (os : Os) : Order wholeFloats.Finite where
  file
  call :=
    { os
      change := { state := some (.str state.toList) }
      now := "2026-10-06T21:30:00Z".toList }

/-- Three orders: `mag.toml` is set to `off`, `wspr.toml` to `upload`, where the sync of the
directory raises after the file was replaced, and an order that sets the site to `off` fails when it
replaces the file. -/
def threeOrders : List (Order wholeFloats.Finite) :=
  [orderFor "mag.toml" "off" .fine,
    orderFor "wspr.toml" "upload" { Os.fine with syncDir := some (.other "OSError" "EIO") },
    orderFor "site.toml" "off" { Os.fine with replace := some (.other "OSError" "EROFS") }]

theorem soundChange_orderFor (file state : String) (os : Os) :
    SoundChange (orderFor file state os).call.change where
  setAt _ h := by cases h
  setBy _ h := by cases h
  reason _ h := by cases h
  grant := sound_nil
  identity := sound_nil

theorem soundFile_none : SoundFile wholeStdlib none :=
  soundFile_of_unbroken wholeStdlib fun path cur h k hk ↦ by
    cases h
    cases hk

theorem soundChange_threeOrders : ∀ o ∈ threeOrders, SoundChange o.call.change := by
  intro o ho
  simp only [threeOrders, List.mem_cons, List.not_mem_nil, or_false] at ho
  rcases ho with rfl | rfl | rfl <;> exact soundChange_orderFor _ _ _

/-- A pipeline of the client `wspr`. -/
def wsprPipe : Daemon.Pipeline where
  id := 0
  entry := 0
  name := "wspr"
  client := "wspr"
  governed := true
  origin := "pipelines.d/wspr.toml"
  key := .ok ("wspr", "wsprnet", "spots")
  producer := true
  heartbeat := false
  initial := true
  parts := {}

/-- What the gate finds when the marker stands, after the three orders. -/
def wsprSight : SinkGate.Sight where
  marker := .ok true
  effective := effectiveOn wholeStdlib ["sinks"] (fun _ ↦ none)
    (obey wholeStdlib ["sinks"] threeOrders fun _ ↦ none)
    (obey wholeStdlib ["sinks"] (threeOrders ++ []) fun _ ↦ none) "wspr"
  isDir := .ok true

theorem gate_follows_orders_three :
    ∃ answer, (SinkGate.decide (fun _ ↦ 0) wsprPipe wsprSight {}).1 = .ok answer ∧
      answer.send = true := by
  obtain ⟨answer, hanswer, hsend⟩ := gate_follows_orders wholeStdlib ["sinks"]
    (fun _ ↦ none) threeOrders [] (fun _ ↦ none) (fun _ ↦ 0) {} wsprPipe wsprSight
    (fun _ ↦ soundFile_none) (fun o ho ↦ soundChange_threeOrders o (by simpa using ho)) rfl
  refine ⟨answer, hanswer, hsend.mpr ⟨rfl, .inr (.inr ⟨rfl, .inr ?_⟩)⟩⟩
  decide

section

variable {fl : Floats} (lib : Stdlib fl) (dir : List String)
  (unreadable : String → Option Text) (orders later : List (Order fl.Finite)) (d : SinksDir)

/-- **The writers follow the orders.**  A writer leaves out the rows of a client whose switch file
stands, where both switches can be read and the last orders for them come to `off`. -/
theorem writer_follows_orders (v : SwitchView) (client : String)
    (hd : ∀ file, SoundFile lib (d file)) (ho : ∀ o ∈ orders ++ later, SoundChange o.call.change)
    (hv : v.files client = readBoth lib dir unreadable (obey lib dir orders d)
      (obey lib dir (orders ++ later) d) client) :
    Writer.readsOff v client = .ok true ↔ Daemon.validClientName client = true ∧
      (foundAfter lib dir unreadable orders later d client).1 ≠ .missing ∧
      (foundAfter lib dir unreadable orders later d client).1 ≠ .raises ∧
      (foundAfter lib dir unreadable orders later d client).2 ≠ .raises ∧
      ruling (foundAfter lib dir unreadable orders later d client).1
        (foundAfter lib dir unreadable orders later d client).2 = .off := by
  rw [Writer.readsOff_eq_true, hv]
  refine and_congr_right fun hclient ↦ ?_
  rcases readBoth_cases lib dir unreadable orders later d hd ho client with
    ⟨⟨e, hread⟩, hraises⟩ | ⟨file, site, hread, hx, hy⟩
  · rw [hread]
    refine iff_of_false ?_ fun h ↦ hraises.elim h.2.1 h.2.2.1
    rintro ⟨file, site, h, -⟩
    cases h
  · rw [hread]
    have hmissing := hx.missing_iff
    constructor
    · rintro ⟨file', site', h, hthere, hstate⟩
      cases h
      rw [Reads.state hclient hx hy] at hstate
      exact ⟨fun h ↦ Bool.false_ne_true (hthere.symm.trans (hmissing.mpr h)), hx.ne_raises,
        hy.ne_raises, hstate⟩
    · rintro ⟨hthere, -, -, hstate⟩
      refine ⟨file, site, rfl, ?_, (Reads.state hclient hx hy).trans hstate⟩
      exact Bool.eq_false_iff.mpr fun h ↦ hthere (hmissing.mp h)

end

/-- What a writer finds when the marker stands, after the three orders. -/
def afterOrders : SwitchView where
  marker := .ok true
  files := readBoth wholeStdlib ["sinks"] (fun _ ↦ none)
    (obey wholeStdlib ["sinks"] threeOrders fun _ ↦ none)
    (obey wholeStdlib ["sinks"] (threeOrders ++ []) fun _ ↦ none)

theorem writer_follows_orders_three : Writer.readsOff afterOrders "mag" = .ok true := by
  refine (writer_follows_orders wholeStdlib ["sinks"] (fun _ ↦ none) threeOrders []
    (fun _ ↦ none) afterOrders "mag" (fun _ ↦ soundFile_none)
    (fun o ho ↦ soundChange_threeOrders o (by simpa using ho)) rfl).mpr ?_
  decide

end HsUploader.SinkSwitch
