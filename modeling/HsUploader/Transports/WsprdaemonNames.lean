import HsUploader.Transports.WsprdaemonSlots

/-!
# The names of members

A file of the spool is a member of the tar under a name that tells its receiver and its band and
what it is called there, a noise file's up to the minute; the directories in between are left out
(`FileSlot`).  With what the names of rows tell (`Slot`), this says when two members have one name.
-/

set_option autoImplicit false

namespace HsUploader.Wsprdaemon

/-! ## Files of a spool -/

/-- What the name of a file's member tells of its path. -/
inductive FileSlot where
  | noise (receiver band file : PyText)
  | spots (receiver band file : PyText)
  | other (rel : List PyText)
  deriving DecidableEq

section

variable (py : Interpreter)

/-- The slot of a path below the root of the spool. -/
def fileSlot (path root : FilePath) : FileSlot :=
  match path.relativeTo root with
  | none => .other [path.name]
  | some rel =>
    let isNoise := (PyText.ofString "_noise.txt").isSuffixOf path.name
    match rel with
    | receiver :: band :: _ :: rest =>
      if isNoise then
        if rest ≠ [] then .noise receiver band (noiseFileName py path.name) else .other rel
      else .spots receiver band path.name
    | _ => .other rel

/-- The path of a member below the root of the tar. -/
def FileSlot.path (rxSite : PyText) : FileSlot → PyText
  | .noise receiver band file => slashJoin [.ofString "noise", rxSite, receiver, band, file]
  | .spots receiver band file => slashJoin [.ofString "spots", rxSite, receiver, band, file]
  | .other rel => slashJoin rel

/-- The path is below the root of the spool. -/
def FilePath.Below (path root : FilePath) : Prop :=
  ∃ rel, path.relativeTo root = some rel ∧ rel ≠ []

/-- A part of a path. -/
def IsPart (part : PyText) : Prop := part ≠ [] ∧ PyChar.scalar '/' ∉ part

/-- A slot as it comes of a path. -/
def FileSlot.Written : FileSlot → Prop
  | .noise receiver band file => IsPart receiver ∧ IsPart band ∧ IsPart file
  | .spots receiver band file => IsPart receiver ∧ IsPart band ∧ IsPart file
  | .other rel => rel ≠ [] ∧ rel.length ≤ 3 ∧ ∀ part ∈ rel, IsPart part

/-- The names of the members of `build_wsprdaemon_tar`: what describes the shipment, and the files
that can be read. -/
def treeNames (set : Settings) (root : FilePath) (rxSite : PyText) (readable : FilePath → Bool)
    (paths : List FilePath) : List PyText :=
  metadataNames set ++ (paths.filter readable).map fun path ↦
    addedName (arcnameFor py path root rxSite set.tarRoot)

/-- The files of a transport's tar are named like that. -/
theorem names_filesOf (arch : Archiver) (cfg : Config) (env : Surroundings arch)
    (station : Station) (root : FilePath) (paths : List FilePath)
    (info : Option (PyText × PyText)) :
    metadataNames (cfg.settings info) ++
        (filesOf py arch cfg env station (.files root paths)).map Member.name =
      treeNames py (cfg.settings info) root (buildRxSite station.call station.grid)
        (fun path ↦ (env.disk path).isSome) paths := by
  rw [treeNames, filesOf]
  congr 1
  induction paths with
  | nil => rfl
  | cons path paths ih =>
    rw [List.filterMap_cons, List.filter_cons]
    cases env.disk path with
    | none => exact ih
    | some file => exact congrArg (List.cons _) ih

variable {py}

theorem relativeTo_eq_some {path root : FilePath} {rel : List PyText}
    (h : path.relativeTo root = some rel) : path.parts = root.parts ++ rel := by
  rw [FilePath.relativeTo] at h
  split_ifs at h with hrel
  obtain rfl := Option.some.inj h
  rw [Bool.and_eq_true, List.isPrefixOf_iff_prefix] at hrel
  exact (List.prefix_iff_eq_append.mp hrel.2).symm

theorem isPart_of_relativeTo {path root : FilePath} {rel : List PyText}
    (h : path.relativeTo root = some rel) : ∀ part ∈ rel, IsPart part := fun part hpart ↦
  have hwell := path.wellFormed part (path.mem_of_relativeTo h part hpart)
  ⟨hwell.1, hwell.2.1⟩

theorem isPart_name {path root : FilePath} {rel : List PyText}
    (h : path.relativeTo root = some rel) (hne : rel ≠ []) : IsPart path.name := by
  have hname : path.name = rel.getLast hne := by
    rw [FilePath.name, relativeTo_eq_some h, List.getLastD_eq_getLast?,
      List.getLast?_append_of_ne_nil _ hne, List.getLast?_eq_some_getLast hne]
    rfl
  rw [hname]
  exact isPart_of_relativeTo h _ (List.getLast_mem hne)

theorem notMem_noiseStamp {name day clock : PyText} (h : noiseStamp py name = some (day, clock))
    {c : PyChar} (hc : c ∉ name) : c ∉ day ∧ c ∉ clock := by
  rw [noiseStamp] at h
  split_ifs at h
  obtain ⟨rfl, rfl⟩ := Prod.mk.inj (Option.some.inj h)
  have hstamp : ∀ {n m}, c ∉ (name.drop n).take m := fun hmem ↦
    hc (List.mem_of_mem_drop (List.mem_of_mem_take hmem))
  exact ⟨fun hmem ↦ hstamp (List.mem_of_mem_take (List.mem_of_mem_drop hmem)),
    fun hmem ↦ hstamp (List.mem_of_mem_drop (List.mem_of_mem_take hmem))⟩

theorem isPart_noiseFileName {name : PyText} (h : IsPart name) :
    IsPart (noiseFileName py name) := by
  rw [noiseFileName]
  split
  · rename_i day clock hstamp
    refine ⟨by simp [PyText.ofString], ?_⟩
    obtain ⟨hday, hclock⟩ := notMem_noiseStamp hstamp h.2
    rw [underscoreJoin, Joined.intercalate_cons, List.intercalate_singleton]
    simp only [List.mem_append, List.mem_cons, not_or]
    exact ⟨⟨hday, by decide, hclock⟩, by decide⟩
  · exact h

end

section

variable {py : Interpreter}

/-- The cases of a path below the root. -/
theorem written_fileSlot {path root : FilePath} (h : path.Below root) :
    (fileSlot py path root).Written := by
  obtain ⟨rel, hrel, hne⟩ := h
  have hparts := isPart_of_relativeTo hrel
  have hname := isPart_name hrel hne
  rw [fileSlot, hrel]
  dsimp only
  split
  · rename_i receiver band third rest
    simp only [List.forall_mem_cons] at hparts
    obtain ⟨hreceiver, hband, hthird, hrest⟩ := hparts
    split_ifs with hnoise hdeep
    · exact ⟨hreceiver, hband, isPart_noiseFileName hname⟩
    · obtain rfl := not_not.mp hdeep
      refine ⟨List.cons_ne_nil _ _, le_refl 3, ?_⟩
      simp only [List.forall_mem_cons]
      exact ⟨hreceiver, hband, hthird, hrest⟩
    · exact ⟨hreceiver, hband, hname⟩
  · rename_i hshort
    refine ⟨hne, ?_, hparts⟩
    match rel with
    | [] => exact Nat.zero_le 3
    | [_] => exact Nat.le_add_left 1 2
    | [_, _] => exact Nat.le_add_left 2 1
    | receiver :: band :: third :: rest => exact absurd rfl (hshort receiver band third rest)

theorem arcnameFor_eq {path root : FilePath} (h : path.Below root) (rxSite tarRoot : PyText) :
    arcnameFor py path root rxSite tarRoot =
      slashJoin [tarRoot, (fileSlot py path root).path rxSite] := by
  obtain ⟨rel, hrel, hne⟩ := h
  rw [arcnameFor, fileSlot, hrel]
  rcases rel with _ | ⟨receiver, _ | ⟨band, _ | ⟨third, rest⟩⟩⟩
  · exact absurd rfl hne
  · rfl
  · rfl
  · dsimp only
    by_cases hnoise : (PyText.ofString "_noise.txt").isSuffixOf path.name
    · rw [if_pos hnoise, if_pos hnoise]
      by_cases hdeep : rest ≠ []
      · rw [if_pos hdeep, if_pos hdeep]
        simp only [FileSlot.path, slashJoin_cons, slashJoin_singleton]
      · rw [if_neg hdeep, if_neg hdeep]
        rfl
    · rw [if_neg hnoise, if_neg hnoise]
      simp only [FileSlot.path, slashJoin_cons, slashJoin_singleton]

/-- A path of five parts has four slashes, whatever the parts are. -/
theorem four_le_count (kind rxSite receiver band file : PyText) :
    4 ≤ (slashJoin [kind, rxSite, receiver, band, file]).count (.scalar '/') := by
  simp only [slashJoin_cons, slashJoin_singleton, List.count_append, List.count_cons_self]
  omega

theorem count_other_lt {rel : List PyText} (h : (FileSlot.other rel).Written) :
    (slashJoin rel).count (.scalar '/') < 4 := by
  obtain ⟨hne, hlength, hparts⟩ := h
  have hcount := Joined.count_intercalate hne fun part hpart ↦ (hparts part hpart).2
  rw [slashJoin]
  omega

/-- A path that is kept as it is has fewer parts than one of the tar's own layout. -/
theorem shallow_ne {rel : List PyText} (h : (FileSlot.other rel).Written)
    (kind rxSite receiver band file : PyText) :
    slashJoin rel ≠ slashJoin [kind, rxSite, receiver, band, file] := by
  intro heq
  have hfew := count_other_lt h
  rw [heq] at hfew
  exact absurd hfew (Nat.not_lt.mpr (four_le_count _ _ _ _ _))

theorem noise_ne_spots {rxSite receiver band file receiver' band' file' : PyText} :
    (FileSlot.noise receiver band file).path rxSite ≠
      (FileSlot.spots receiver' band' file').path rxSite := by
  intro heq
  rw [FileSlot.path, FileSlot.path, slashJoin_cons, slashJoin_cons] at heq
  exact absurd (List.cons.inj heq).1 (by decide)

theorem below_inj {kind rxSite receiver band file receiver' band' file' : PyText}
    (h : IsPart receiver ∧ IsPart band ∧ IsPart file)
    (h' : IsPart receiver' ∧ IsPart band' ∧ IsPart file')
    (heq : slashJoin [kind, rxSite, receiver, band, file] =
      slashJoin [kind, rxSite, receiver', band', file']) :
    receiver = receiver' ∧ band = band' ∧ file = file' := by
  rw [slashJoin_cons kind, slashJoin_cons rxSite, slashJoin_cons kind, slashJoin_cons rxSite] at heq
  simp only [List.append_cancel_left_eq, List.cons.injEq, true_and] at heq
  have hparts := Joined.intercalate_inj (List.cons_ne_nil _ _) (List.cons_ne_nil _ _)
    (by simpa using ⟨h.1.2, h.2.1.2, h.2.2.2⟩) (by simpa using ⟨h'.1.2, h'.2.1.2, h'.2.2.2⟩) heq
  simpa using hparts

/-- **A slot can be read off the path of its member.** -/
theorem FileSlot.path_inj {rxSite : PyText} {s s' : FileSlot} (h : s.Written) (h' : s'.Written)
    (heq : s.path rxSite = s'.path rxSite) : s = s' := by
  match s, s' with
  | .noise .., .noise .. =>
    obtain ⟨rfl, rfl, rfl⟩ := below_inj h h' heq
    rfl
  | .spots .., .spots .. =>
    obtain ⟨rfl, rfl, rfl⟩ := below_inj h h' heq
    rfl
  | .other rel, .other rel' =>
    rw [Joined.intercalate_inj h.1 h'.1 (fun part hpart ↦ (h.2.2 part hpart).2)
      (fun part hpart ↦ (h'.2.2 part hpart).2) heq]
  | .noise .., .spots .. => exact absurd heq noise_ne_spots
  | .spots .., .noise .. => exact absurd heq.symm noise_ne_spots
  | .other _, .noise .. => exact absurd heq (shallow_ne h _ _ _ _ _)
  | .other _, .spots .. => exact absurd heq (shallow_ne h _ _ _ _ _)
  | .noise .., .other _ => exact absurd heq.symm (shallow_ne h' _ _ _ _ _)
  | .spots .., .other _ => exact absurd heq.symm (shallow_ne h' _ _ _ _ _)

/-- The path of a member does not begin with a slash. -/
theorem FileSlot.exists_cons_path (rxSite : PyText) {s : FileSlot} (h : s.Written) :
    ∃ c cs, s.path rxSite = c :: cs ∧ c ≠ .scalar '/' := by
  match s with
  | .noise receiver band file =>
    rw [FileSlot.path, slashJoin_cons]
    exact ⟨.scalar 'n', _, rfl, by decide⟩
  | .spots receiver band file =>
    rw [FileSlot.path, slashJoin_cons]
    exact ⟨.scalar 's', _, rfl, by decide⟩
  | .other [] => exact absurd rfl h.1
  | .other ([] :: rest) => exact absurd rfl (h.2.2 [] List.mem_cons_self).1
  | .other ((c :: cs) :: rest) =>
    have hc : c ≠ .scalar '/' := fun hslash ↦
      (h.2.2 (c :: cs) List.mem_cons_self).2 (hslash ▸ List.mem_cons_self)
    cases rest with
    | nil => exact ⟨c, cs, slashJoin_singleton _, hc⟩
    | cons next rest => exact ⟨c, _, slashJoin_cons _ _ _, hc⟩

/-- What is left of the root of the tar where it is slashes only. -/
def OnlySlashes (tarRoot : PyText) : Prop := ∀ c ∈ tarRoot, c = .scalar '/'

instance (tarRoot : PyText) : Decidable (OnlySlashes tarRoot) :=
  inferInstanceAs (Decidable (∀ c ∈ tarRoot, c = PyChar.scalar '/'))

theorem addedName_slashJoin (tarRoot : PyText) {c : PyChar} (cs : PyText)
    (hc : c ≠ .scalar '/') : addedName (slashJoin [tarRoot, c :: cs]) =
      if OnlySlashes tarRoot then c :: cs else addedName tarRoot ++ .scalar '/' :: c :: cs := by
  have hall : OnlySlashes tarRoot ↔ addedName tarRoot = [] := by
    rw [addedName, List.dropWhile_eq_nil_iff]
    simp [OnlySlashes]
  rw [slashJoin_cons, slashJoin_singleton, addedName, List.dropWhile_append, ← addedName]
  split_ifs with hempty honly honly
  · rw [List.dropWhile_cons_of_pos (by simp), List.dropWhile_cons_of_neg (by simpa using hc)]
  · exact absurd (hall.mpr (List.isEmpty_iff.mp hempty)) honly
  · exact absurd (List.isEmpty_iff.mpr (hall.mp honly)) hempty
  · rfl

end

section

variable {py : Interpreter}

/-- The name of a file's member. -/
def FileSlot.name (tarRoot rxSite : PyText) (s : FileSlot) : PyText :=
  addedName (slashJoin [tarRoot, s.path rxSite])

theorem FileSlot.name_inj {tarRoot rxSite : PyText} {s s' : FileSlot} (h : s.Written)
    (h' : s'.Written) (heq : s.name tarRoot rxSite = s'.name tarRoot rxSite) : s = s' := by
  obtain ⟨c, cs, hpath, hc⟩ := FileSlot.exists_cons_path rxSite h
  obtain ⟨c', cs', hpath', hc'⟩ := FileSlot.exists_cons_path rxSite h'
  refine @FileSlot.path_inj rxSite _ _ h h' ?_
  rw [FileSlot.name, FileSlot.name, hpath, hpath', addedName_slashJoin _ _ hc,
    addedName_slashJoin _ _ hc'] at heq
  rw [hpath, hpath']
  split_ifs at heq
  · exact heq
  · exact (List.cons.inj (List.append_cancel_left heq)).2

/-- A file has a name without a slash where it is at the root of the tar. -/
theorem FileSlot.name_eq_iff {tarRoot rxSite name : PyText} {s : FileSlot} (h : s.Written)
    (hname : PyChar.scalar '/' ∉ name) :
    s.name tarRoot rxSite = name ↔ OnlySlashes tarRoot ∧ s = .other [name] := by
  obtain ⟨c, cs, hpath, hc⟩ := FileSlot.exists_cons_path rxSite h
  rw [FileSlot.name, hpath, addedName_slashJoin _ _ hc]
  split_ifs with honly
  · rw [and_iff_right honly, ← hpath]
    constructor
    · rintro rfl
      match s with
      | .noise .. => exact absurd (slash_mem_slashJoin _ _ _) hname
      | .spots .. => exact absurd (slash_mem_slashJoin _ _ _) hname
      | .other [] => exact absurd rfl h.1
      | .other [part] => rw [FileSlot.path, slashJoin_singleton]
      | .other (part :: next :: rest) => exact absurd (slash_mem_slashJoin _ _ _) hname
    · rintro rfl
      exact slashJoin_singleton name
  · refine iff_of_false (fun heq ↦ hname ?_) fun hs ↦ honly hs.1
    rw [← heq]
    exact List.mem_append_right _ List.mem_cons_self

theorem nodup_metadataNames (set : Settings) : (metadataNames set).Nodup := by
  rw [metadataNames]
  split <;> decide

theorem slash_notMem_metadataNames {set : Settings} :
    ∀ name ∈ metadataNames set, PyChar.scalar '/' ∉ name := by
  rw [metadataNames]
  split <;> decide

/-- **The names of a tar of files** are distinct exactly when no two of its files leave the same in
their names, and none is named as what describes the shipment. -/
theorem nodup_treeNames_iff {set : Settings} {root : FilePath} {rxSite : PyText}
    {readable : FilePath → Bool} {paths : List FilePath} (h : ∀ path ∈ paths, path.Below root) :
    (treeNames py set root rxSite readable paths).Nodup ↔
      ((paths.filter readable).map fun path ↦ fileSlot py path root).Nodup ∧
        (OnlySlashes set.tarRoot → ∀ path ∈ paths, readable path → ∀ name ∈ metadataNames set,
          fileSlot py path root ≠ .other [name]) := by
  have hnames : ((paths.filter readable).map fun path ↦
      addedName (arcnameFor py path root rxSite set.tarRoot)) =
      ((paths.filter readable).map fun path ↦ fileSlot py path root).map
        (FileSlot.name set.tarRoot rxSite) := by
    rw [List.map_map]
    refine List.map_congr_left fun path hpath ↦ ?_
    rw [arcnameFor_eq (h path (List.mem_of_mem_filter hpath))]
    rfl
  have hwritten : ∀ s ∈ (paths.filter readable).map fun path ↦ fileSlot py path root,
      s.Written := by
    intro s hs
    obtain ⟨path, hpath, rfl⟩ := List.mem_map.mp hs
    exact written_fileSlot (h path (List.mem_of_mem_filter hpath))
  rw [treeNames, hnames, List.nodup_append', and_iff_right (nodup_metadataNames set)]
  refine and_congr ⟨List.Nodup.of_map _, fun hnodup ↦ hnodup.map_on fun s hs s' hs' heq ↦
    FileSlot.name_inj (hwritten s hs) (hwritten s' hs') heq⟩ ?_
  constructor
  · intro hdisjoint honly path hpath hread name hname hslot
    have hmem : fileSlot py path root ∈
        (paths.filter readable).map fun path ↦ fileSlot py path root :=
      List.mem_map_of_mem (List.mem_filter.mpr ⟨hpath, hread⟩)
    refine hdisjoint hname (List.mem_map.mpr ⟨_, hmem, ?_⟩)
    exact (FileSlot.name_eq_iff (hwritten _ hmem) (slash_notMem_metadataNames name hname)).mpr
      ⟨honly, hslot⟩
  · intro hapart name hname hmem
    obtain ⟨s, hs, heq⟩ := List.mem_map.mp hmem
    obtain ⟨honly, hslot⟩ :=
      (FileSlot.name_eq_iff (hwritten s hs) (slash_notMem_metadataNames name hname)).mp heq
    obtain ⟨path, hpath, rfl⟩ := List.mem_map.mp hs
    obtain ⟨hpath, hread⟩ := List.mem_filter.mp hpath
    exact hapart honly path hpath hread name hname hslot

end

/-- The spool. -/
def plainSpool : FilePath where
  absolute := true
  parts := [.ofString "spool"]
  wellFormed := by decide

/-- A file in a directory of the receiver's band. -/
def spoolFile (directory : String) (h : directory = "W2" ∨ directory = "F5") : FilePath where
  absolute := true
  parts := [.ofString "spool", .ofString "kiwi", .ofString "20", .ofString directory,
    .ofString "260523_0102_spots.txt"]
  wellFormed := by rcases h with rfl | rfl <;> decide

theorem below_spoolFile (directory : String) (h : directory = "W2" ∨ directory = "F5") :
    (spoolFile directory h).Below plainSpool :=
  ⟨_, rfl, List.cons_ne_nil _ _⟩

/-- A spot of a receiver with this call. -/
def calledSpot (rxCall : String) : Rec plainNumbers.Finite where
  columns := [("time", .str (.ofString "2026-05-23T01:02:00Z")), ("frequency_hz", .int 14000000),
    ("snr_db", .int (-20)), ("callsign", .str (.ofString "K1ABC")), ("pwr_dbm", .int 23),
    ("band", .int 20), ("mode", .str (.ofString "W2")), ("rx_call", .str (.ofString rxCall)),
    ("rx_grid", .str (.ofString "EM38ww"))]

/-- Where each group's first record gives a slot of its own, no two groups take one. -/
theorem Takes.group_eq {py : Interpreter} {up : Uploader} {records : List (Rec py.Finite)}
    {filed : List (Filed py)} (hfiled : records.mapM (fileRecord py up) = .ok filed)
    (hnodup : ((filed.filterMap (Filed.slot py)).map Prod.snd).Nodup) {k k' : Group} {s : Slot}
    (h : Takes py up records k s) (h' : Takes py up records k' s) : k = k' := by
  obtain ⟨filed₁, hfiled₁, hlookup⟩ := h
  obtain ⟨filed₂, hfiled₂, hlookup'⟩ := h'
  obtain rfl := Except.ok.inj (hfiled.symm.trans hfiled₁)
  obtain rfl := Except.ok.inj (hfiled.symm.trans hfiled₂)
  exact congrArg Prod.fst (List.inj_on_of_nodup_map hnodup (Table.mem_of_lookup hlookup)
    (Table.mem_of_lookup hlookup') rfl)

/-- A file of another minute in another directory of the band. -/
def laterFile : FilePath where
  absolute := true
  parts := [.ofString "spool", .ofString "kiwi", .ofString "20", .ofString "F5",
    .ofString "260523_0105_spots.txt"]
  wellFormed := by decide

end HsUploader.Wsprdaemon
