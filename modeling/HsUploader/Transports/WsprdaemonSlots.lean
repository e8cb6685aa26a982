import HsUploader.Library.Joined
import HsUploader.Transports.WsprdaemonRouting

/-!
# The names of the members that rows are put into

A member of a tar overwrites another one of its name where the tar is unpacked.  Rows are grouped by
values, and by more of them than a name shows; a name is made of texts (`Slot`).  The names of a tar
are distinct exactly when no two groups leave the same texts in their names (`nodup_names_iff`).
-/

set_option autoImplicit false

namespace HsUploader.Wsprdaemon

/-! ## What a name shows -/

/-- What a record is grouped under. -/
inductive Group where
  | spots (key : SpotKey)
  | noise (key : NoiseKey)
  | psk (key : PskKey)
  deriving DecidableEq

/-- What a group leaves in the name of its member. -/
inductive Slot where
  | spots (place : PyText) (wMode : Bool) (ts : String)
  | noise (place : PyText) (ts : String)
  | psk (mode place : PyText) (cycle : String)
  deriving DecidableEq

/-- The directory of a group of spots, and what its file's name begins with. -/
def spotPlace (site recv band mode : PyText) : PyText :=
  slashJoin [site, recv, band, underscoreJoin [recv, band, mode]]

/-- The directory of a group of noise, and what its file's name begins with. -/
def noisePlace (site recv band : PyText) : PyText :=
  slashJoin [site, recv, band, underscoreJoin [recv, band]]

/-- The directory of a group of psk spots, below that of the mode. -/
def pskPlace (site recv band : PyText) : PyText := slashJoin [site, recv, band]

/-- The name of the member. -/
def Slot.name (tarRoot : PyText) : Slot → PyText
  | .spots place wMode ts => slashJoin [tarRoot, .ofString "spots", place] ++ .ofString "_" ++
      .ofString ts ++ .ofString (if wMode then "_wd_spots.txt" else "_spots.txt")
  | .noise place ts => slashJoin [tarRoot, .ofString "noise", place] ++ .ofString "_" ++
      .ofString ts ++ .ofString "_noise.txt"
  | .psk mode place cycle =>
    slashJoin [mode, place, underscoreJoin [.ofString cycle, mode] ++ .ofString ".jsonl"]

section

variable (py : Interpreter)

/-- The text of a mode. -/
def modeText : PyValue py.Finite → PyText
  | .str s => s
  | _ => []

/-- The slot of a group of spots. -/
def spotSlot (key : SpotKey) (band mode : PyValue py.Finite) : Slot :=
  .spots (spotPlace key.rxId.site key.rxId.recv (py.str band) (modeText py mode))
    (isW (modeText py mode)) key.ts

/-- The slot of a group of noise. -/
def noiseSlot (key : NoiseKey) (band : PyValue py.Finite) : Slot :=
  .noise (noisePlace key.rxId.site key.rxId.recv (py.str band)) key.ts

/-- The slot of a group of psk spots. -/
def pskSlot (key : PskKey) (band : PyValue py.Finite) : Slot :=
  .psk key.mode (pskPlace key.site key.recv (py.str band)) key.cycle

/-- The group of a record, and the slot that the record would give it. -/
def Filed.slot : Filed py → Option (Group × Slot)
  | .skipped => none
  | .psk key band => some (.psk key, pskSlot py key band)
  | .noise key band => some (.noise key, noiseSlot py key band)
  | .spot key band mode => some (.spots key, spotSlot py key band mode)

/-- The groups, each with its slot. -/
def Groups.slots (g : Groups py) : List (Group × Slot) :=
  g.spots.map (fun p ↦ (.spots p.1, spotSlot py p.1 p.2.band p.2.mode)) ++
    g.noise.map (fun p ↦ (.noise p.1, noiseSlot py p.1 p.2.band)) ++
    g.psk.map (fun p ↦ (.psk p.1, pskSlot py p.1 p.2.band))

/-- A group of a batch takes the slot that the first of its records gives it. -/
def Takes (up : Uploader) (records : List (Rec py.Finite)) (k : Group) (s : Slot) : Prop :=
  ∃ filed, records.mapM (fileRecord py up) = .ok filed ∧
    Table.lookup k (filed.filterMap (Filed.slot py)) = some s

/-- A slot as it comes of a record. -/
def Slot.Written : Slot → Prop
  | .spots _ _ ts => ∃ t : Moment, ts = t.stamp
  | .noise _ ts => ∃ t : Moment, ts = t.stamp
  | .psk mode _ cycle => mode ∈ pskModes ∧ '/' ∉ cycle.toList

end

/-! ## Reading a name -/

theorem mem_ofString {s : String} {c : Char} :
    PyChar.scalar c ∈ PyText.ofString s ↔ c ∈ s.toList := by
  simp [PyText.ofString]

theorem isDigit_of_mem_twoDigits {n : ℕ} {c : Char} (h : c ∈ (WsprNet.twoDigits n).toList) :
    c.isDigit := by
  have hdigit : ∀ n < 10, (Nat.digitChar n).isDigit = true := by decide
  simp only [WsprNet.twoDigits, String.toList_ofList, List.mem_cons, List.not_mem_nil,
    or_false] at h
  rcases h with rfl | rfl
  · exact hdigit _ (Nat.mod_lt _ (by decide))
  · exact hdigit _ (Nat.mod_lt _ (by decide))

theorem toString_nat (n : ℕ) : toString n = String.ofList (Nat.toDigits 10 n) := rfl

/-- A stamp is a day and a time of day. -/
theorem exists_of_stamp (t : Moment) : ∃ day clock, t.stamp = day ++ "_" ++ clock ∧
    (∀ c ∈ day.toList, c.isDigit) ∧ ∀ c ∈ clock.toList, c.isDigit := by
  refine ⟨toString t.year ++ WsprNet.twoDigits t.month ++ WsprNet.twoDigits t.day,
    WsprNet.twoDigits t.hour ++ WsprNet.twoDigits t.minute ++ WsprNet.twoDigits t.second, ?_, ?_,
    ?_⟩
  · simp only [Moment.stamp, String.append_assoc]
  · simp only [String.toList_append, List.mem_append]
    rintro c ((hc | hc) | hc)
    · rw [toString_nat, String.toList_ofList] at hc
      exact Nat.isDigit_of_mem_toDigits (by omega) (by omega) hc
    · exact isDigit_of_mem_twoDigits hc
    · exact isDigit_of_mem_twoDigits hc
  · simp only [String.toList_append, List.mem_append]
    rintro c ((hc | hc) | hc)
    · exact isDigit_of_mem_twoDigits hc
    · exact isDigit_of_mem_twoDigits hc
    · exact isDigit_of_mem_twoDigits hc

theorem notMem_ofString_of_isDigit {s : String} (h : ∀ c ∈ s.toList, c.isDigit) {c : Char}
    (hc : c.isDigit = false) : PyChar.scalar c ∉ PyText.ofString s := by
  intro hmem
  rw [h c (mem_ofString.mp hmem)] at hc
  cases hc

theorem ofString_injective {s t : String} (h : PyText.ofString s = PyText.ofString t) : s = t := by
  have hlist : s.toList = t.toList :=
    List.map_injective_iff.mpr (fun _ _ hc ↦ PyChar.scalar.inj hc) h
  exact String.toList_injective hlist

/-- A text that ends with a day and a time of day. -/
theorem append_stamp (x : PyText) (day clock : String) :
    x ++ PyText.ofString "_" ++ PyText.ofString (day ++ "_" ++ clock) =
      (x ++ .scalar '_' :: PyText.ofString day) ++ .scalar '_' :: PyText.ofString clock := by
  rw [PyText.ofString_append, PyText.ofString_append]
  simp [PyText.ofString]

/-- A stamp at the end of a text is told apart from what is before it. -/
theorem stamp_inj {x x' : PyText} {t t' : Moment}
    (heq : x ++ .ofString "_" ++ .ofString t.stamp = x' ++ .ofString "_" ++ .ofString t'.stamp) :
    x = x' ∧ t.stamp = t'.stamp := by
  obtain ⟨day, clock, hstamp, hday, hclock⟩ := exists_of_stamp t
  obtain ⟨day', clock', hstamp', hday', hclock'⟩ := exists_of_stamp t'
  have hfree : ∀ {s : String}, (∀ c ∈ s.toList, c.isDigit) →
      PyChar.scalar '_' ∉ PyText.ofString s := fun hs ↦ notMem_ofString_of_isDigit hs (by decide)
  rw [hstamp, hstamp', append_stamp, append_stamp] at heq
  obtain ⟨heq, hclocks⟩ := Joined.cut_last (hfree hclock) (hfree hclock') heq
  obtain ⟨heq, hdays⟩ := Joined.cut_last (hfree hday) (hfree hday') heq
  rw [hstamp, hstamp', ofString_injective hclocks, ofString_injective hdays]
  exact ⟨heq, rfl⟩

/-- A stamp does not end as the start of an extended file's suffix does. -/
theorem stamp_ne_wd {x x' : PyText} {t : Moment} :
    x ++ .ofString "_" ++ .ofString t.stamp ≠ x' ++ .ofString "_wd" := by
  intro heq
  obtain ⟨day, clock, hstamp, -, hclock⟩ := exists_of_stamp t
  have hwide : x' ++ PyText.ofString "_wd" = x' ++ .scalar '_' :: PyText.ofString "wd" := rfl
  rw [hstamp, append_stamp, hwide] at heq
  obtain ⟨-, hwd⟩ := @Joined.cut_last _ (.scalar '_') _ _ _ (PyText.ofString "wd")
    (notMem_ofString_of_isDigit hclock (by decide)) (by decide) heq
  have hmem : PyChar.scalar 'w' ∈ PyText.ofString clock := by
    rw [hwd]
    decide
  exact notMem_ofString_of_isDigit hclock (by decide) hmem

theorem slashJoin_cons (part next : PyText) (parts : List PyText) :
    slashJoin (part :: next :: parts) = part ++ .scalar '/' :: slashJoin (next :: parts) :=
  Joined.intercalate_cons part next parts

theorem slashJoin_singleton (part : PyText) : slashJoin [part] = part :=
  List.intercalate_singleton

theorem slash_mem_slashJoin (part next : PyText) (parts : List PyText) :
    PyChar.scalar '/' ∈ slashJoin (part :: next :: parts) :=
  Joined.mem_intercalate_sep part next parts

/-- The directories of one root and kind differ in the place. -/
theorem slashJoin_place_inj {tarRoot kind place place' : PyText}
    (h : slashJoin [tarRoot, kind, place] = slashJoin [tarRoot, kind, place']) :
    place = place' := by
  simpa only [slashJoin_cons, slashJoin_singleton, List.append_cancel_left_eq, List.cons.injEq,
    true_and] using h

/-- The last letter of a name tells psk spots from the others. -/
theorem Slot.getLast?_name (tarRoot : PyText) (s : Slot) : (s.name tarRoot).getLast? =
    some (.scalar (match s with | .psk .. => 'l' | _ => 't')) := by
  cases s with
  | spots place wMode ts =>
    cases wMode
    · exact getLast?_append_ofString _ rfl
    · exact getLast?_append_ofString _ rfl
  | noise place ts => exact getLast?_append_ofString _ rfl
  | psk mode place cycle =>
    obtain ⟨hne, -⟩ := @not_endsInNul_append_ofString (underscoreJoin [.ofString cycle, mode])
      ".jsonl" 'l' (by decide) (by decide)
    exact (getLast?_slashJoin [mode, place] hne).trans (getLast?_append_ofString _ rfl)

/-- The end of a name tells spots from noise. -/
theorem Slot.name_spots_ne_noise {tarRoot place place' : PyText} {wMode : Bool} {ts ts' : String} :
    (Slot.spots place wMode ts).name tarRoot ≠ (Slot.noise place' ts').name tarRoot := by
  intro heq
  have hspots : ∃ x, (Slot.spots place wMode ts).name tarRoot =
      x ++ .scalar '_' :: PyText.ofString "spots.txt" := by
    cases wMode
    · exact ⟨_, rfl⟩
    · refine ⟨slashJoin [tarRoot, .ofString "spots", place] ++ .ofString "_" ++ .ofString ts ++
        .ofString "_wd", ?_⟩
      rw [List.append_assoc _ (PyText.ofString "_wd")]
      rfl
  obtain ⟨x, hx⟩ := hspots
  rw [hx] at heq
  obtain ⟨-, hend⟩ := @Joined.cut_last _ (.scalar '_') x _ (PyText.ofString "spots.txt")
    (PyText.ofString "noise.txt") (by decide) (by decide) heq
  exact absurd hend (by decide)

/-- The end of a name tells the spots of W modes from those of the others. -/
theorem Slot.name_wide_ne {tarRoot place place' : PyText} {ts : String} {t : Moment} :
    (Slot.spots place true ts).name tarRoot ≠ (Slot.spots place' false t.stamp).name tarRoot := by
  intro heq
  have hwide : (Slot.spots place true ts).name tarRoot =
      slashJoin [tarRoot, .ofString "spots", place] ++ .ofString "_" ++ .ofString ts ++
        .ofString "_wd" ++ .ofString "_spots.txt" := by
    rw [List.append_assoc _ (PyText.ofString "_wd")]
    rfl
  rw [hwide, Slot.name, if_neg Bool.false_ne_true, List.append_cancel_right_eq] at heq
  exact stamp_ne_wd heq.symm

theorem notMem_pskModes {mode : PyText} (h : mode ∈ pskModes) : PyChar.scalar '/' ∉ mode := by
  rw [pskModes] at h
  simp only [List.mem_cons, List.not_mem_nil, or_false] at h
  rcases h with rfl | rfl | rfl <;> decide

/-- The name of a psk file is told apart from the directory. -/
theorem Slot.psk_name_inj {tarRoot mode mode' place place' : PyText} {cycle cycle' : String}
    (h : (Slot.psk mode place cycle).Written) (h' : (Slot.psk mode' place' cycle').Written)
    (heq : (Slot.psk mode place cycle).name tarRoot = (Slot.psk mode' place' cycle').name tarRoot) :
    Slot.psk mode place cycle = .psk mode' place' cycle' := by
  simp only [Slot.name, slashJoin_cons, slashJoin_singleton] at heq
  obtain ⟨rfl, hrest⟩ := Joined.cut_first (notMem_pskModes h.1) (notMem_pskModes h'.1) heq
  have hfile : ∀ {cycle : String}, '/' ∉ cycle.toList → PyChar.scalar '/' ∉
      underscoreJoin [.ofString cycle, mode] ++ PyText.ofString ".jsonl" := by
    intro cycle hcycle
    rw [underscoreJoin, Joined.intercalate_cons, List.intercalate_singleton]
    simp only [List.mem_append, List.mem_cons, mem_ofString, not_or]
    exact ⟨⟨hcycle, by decide, notMem_pskModes h.1⟩, by decide⟩
  obtain ⟨rfl, hfiles⟩ := Joined.cut_last (hfile h.2) (hfile h'.2) hrest
  simp only [underscoreJoin, Joined.intercalate_cons, List.append_cancel_right_eq] at hfiles
  rw [ofString_injective hfiles]

/-- **A slot can be read off the name of its member.** -/
theorem Slot.name_inj {tarRoot : PyText} {s s' : Slot} (h : s.Written) (h' : s'.Written)
    (heq : s.name tarRoot = s'.name tarRoot) : s = s' := by
  have hlast := (Slot.getLast?_name tarRoot s).symm.trans
    ((congrArg List.getLast? heq).trans (Slot.getLast?_name tarRoot s'))
  match s, s' with
  | .spots place wMode ts, .spots place' wMode' ts' =>
    obtain ⟨t, rfl⟩ := h
    obtain ⟨t', rfl⟩ := h'
    have hsame : wMode = wMode' := by
      cases wMode <;> cases wMode'
      · rfl
      · exact absurd heq.symm Slot.name_wide_ne
      · exact absurd heq Slot.name_wide_ne
      · rfl
    subst hsame
    rw [Slot.name, Slot.name, List.append_cancel_right_eq] at heq
    obtain ⟨hplace, hts⟩ := stamp_inj heq
    rw [slashJoin_place_inj hplace, hts]
  | .noise place ts, .noise place' ts' =>
    obtain ⟨t, rfl⟩ := h
    obtain ⟨t', rfl⟩ := h'
    rw [Slot.name, Slot.name, List.append_cancel_right_eq] at heq
    obtain ⟨hplace, hts⟩ := stamp_inj heq
    rw [slashJoin_place_inj hplace, hts]
  | .psk .., .psk .. => exact Slot.psk_name_inj h h' heq
  | .spots .., .noise .. => exact absurd heq Slot.name_spots_ne_noise
  | .noise .., .spots .. => exact absurd heq.symm Slot.name_spots_ne_noise
  | .spots .., .psk .. => exact absurd hlast (by simp)
  | .noise .., .psk .. => exact absurd hlast (by simp)
  | .psk .., .spots .. => exact absurd hlast (by simp)
  | .psk .., .noise .. => exact absurd hlast (by simp)

section

variable {py : Interpreter}

/-! ## Spots, noise and psk rows -/

theorem slot_of_spots_foldl (items : List (Item py)) (key : SpotKey) :
    (Table.lookup key (items.foldl Groups.addItem {}).spots).map
        (fun g ↦ spotSlot py key g.band g.mode) =
      Table.lookup (.spots key) ((items.map Prod.fst).filterMap (Filed.slot py)) := by
  rw [spots_foldl]
  refine (Grouping.map_lookup_collect (fun key (g : SpotGroup py) ↦ spotSlot py key g.band g.mode)
    (fun x : SpotItem py ↦ spotSlot py x.key x.band x.mode) (fun _ ↦ rfl) (fun _ _ ↦ rfl) key
    _).trans ?_
  rw [List.map_filterMap, List.filterMap_map]
  refine (Table.lookup_filterMap (fun _ _ h ↦ Group.spots.inj h) (fun item k s ↦ ?_) key items).symm
  obtain ⟨filed, cols⟩ := item
  cases filed <;> simp [spotItem, Filed.slot]

theorem slot_of_noise_foldl (items : List (Item py)) (key : NoiseKey) :
    (Table.lookup key (items.foldl Groups.addItem {}).noise).map
        (fun g ↦ noiseSlot py key g.band) =
      Table.lookup (.noise key) ((items.map Prod.fst).filterMap (Filed.slot py)) := by
  rw [noise_foldl]
  refine (Grouping.map_lookup_collect (fun key (g : NoiseGroup py) ↦ noiseSlot py key g.band)
    (fun x : NoiseItem py ↦ noiseSlot py x.key x.band) (fun _ ↦ rfl) (fun _ _ ↦ rfl) key _).trans ?_
  rw [List.map_filterMap, List.filterMap_map]
  refine (Table.lookup_filterMap (fun _ _ h ↦ Group.noise.inj h) (fun item k s ↦ ?_) key items).symm
  obtain ⟨filed, cols⟩ := item
  cases filed <;> simp [noiseItem, Filed.slot]

theorem slot_of_psk_foldl (items : List (Item py)) (key : PskKey) :
    (Table.lookup key (items.foldl Groups.addItem {}).psk).map (fun g ↦ pskSlot py key g.band) =
      Table.lookup (.psk key) ((items.map Prod.fst).filterMap (Filed.slot py)) := by
  rw [psk_foldl]
  refine (Grouping.map_lookup_collect (fun key (g : PskGroup py) ↦ pskSlot py key g.band)
    (fun x : PskItem py ↦ pskSlot py x.key x.band) (fun _ ↦ rfl) (fun _ _ ↦ rfl) key _).trans ?_
  rw [List.map_filterMap, List.filterMap_map]
  refine (Table.lookup_filterMap (fun _ _ h ↦ Group.psk.inj h) (fun item k s ↦ ?_) key items).symm
  obtain ⟨filed, cols⟩ := item
  cases filed <;> simp [pskItem, Filed.slot]

variable {up : Uploader} {records : List (Rec py.Finite)} {items : List (Item py)} {g : Groups py}

/-- Each group stands once. -/
theorem nodup_slots (hg : items.foldl Groups.addItem {} = g) :
    ((g.slots py).map Prod.fst).Nodup ∧ (g.spots.map Prod.fst).Nodup ∧
      (g.noise.map Prod.fst).Nodup ∧ (g.psk.map Prod.fst).Nodup := by
  have hnil : ∀ {κ ν : Type}, (([] : List (κ × ν)).map Prod.fst).Nodup := List.nodup_nil
  have hspots : (g.spots.map Prod.fst).Nodup := by
    rw [← hg, spots_foldl]
    exact Grouping.nodup_collect hnil _
  have hnoise : (g.noise.map Prod.fst).Nodup := by
    rw [← hg, noise_foldl]
    exact Grouping.nodup_collect hnil _
  have hpsk : (g.psk.map Prod.fst).Nodup := by
    rw [← hg, psk_foldl]
    exact Grouping.nodup_collect hnil _
  refine ⟨?_, hspots, hnoise, hpsk⟩
  have hall : (g.slots py).map Prod.fst = (g.spots.map Prod.fst).map Group.spots ++
      (g.noise.map Prod.fst).map Group.noise ++ (g.psk.map Prod.fst).map Group.psk := by
    simp only [Groups.slots, List.map_append, List.map_map]
    rfl
  rw [hall, List.nodup_append', List.nodup_append']
  refine ⟨⟨hspots.map fun _ _ h ↦ Group.spots.inj h, hnoise.map fun _ _ h ↦ Group.noise.inj h, ?_⟩,
    hpsk.map fun _ _ h ↦ Group.psk.inj h, ?_⟩
  · intro k hk hk'
    obtain ⟨_, -, rfl⟩ := List.mem_map.mp hk
    obtain ⟨_, -, heq⟩ := List.mem_map.mp hk'
    cases heq
  · intro k hk hk'
    obtain ⟨_, -, rfl⟩ := List.mem_map.mp hk'
    rcases List.mem_append.mp hk with hk | hk
    · obtain ⟨_, -, heq⟩ := List.mem_map.mp hk
      cases heq
    · obtain ⟨_, -, heq⟩ := List.mem_map.mp hk
      cases heq

theorem mapM_fileRecord (hitems : records.mapM (fileItem py up) = .ok items) :
    records.mapM (fileRecord py up) = .ok (items.map Prod.fst) := by
  induction records generalizing items with
  | nil =>
    obtain rfl := Except.pure_eq_ok.mp hitems
    rfl
  | cons r records ih =>
    obtain ⟨item, rest, hitem, hrest, rfl⟩ := Except.mapM_cons_eq_ok.mp hitems
    simp only [fileItem, Except.bind_eq_ok, Except.pure_eq_ok] at hitem
    obtain ⟨filed, hfiled, rfl⟩ := hitem
    exact Except.mapM_cons_eq_ok.mpr ⟨_, _, hfiled, ih hrest, rfl⟩

/-- The slot of a group is the one that its first record gives it. -/
theorem mem_slots_iff (hitems : records.mapM (fileItem py up) = .ok items)
    (hg : items.foldl Groups.addItem {} = g) {k : Group} {s : Slot} :
    (k, s) ∈ g.slots py ↔ Takes py up records k s := by
  have hfiled := mapM_fileRecord hitems
  obtain ⟨-, hspots, hnoise, hpsk⟩ := nodup_slots hg
  have htakes : Takes py up records k s ↔
      Table.lookup k ((items.map Prod.fst).filterMap (Filed.slot py)) = some s := by
    constructor
    · rintro ⟨filed, hfiled', hlookup⟩
      obtain rfl := Except.ok.inj (hfiled.symm.trans hfiled')
      exact hlookup
    · exact fun hlookup ↦ ⟨_, hfiled, hlookup⟩
  rw [htakes, Groups.slots, List.mem_append, List.mem_append]
  cases k with
  | spots key =>
    rw [← slot_of_spots_foldl, hg,
      ← Grouping.exists_mem_iff hspots fun key g ↦ spotSlot py key g.band g.mode]
    simp
  | noise key =>
    rw [← slot_of_noise_foldl, hg,
      ← Grouping.exists_mem_iff hnoise fun key g ↦ noiseSlot py key g.band]
    simp
  | psk key =>
    rw [← slot_of_psk_foldl, hg,
      ← Grouping.exists_mem_iff hpsk fun key g ↦ pskSlot py key g.band]
    simp

end

section

variable {py : Interpreter} {up : Uploader} {set : Settings} {records : List (Rec py.Finite)}
  {entries : List Entry} {items : List (Item py)} {g : Groups py}

theorem slash_notMem_pskCycleKey (time : PyValue py.Finite) :
    '/' ∉ (pskCycleKey py time).toList := by
  have hdigits : ∀ n, '/' ∉ (WsprNet.twoDigits n).toList := fun n hmem ↦
    absurd (isDigit_of_mem_twoDigits hmem) (by decide)
  rw [pskCycleKey.eq_def]
  split
  · split
    · simp only [WsprNet.DateTime.ymd, String.toList_append, List.mem_append, hdigits, or_false,
        false_or]
      decide
    · decide
  · decide

/-- What a record is filed as has a slot that can be read off a name. -/
theorem written_of_fileRecord {r : Rec py.Finite} {filed : Filed py} {k : Group} {s : Slot}
    (h : fileRecord py up r = .ok filed) (hslot : filed.slot py = some (k, s)) : s.Written := by
  rw [fileRecord] at h
  split_ifs at h with hnil hpsk
  · obtain rfl := Except.pure_eq_ok.mp h
    cases hslot
  · simp only [filePsk, Except.bind_eq_ok] at h
    obtain ⟨text, -, h⟩ := h
    split_ifs at h with hmode
    · simp only [Except.bind_eq_ok, Except.pure_eq_ok] at h
      obtain ⟨band, -, rxId, -, b, -, rfl⟩ := h
      obtain ⟨-, rfl⟩ := Prod.mk.inj (Option.some.inj hslot)
      exact ⟨hmode, slash_notMem_pskCycleKey _⟩
    · obtain rfl := Except.pure_eq_ok.mp h
      cases hslot
  · rw [fileWspr] at h
    cases hband : bandAndTime py r.columns with
    | error e =>
      rw [hband] at h
      dsimp only at h
      split_ifs at h
      obtain rfl := Except.pure_eq_ok.mp h
      cases hslot
    | ok p =>
      rw [hband] at h
      dsimp only at h
      rw [Except.bind_eq_ok] at h
      obtain ⟨rxId, -, h⟩ := h
      split_ifs at h
      · simp only [Except.bind_eq_ok, Except.pure_eq_ok] at h
        obtain ⟨b, -, rfl⟩ := h
        obtain ⟨-, rfl⟩ := Prod.mk.inj (Option.some.inj hslot)
        exact ⟨p.2, rfl⟩
      · cases hm : getItem r.columns "mode" with
        | error e =>
          rw [hm] at h
          obtain rfl := Except.pure_eq_ok.mp h
          cases hslot
        | ok m =>
          rw [hm] at h
          simp only [Except.bind_eq_ok, Except.pure_eq_ok] at h
          obtain ⟨b, -, m', -, rfl⟩ := h
          obtain ⟨-, rfl⟩ := Prod.mk.inj (Option.some.inj hslot)
          exact ⟨p.2, rfl⟩

theorem written_of_takes {k : Group} {s : Slot} (h : Takes py up records k s) : s.Written := by
  obtain ⟨filed, hfiled, hlookup⟩ := h
  obtain ⟨x, hx, hslot⟩ := List.mem_filterMap.mp (Table.mem_of_lookup hlookup)
  obtain ⟨r, -, hr⟩ := (Except.exists_of_mapM hfiled).2 x hx
  exact written_of_fileRecord hr hslot

theorem spotName_eq (tarRoot : PyText) (rxId : RxIdentity) (band mode : PyText) (ts : String) :
    spotName tarRoot rxId band mode ts =
      (Slot.spots (spotPlace rxId.site rxId.recv band mode) (isW mode) ts).name tarRoot := by
  simp only [spotName, Slot.name, spotPlace, slashJoin, underscoreJoin, List.intercalate_cons_cons,
    List.intercalate_singleton, List.append_assoc]
  rfl

theorem noiseName_eq (tarRoot : PyText) (rxId : RxIdentity) (band : PyText) (ts : String) :
    noiseName tarRoot rxId band ts =
      (Slot.noise (noisePlace rxId.site rxId.recv band) ts).name tarRoot := by
  simp only [noiseName, Slot.name, noisePlace, slashJoin, underscoreJoin,
    List.intercalate_cons_cons, List.intercalate_singleton, List.append_assoc]
  rfl

theorem pskName_eq (tarRoot : PyText) (key : PskKey) (band : PyText) :
    pskName key band =
      (Slot.psk key.mode (pskPlace key.site key.recv band) key.cycle).name tarRoot := by
  simp only [pskName, Slot.name, pskPlace, slashJoin, List.intercalate_cons_cons,
    List.intercalate_singleton, List.append_assoc]

/-- The names of what describes the shipment. -/
def rootNames (py : Interpreter) (set : Settings) (g : Groups py) : List PyText :=
  metadataNames set ++ if hasRouting py set g then [.ofString "routing.json"] else []

theorem nodup_rootNames (set : Settings) (g : Groups py) : (rootNames py set g).Nodup := by
  rw [rootNames, metadataNames]
  split <;> split_ifs <;> decide

theorem slash_notMem_rootNames {set : Settings} {g : Groups py} :
    ∀ name ∈ rootNames py set g, PyChar.scalar '/' ∉ name := by
  rw [rootNames, metadataNames]
  split <;> split_ifs <;> decide

/-- The names of a tar are those at its root, and one for each group. -/
theorem names_of_buildEntries (h : buildEntries py up set records = .ok entries) :
    ∃ items g, records.mapM (fileItem py up) = .ok items ∧ items.foldl Groups.addItem {} = g ∧
      entries.map Prod.fst =
        rootNames py set g ++ (g.slots py).map fun p ↦ p.2.name set.tarRoot := by
  simp only [buildEntries, Except.bind_eq_ok, Except.pure_eq_ok] at h
  obtain ⟨g, hg, start, hstart, routing, hrouting, spots, hspots, noise, hnoise, psk, hpsk,
    rfl⟩ := h
  obtain ⟨items, hitems, hfold⟩ := groupRecords_eq_ok.mp hg
  refine ⟨items, g, hitems, hfold, ?_⟩
  have hspotNames : spots.map Prod.fst = g.spots.map fun p ↦
      (spotSlot py p.1 p.2.band p.2.mode).name set.tarRoot := by
    refine Except.map_of_mapM (fun p _ e he ↦ ?_) hspots
    obtain ⟨mode, hmode, hname⟩ := spotEntry_name he
    rw [hname, spotName_eq, spotSlot, hmode, modeText]
  have hnoiseNames : noise.map Prod.fst = g.noise.map fun p ↦
      (noiseSlot py p.1 p.2.band).name set.tarRoot :=
    Except.map_of_mapM (fun p _ e he ↦ (noiseEntry_name he).trans (noiseName_eq _ _ _ _)) hnoise
  have hpskNames : psk.map Prod.fst = g.psk.map fun p ↦
      (pskSlot py p.1 p.2.band).name set.tarRoot :=
    Except.map_of_mapM (fun p _ e he ↦ (pskEntry_name he).trans (pskName_eq _ _ _)) hpsk
  simp only [List.map_append, metadata_names hstart, routingEntry_names hrouting, hspotNames,
    hnoiseNames, hpskNames, rootNames, Groups.slots, List.map_map, List.append_assoc]
  rfl

theorem slash_mem_name {tarRoot : PyText} (s : Slot) : PyChar.scalar '/' ∈ s.name tarRoot := by
  cases s with
  | spots place wMode ts =>
    simp only [Slot.name, List.mem_append]
    exact .inl (.inl (.inl (slash_mem_slashJoin _ _ _)))
  | noise place ts =>
    simp only [Slot.name, List.mem_append]
    exact .inl (.inl (.inl (slash_mem_slashJoin _ _ _)))
  | psk mode place cycle => exact slash_mem_slashJoin _ _ _

/-- **The names of a tar of rows** are distinct exactly when no two groups take one slot. -/
theorem nodup_names_iff (h : buildEntries py up set records = .ok entries) :
    (entries.map Prod.fst).Nodup ↔
      ∀ k k' s, Takes py up records k s → Takes py up records k' s → k = k' := by
  obtain ⟨items, g, hitems, hg, hnames⟩ := names_of_buildEntries h
  have htakes : ∀ {k s}, (k, s) ∈ g.slots py ↔ Takes py up records k s := mem_slots_iff hitems hg
  have hkeys := (nodup_slots hg).1
  rw [hnames, List.nodup_append']
  have hdisjoint : List.Disjoint (rootNames py set g)
      ((g.slots py).map fun p ↦ p.2.name set.tarRoot) := by
    intro name hroot hmem
    obtain ⟨p, -, rfl⟩ := List.mem_map.mp hmem
    exact slash_notMem_rootNames _ hroot (slash_mem_name p.2)
  rw [and_iff_right (nodup_rootNames set g), and_iff_left hdisjoint,
    List.nodup_map_iff_inj_on (List.Nodup.of_map _ hkeys)]
  constructor
  · intro hinj k k' s hk hk'
    exact congrArg Prod.fst (hinj _ (htakes.mpr hk) _ (htakes.mpr hk') rfl)
  · rintro hslots ⟨k, s⟩ hk ⟨k', s'⟩ hk' heq
    rw [htakes] at hk hk'
    obtain rfl := Slot.name_inj (written_of_takes hk) (written_of_takes hk') heq
    rw [hslots k k' s hk hk']

end

/-! ## Places -/

/-- Texts without a slash, which are parts of a name. -/
def NoSlash (parts : List PyText) : Prop := ∀ part ∈ parts, PyChar.scalar '/' ∉ part

/-- A receiver's directory is told apart from what is below it. -/
theorem directory_inj {site recv band rest site' recv' band' rest' : PyText}
    (h : NoSlash [site, recv, band]) (h' : NoSlash [site', recv', band']) :
    slashJoin [site, recv, band, rest] = slashJoin [site', recv', band', rest'] ↔
      site = site' ∧ recv = recv' ∧ band = band' ∧ rest = rest' := by
  constructor
  · intro heq
    simp only [NoSlash, List.forall_mem_cons] at h h'
    simp only [slashJoin_cons, slashJoin_singleton] at heq
    obtain ⟨rfl, heq₁⟩ := Joined.cut_first h.1 h'.1 heq
    obtain ⟨rfl, heq₂⟩ := Joined.cut_first h.2.1 h'.2.1 heq₁
    obtain ⟨rfl, rfl⟩ := Joined.cut_first h.2.2.1 h'.2.2.1 heq₂
    exact ⟨rfl, rfl, rfl, rfl⟩
  · rintro ⟨rfl, rfl, rfl, rfl⟩
    rfl

theorem spotPlace_inj {site recv band mode site' recv' band' mode' : PyText}
    (h : NoSlash [site, recv, band]) (h' : NoSlash [site', recv', band']) :
    spotPlace site recv band mode = spotPlace site' recv' band' mode' ↔
      site = site' ∧ recv = recv' ∧ band = band' ∧ mode = mode' := by
  rw [spotPlace, spotPlace, directory_inj h h']
  refine and_congr_right fun _ ↦ and_congr_right fun hrecv ↦ and_congr_right fun hband ↦ ?_
  subst hrecv hband
  simp only [underscoreJoin, Joined.intercalate_cons, List.intercalate_singleton,
    List.append_cancel_left_eq, List.cons.injEq, true_and]

theorem noisePlace_inj {site recv band site' recv' band' : PyText}
    (h : NoSlash [site, recv, band]) (h' : NoSlash [site', recv', band']) :
    noisePlace site recv band = noisePlace site' recv' band' ↔
      site = site' ∧ recv = recv' ∧ band = band' := by
  rw [noisePlace, noisePlace, directory_inj h h']
  refine and_congr_right fun _ ↦ and_congr_right fun hrecv ↦ and_iff_left_of_imp fun hband ↦ ?_
  rw [hrecv, hband]

theorem pskPlace_inj {site recv band site' recv' band' : PyText}
    (h : NoSlash [site, recv, band]) (h' : NoSlash [site', recv', band']) :
    pskPlace site recv band = pskPlace site' recv' band' ↔
      site = site' ∧ recv = recv' ∧ band = band' := by
  constructor
  · intro heq
    have hparts := Joined.intercalate_inj (List.cons_ne_nil _ _) (List.cons_ne_nil _ _) h h' heq
    simpa using hparts
  · rintro ⟨rfl, rfl, rfl⟩
    rfl

end HsUploader.Wsprdaemon
