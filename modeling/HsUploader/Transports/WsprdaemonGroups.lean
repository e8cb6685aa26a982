import HsUploader.Library.Grouping
import HsUploader.Transports.WsprdaemonTar

/-!
# What the groups hold

The loop over the records puts each row into the group of its key.  What a group holds in the end is
said without the loop: the rows filed under its key, in their order (`exists_of_mem_spots`), and a
receiver's flag is the conjunction of those of its rows (`lookup_forward`).
-/

set_option autoImplicit false

namespace HsUploader.Wsprdaemon

section

variable (py : Interpreter)

/-- A spot, with what it is filed under. -/
structure SpotItem where
  key : SpotKey
  band : PyValue py.Finite
  mode : PyValue py.Finite
  cols : Columns py.Finite

/-- A noise row, with what it is filed under. -/
structure NoiseItem where
  key : NoiseKey
  band : PyValue py.Finite
  cols : Columns py.Finite

/-- A psk row, with what it is filed under. -/
structure PskItem where
  key : PskKey
  band : PyValue py.Finite
  cols : Columns py.Finite

/-- What a record is filed as, and its columns. -/
abbrev Item : Type := Filed py × Columns py.Finite

/-- The item of a record. -/
def fileItem (up : Uploader) (r : Rec py.Finite) : Except Exn (Item py) := do
  let filed ← fileRecord py up r
  pure (filed, r.columns)

variable {py}

def spotItem : Item py → Option (SpotItem py)
  | (.spot key band mode, cols) => some ⟨key, band, mode, cols⟩
  | _ => none

def noiseItem : Item py → Option (NoiseItem py)
  | (.noise key band, cols) => some ⟨key, band, cols⟩
  | _ => none

def pskItem : Item py → Option (PskItem py)
  | (.psk key band, cols) => some ⟨key, band, cols⟩
  | _ => none

/-- The key of a psk row's receiver. -/
def PskItem.receiver (x : PskItem py) : PyText := receiverKey x.key.site x.key.recv

/-- An item in its group. -/
def Groups.addItem (g : Groups py) (item : Item py) : Groups py := g.add py item.2 item.1

/-- The loop over the records is one over their items. -/
theorem groupRecords_eq_ok {up : Uploader} {records : List (Rec py.Finite)} {g : Groups py} :
    groupRecords py up records = .ok g ↔
      ∃ items, records.mapM (fileItem py up) = .ok items ∧ items.foldl Groups.addItem {} = g := by
  rw [groupRecords]
  generalize ({} : Groups py) = g₀
  induction records generalizing g₀ with
  | nil => simp [Except.pure_eq_ok]
  | cons r records ih =>
    rw [List.foldlM_cons, Except.bind_eq_ok]
    simp only [Except.mapM_cons_eq_ok, fileItem, Except.bind_eq_ok, Except.pure_eq_ok]
    constructor
    · rintro ⟨g₁, ⟨filed, hfiled, rfl⟩, hrest⟩
      obtain ⟨items, hitems, hfold⟩ := (ih _).mp hrest
      exact ⟨_, ⟨_, items, ⟨filed, hfiled, rfl⟩, hitems, rfl⟩, hfold⟩
    · rintro ⟨_, ⟨_, items, ⟨filed, hfiled, rfl⟩, hitems, rfl⟩, hfold⟩
      exact ⟨_, ⟨filed, hfiled, rfl⟩, (ih _).mpr ⟨items, hitems, hfold⟩⟩

theorem mem_items {up : Uploader} {records : List (Rec py.Finite)} {items : List (Item py)}
    (h : records.mapM (fileItem py up) = .ok items) {filed : Filed py} {cols : Columns py.Finite} :
    (filed, cols) ∈ items ↔ ∃ r ∈ records, fileRecord py up r = .ok filed ∧ r.columns = cols := by
  have hitem : ∀ r, fileItem py up r = .ok (filed, cols) ↔
      fileRecord py up r = .ok filed ∧ r.columns = cols := by
    intro r
    simp only [fileItem, Except.bind_eq_ok, Except.pure_eq_ok, Prod.mk.injEq]
    exact ⟨fun ⟨_, hfile, rfl, hcols⟩ ↦ ⟨hfile, hcols⟩, fun ⟨hfile, hcols⟩ ↦ ⟨_, hfile, rfl, hcols⟩⟩
  constructor
  · intro hmem
    obtain ⟨r, hr, heq⟩ := (Except.exists_of_mapM h).2 _ hmem
    exact ⟨r, hr, (hitem r).mp heq⟩
  · rintro ⟨r, hr, hfile⟩
    obtain ⟨item, hmem, heq⟩ := (Except.exists_of_mapM h).1 r hr
    rw [(hitem r).mpr hfile] at heq
    exact Except.ok.inj heq ▸ hmem

/-! ## The loop, group by group -/

theorem spots_foldl (items : List (Item py)) (g : Groups py) :
    (items.foldl Groups.addItem g).spots = Grouping.collect SpotItem.key
      (fun x ↦ SpotGroup.append py x.band x.mode x.cols) g.spots (items.filterMap spotItem) :=
  Grouping.foldl_eq_collect (fun _ item ↦ by
    obtain ⟨filed, cols⟩ := item
    cases filed <;> rfl) items g

theorem noise_foldl (items : List (Item py)) (g : Groups py) :
    (items.foldl Groups.addItem g).noise = Grouping.collect NoiseItem.key
      (fun x ↦ NoiseGroup.replace py x.band x.cols) g.noise (items.filterMap noiseItem) :=
  Grouping.foldl_eq_collect (fun _ item ↦ by
    obtain ⟨filed, cols⟩ := item
    cases filed <;> rfl) items g

theorem psk_foldl (items : List (Item py)) (g : Groups py) :
    (items.foldl Groups.addItem g).psk = Grouping.collect PskItem.key
      (fun x ↦ PskGroup.append py x.band x.cols) g.psk (items.filterMap pskItem) :=
  Grouping.foldl_eq_collect (fun _ item ↦ by
    obtain ⟨filed, cols⟩ := item
    cases filed <;> rfl) items g

theorem forward_foldl (items : List (Item py)) (g : Groups py) :
    (items.foldl Groups.addItem g).forward = Grouping.collect PskItem.receiver
      (fun x flag ↦ flag.getD true && forwardFlag py x.cols) g.forward
      (items.filterMap pskItem) :=
  Grouping.foldl_eq_collect (fun _ item ↦ by
    obtain ⟨filed, cols⟩ := item
    cases filed <;> rfl) items g

/-! ## What a group holds -/

theorem foldl_append_spots (xs : List (SpotItem py)) (v : SpotGroup py) :
    xs.foldl (fun v x ↦ SpotGroup.append py x.band x.mode x.cols (some v)) v =
      { v with rows := v.rows ++ xs.map SpotItem.cols } := by
  induction xs generalizing v with
  | nil => simp
  | cons x xs ih =>
    rw [List.foldl_cons, ih]
    simp [SpotGroup.append]

variable {up : Uploader} {records : List (Rec py.Finite)} {items : List (Item py)} {g : Groups py}

/-- **A group of spots holds the rows of its key**, and is named by the first of them. -/
theorem exists_of_mem_spots (hg : items.foldl Groups.addItem {} = g) {key : SpotKey}
    {group : SpotGroup py} (h : (key, group) ∈ g.spots) :
    ∃ x rest, (items.filterMap spotItem).filter (fun x ↦ x.key = key) = x :: rest ∧
      group = { band := x.band, mode := x.mode, rows := (x :: rest).map SpotItem.cols } := by
  rw [← hg, spots_foldl] at h
  obtain ⟨x, rest, hfilter, rfl⟩ := Grouping.exists_of_mem_collect h
  refine ⟨x, rest, hfilter, ?_⟩
  rw [foldl_append_spots]
  rfl

/-- A spot is in a group of its key. -/
theorem exists_group_of_spot (hg : items.foldl Groups.addItem {} = g) {key : SpotKey}
    {band mode : PyValue py.Finite} {cols : Columns py.Finite}
    (h : (Filed.spot key band mode, cols) ∈ items) :
    ∃ group, (key, group) ∈ g.spots ∧ cols ∈ group.rows := by
  have hitem : (⟨key, band, mode, cols⟩ : SpotItem py) ∈ items.filterMap spotItem :=
    List.mem_filterMap.mpr ⟨_, h, rfl⟩
  have hkey : key ∈ g.spots.map Prod.fst := by
    rw [← hg, spots_foldl, Grouping.mem_keys_collect]
    exact .inr ⟨_, hitem, rfl⟩
  obtain ⟨⟨_, group⟩, hmem, rfl⟩ := List.mem_map.mp hkey
  obtain ⟨x, rest, hfilter, hgroup⟩ := exists_of_mem_spots hg hmem
  refine ⟨group, hmem, ?_⟩
  rw [hgroup, ← hfilter]
  exact List.mem_map.mpr ⟨_, List.mem_filter.mpr ⟨hitem, by simp⟩, rfl⟩

/-! ## What a row is filed under -/

theorem hashed_eq_str {v : PyValue py.Finite} {s : PyText} :
    hashed py v = .ok (.str s) ↔ v = .str s := by
  cases v with
  | float x => cases x <;> simp [hashed]
  | _ => simp [hashed]

/-- What a spot is filed under is read off its columns. -/
theorem of_fileRecord_spot {r : Rec py.Finite} {key : SpotKey} {band mode : PyValue py.Finite}
    (h : fileRecord py up r = .ok (.spot key band mode)) :
    rowRxIdentity py up r.columns = .ok key.rxId ∧ hashed py band = .ok key.band ∧
      hashed py mode = .ok key.mode ∧ ∃ t : Moment, key.ts = t.stamp := by
  rw [fileRecord] at h
  split_ifs at h with hnil hpsk
  · cases h
  · simp only [filePsk, Except.bind_eq_ok] at h
    obtain ⟨text, -, h⟩ := h
    split_ifs at h
    · simp only [Except.bind_eq_ok, Except.pure_eq_ok, reduceCtorEq, and_false, exists_false] at h
    · cases h
  · rw [fileWspr] at h
    cases hb : bandAndTime py r.columns with
    | error e =>
      rw [hb] at h
      dsimp only at h
      split_ifs at h
      cases h
    | ok p =>
      rw [hb] at h
      dsimp only at h
      rw [Except.bind_eq_ok] at h
      obtain ⟨rxId, hrx, h⟩ := h
      split_ifs at h
      · simp only [Except.bind_eq_ok, Except.pure_eq_ok, reduceCtorEq, and_false, exists_false] at h
      · cases hm : getItem r.columns "mode" with
        | error e =>
          rw [hm] at h
          cases h
        | ok m =>
          rw [hm] at h
          simp only [Except.bind_eq_ok, Except.pure_eq_ok] at h
          obtain ⟨b, hb, m', hm', heq⟩ := h
          cases heq
          exact ⟨hrx, hb, hm', p.2, rfl⟩

/-! ## The names of members -/

theorem spotEntry_name {set : Settings} {group : SpotKey × SpotGroup py} {e : Entry}
    (h : spotEntry py set group = .ok e) :
    ∃ mode, group.2.mode = .str mode ∧
      e.1 = spotName set.tarRoot group.1.rxId (py.str group.2.band) mode group.1.ts := by
  simp only [spotEntry, Except.bind_eq_ok, Except.pure_eq_ok] at h
  obtain ⟨mode, hmode, lines, -, content, -, rfl⟩ := h
  refine ⟨mode, ?_, rfl⟩
  cases hv : group.2.mode with
  | str s =>
    rw [hv] at hmode
    rw [Except.ok.inj hmode]
  | _ =>
    rw [hv] at hmode
    cases hmode

theorem noiseEntry_name {set : Settings} {group : NoiseKey × NoiseGroup py} {e : Entry}
    (h : noiseEntry py set group = .ok e) :
    e.1 = noiseName set.tarRoot group.1.rxId (py.str group.2.band) group.1.ts := by
  simp only [noiseEntry, Except.bind_eq_ok, Except.pure_eq_ok] at h
  obtain ⟨line, -, content, -, rfl⟩ := h
  rfl

theorem pskEntry_name {group : PskKey × PskGroup py} {e : Entry}
    (h : pskEntry py group = .ok e) : e.1 = pskName group.1 (py.str group.2.band) := by
  simp only [pskEntry, Except.bind_eq_ok, Except.pure_eq_ok] at h
  obtain ⟨rows, -, lines, -, content, -, rfl⟩ := h
  rfl

/-- The names at the root of a tar, beside `routing.json`. -/
def metadataNames (set : Settings) : List PyText :=
  match set.clientInfo with
  | none => [.ofString "uploads_config.txt"]
  | some _ => [.ofString "uploads_config.txt", .ofString "client_upload_info.txt"]

theorem metadata_names {set : Settings} {start : List Entry} (h : metadata set = .ok start) :
    start.map Prod.fst = metadataNames set := by
  rw [metadata, Except.bind_eq_ok] at h
  obtain ⟨config, -, h⟩ := h
  rw [metadataNames]
  match hinfo : set.clientInfo with
  | none =>
    rw [hinfo] at h
    obtain rfl := Except.pure_eq_ok.mp h
    rfl
  | some (reporter, key) =>
    rw [hinfo] at h
    dsimp only at h
    rw [Except.bind_eq_ok] at h
    obtain ⟨info, -, h⟩ := h
    obtain rfl := Except.pure_eq_ok.mp h
    rfl

theorem routingEntry_names {set : Settings} {routing : List Entry}
    (h : routingEntry py set g = .ok routing) :
    routing.map Prod.fst = if hasRouting py set g then [.ofString "routing.json"] else [] := by
  rw [routingEntry] at h
  split_ifs at h ⊢
  · simp only [Except.bind_eq_ok, Except.pure_eq_ok] at h
    obtain ⟨text, -, data, -, rfl⟩ := h
    rfl
  · obtain rfl := Except.pure_eq_ok.mp h
    rfl

end

end HsUploader.Wsprdaemon
