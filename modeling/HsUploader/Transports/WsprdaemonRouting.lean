import Mathlib.Data.List.Dedup
import HsUploader.Transports.WsprRows
import HsUploader.Transports.WsprdaemonRetry

/-!
# What `routing.json` says

The flags of the receivers are written as a default, that of the majority, and an entry of its own
for each receiver of the minority; what the station declares is written into the default's object.
A reader takes a receiver's own entry, or else the default.  It reads the conjunction of the flags
of the receiver's rows, and what the station declares changes no flag.

`json.dumps` and `json.loads` are the interpreter's: what is loaded again is the same value
(`Same`), up to the order of the members.

## What is here

* `Plain` and `Same` — the values `routing.json` is made of, and when two of them are one value up
  to the order of members; `JsonReader` is what is relied on of `json.loads`.
* `decodeFlag` — the reader: a receiver's own entry if there is one, else the default.
* `lookup_flagsObject` and `decodeFlag_routingObject` — what stands under a receiver's key before
  and after the station's declarations are written in.  A receiver's key has a slash in it and the
  names that are declared have none, which is why the two never meet.
* `lookup_forward_eq` — the flag of a receiver is the conjunction of the flags of its rows.
* `exists_routing` — what the file of a tar that is written holds; `hasRouting_of_declared` and
  `hasRouting_of_row` say when a tar has one.

The majority is taken of the receivers, not of the rows.  Which flag is the default does not matter
to a reader, and no statement here mentions it.
-/

set_option autoImplicit false

namespace HsUploader.Wsprdaemon

/-! ## Reading JSON -/

/-- The text has no first half of a surrogate pair, so that no escape of it joins the next one. -/
def Settled (s : PyText) : Prop := ∀ c ∈ s, isHighSurrogate c = false

section

variable {F : Type}

/-- A value of dicts, texts and booleans, each key once. -/
inductive Plain : PyValue F → Prop
  | bool (b : Bool) : Plain (.bool b)
  | str {s : PyText} (h : Settled s) : Plain (.str s)
  | dict {members : List (PyText × PyValue F)} (nodup : (members.map Prod.fst).Nodup)
      (keys : ∀ m ∈ members, Settled m.1) (values : ∀ m ∈ members, Plain m.2) :
      Plain (.dict members)

/-- One value, up to the order of the members of its dicts. -/
inductive Same : PyValue F → PyValue F → Prop
  | bool (b : Bool) : Same (.bool b) (.bool b)
  | str (s : PyText) : Same (.str s) (.str s)
  | dict {members members' : List (PyText × PyValue F)}
      (keys : ∀ k, (Table.lookup k members).isSome = (Table.lookup k members').isSome)
      (values : ∀ k v v', Table.lookup k members = some v → Table.lookup k members' = some v' →
        Same v v') :
      Same (.dict members) (.dict members')

/-- `v[key]`, where the value is a dict that has the key. -/
def member (key : PyText) : PyValue F → Option (PyValue F)
  | .dict members => Table.lookup key members
  | _ => none

/-- The flag of an entry. -/
def flagIn (entry : PyValue F) : Option Bool :=
  match member (.ofString "forward_to_pskreporter") entry with
  | some (.bool b) => some b
  | _ => none

/-- The flag of a receiver: in its own entry where there is one, and else in the default. -/
def decodeFlag (key : PyText) (routing : PyValue F) : Option Bool :=
  ((member key routing).or (member (.ofString "default") routing)).bind flagIn

/-- The default has the key. -/
def Declares (name : String) (routing : PyValue F) : Prop :=
  ∃ members, member (.ofString "default") routing = some members ∧
    (member (.ofString name) members).isSome

theorem Same.member {v w : PyValue F} (h : Same v w) (key : PyText) :
    (∃ x y, member key v = some x ∧ member key w = some y ∧ Same x y) ∨
      (member key v = none ∧ member key w = none) := by
  cases h with
  | bool b => exact .inr ⟨rfl, rfl⟩
  | str s => exact .inr ⟨rfl, rfl⟩
  | @dict members members' keys values =>
    have hkey := keys key
    cases hv : Table.lookup key members with
    | none =>
      rw [hv, eq_comm, Option.isSome_none, Option.isSome_eq_false_iff, Option.isNone_iff_eq_none]
        at hkey
      exact .inr ⟨hv, hkey⟩
    | some x =>
      rw [hv, eq_comm, Option.isSome_some, Option.isSome_iff_exists] at hkey
      obtain ⟨y, hy⟩ := hkey
      exact .inl ⟨x, y, hv, hy, values key x y hv hy⟩

theorem Same.flagIn {v w : PyValue F} (h : Same v w) : flagIn w = flagIn v := by
  rw [Wsprdaemon.flagIn, Wsprdaemon.flagIn]
  rcases h.member (.ofString "forward_to_pskreporter") with ⟨x, y, hx, hy, hsame⟩ | ⟨hx, hy⟩
  · rw [hx, hy]
    cases hsame <;> rfl
  · rw [hx, hy]

/-- A reader finds the flags that were written. -/
theorem Same.decodeFlag {v w : PyValue F} (h : Same v w) (key : PyText) :
    decodeFlag key w = decodeFlag key v := by
  rw [Wsprdaemon.decodeFlag, Wsprdaemon.decodeFlag]
  rcases h.member key with ⟨x, y, hx, hy, hsame⟩ | ⟨hx, hy⟩
  · rw [hx, hy]
    exact hsame.flagIn
  · rw [hx, hy]
    rcases h.member (.ofString "default") with ⟨x, y, hx, hy, hsame⟩ | ⟨hx, hy⟩
    · rw [hx, hy]
      exact hsame.flagIn
    · rw [hx, hy]

theorem Same.declares {v w : PyValue F} (h : Same v w) (name : String) :
    Declares name w ↔ Declares name v := by
  rw [Declares, Declares]
  rcases h.member (.ofString "default") with ⟨x, y, hx, hy, hsame⟩ | ⟨hx, hy⟩
  · rw [hx, hy]
    simp only [Option.some.injEq, exists_eq_left']
    rcases hsame.member (.ofString name) with ⟨a, b, ha, hb, -⟩ | ⟨ha, hb⟩
    · rw [ha, hb]
      exact iff_of_true rfl rfl
    · rw [ha, hb]
  · rw [hx, hy]

end

/-- `json.loads`, as far as it undoes `json.dumps`. -/
structure JsonReader (py : Interpreter) where
  /-- `json.loads(data)`. -/
  loads : Bytes → Option (PyValue py.Finite)
  loads_dumps : ∀ v text data, Plain v → py.dumps v = .ok text →
    PyText.encode (text ++ [.scalar '\n']) = .ok data → ∃ w, loads data = some w ∧ Same v w

section

variable {py : Interpreter}

/-! ## The object -/

theorem slash_mem_receiverKey (site recv : PyText) :
    PyChar.scalar '/' ∈ receiverKey site recv := by
  simp [receiverKey, PyText.ofString]

theorem receiverKey_ne_default (site recv : PyText) :
    receiverKey site recv ≠ .ofString "default" := by
  intro h
  have hslash := slash_mem_receiverKey site recv
  rw [h] at hslash
  revert hslash
  decide

/-- The object before what the station declares. -/
def flagsObject (py : Interpreter) (forward : List (PyText × Bool)) :
    List (PyText × PyValue py.Finite) :=
  Grouping.collect Prod.fst (fun item _ ↦ flagObject py item.2)
    [(.ofString "default", flagObject py (defaultFlag forward))] (overrides forward)

theorem mem_overrides {forward : List (PyText × Bool)} {item : PyText × Bool}
    (h : item ∈ overrides forward) : item ∈ forward ∧ item.2 ≠ defaultFlag forward := by
  rw [overrides] at h
  split_ifs at h with hdedup
  · cases h
  · obtain ⟨hmem, hne⟩ := List.mem_filter.mp h
    exact ⟨List.mem_mergeSort.mp hmem, of_decide_eq_true hne⟩

/-- A receiver without an entry of its own has the default flag. -/
theorem mem_overrides_iff {forward : List (PyText × Bool)} {item : PyText × Bool} :
    item ∈ overrides forward ↔ item ∈ forward ∧ item.2 ≠ defaultFlag forward := by
  refine ⟨mem_overrides, fun ⟨hmem, hne⟩ ↦ ?_⟩
  rw [overrides]
  have hflag : item.2 ∈ (forward.map Prod.snd).dedup :=
    List.mem_dedup.mpr (List.mem_map_of_mem hmem)
  split_ifs with hdedup
  · -- all flags agree, and the default one is theirs
    rw [defaultFlag] at hne
    match hlist : (forward.map Prod.snd).dedup, hdedup, hflag with
    | [], _, hflag => cases hflag
    | [flag], _, hflag =>
      rw [hlist] at hne
      exact absurd (List.mem_singleton.mp hflag) hne
  · exact List.mem_filter.mpr ⟨List.mem_mergeSort.mpr hmem, decide_eq_true hne⟩

/-- What stands under a receiver's key: its own entry, where its flag is not the default one. -/
theorem lookup_flagsObject {forward : List (PyText × Bool)}
    (hnodup : (forward.map Prod.fst).Nodup) {key : PyText} (hkey : key ≠ .ofString "default")
    {flag : Bool} (hflag : Table.lookup key forward = some flag) :
    Table.lookup key (flagsObject py forward) =
      if flag = defaultFlag forward then none else some (flagObject py flag) := by
  rw [flagsObject, Grouping.lookup_collect]
  have hstart : Table.lookup key
      [(PyText.ofString "default", flagObject py (defaultFlag forward))] = none := by
    rw [Table.lookup, if_neg hkey.symm, Table.lookup]
  have hvalue : ∀ item ∈ (overrides forward).filter (fun x ↦ x.1 = key), item = (key, flag) := by
    rintro ⟨key', flag'⟩ hitem
    obtain ⟨hmem, hfst⟩ := List.mem_filter.mp hitem
    obtain rfl : key' = key := of_decide_eq_true hfst
    have hlookup := Grouping.lookup_of_mem hnodup (mem_overrides hmem).1
    rw [hflag] at hlookup
    rw [Option.some.inj hlookup]
  rw [hstart]
  split_ifs with hdefault
  · have hnil : (overrides forward).filter (fun x ↦ x.1 = key) = [] := by
      refine List.eq_nil_iff_forall_not_mem.mpr fun item hitem ↦ ?_
      obtain rfl := hvalue item hitem
      exact (mem_overrides (List.mem_filter.mp hitem).1).2 hdefault
    rw [hnil]
    rfl
  · have hmem : (key, flag) ∈ (overrides forward).filter (fun x ↦ x.1 = key) :=
      List.mem_filter.mpr
        ⟨mem_overrides_iff.mpr ⟨Table.mem_of_lookup hflag, hdefault⟩, by simp⟩
    cases hlist : (overrides forward).filter fun x ↦ x.1 = key with
    | nil =>
      rw [hlist] at hmem
      cases hmem
    | cons item rest =>
      rw [Grouping.foldl_some_cons]
      have hall : ∀ x ∈ item :: rest, x.2 = flag := fun x hx ↦ by
        rw [hvalue x (hlist ▸ hx)]
      clear hmem hlist hvalue
      induction rest generalizing item with
      | nil => rw [List.foldl_nil, hall item List.mem_cons_self]
      | cons y rest ih => exact ih y fun x hx ↦ hall x (List.mem_cons_of_mem _ hx)

theorem lookup_default_flagsObject {forward : List (PyText × Bool)}
    (hkeys : ∀ item ∈ forward, item.1 ≠ .ofString "default") :
    Table.lookup (.ofString "default") (flagsObject py forward) =
      some (flagObject py (defaultFlag forward)) := by
  have hnil : (overrides forward).filter (fun x ↦ x.1 = .ofString "default") = [] := by
    refine List.eq_nil_iff_forall_not_mem.mpr fun item hitem ↦ ?_
    obtain ⟨hitem, hfst⟩ := List.mem_filter.mp hitem
    exact hkeys item (mem_overrides hitem).1 (of_decide_eq_true hfst)
  rw [flagsObject, Grouping.lookup_collect, hnil]
  rfl

/-! ## What the station declares -/

/-- The reporter has a call. -/
def Names (reporter : Option (String × String)) : Prop :=
  ∃ call grid, reporter = some (call, grid) ∧ call ≠ ""

/-- What a reporter adds to the default's members. -/
def addReporter (py : Interpreter) (name : String) (reporter : Option (String × String))
    (members : List (PyText × PyValue py.Finite)) : List (PyText × PyValue py.Finite) :=
  match reporter with
  | some (call, grid) =>
    if call ≠ "" then
      Table.upsert (.ofString name) (.dict [(.ofString "call", .str (.ofString call)),
        (.ofString "grid", .str (.ofString grid))]) members
    else members
  | none => members

/-- What the switch adds. -/
def addSwitch (py : Interpreter) (flag : Option Bool)
    (members : List (PyText × PyValue py.Finite)) : List (PyText × PyValue py.Finite) :=
  match flag with
  | some flag => Table.upsert (.ofString "forward_to_wsprnet") (.bool flag) members
  | none => members

/-- The members of the default. -/
def defaultMembers (py : Interpreter) (set : Settings) (flag : Bool) :
    List (PyText × PyValue py.Finite) :=
  addReporter py "psk_reporter" set.pskReporter
    (addReporter py "wsprnet_reporter" set.wsprnetReporter
      (addSwitch py set.forwardToWsprnet [(.ofString "forward_to_pskreporter", .bool flag)]))

theorem lookup_setDefault_of_ne {obj : List (PyText × PyValue py.Finite)} {key : PyText}
    (h : key ≠ .ofString "default") (name : String) (v : PyValue py.Finite) :
    Table.lookup key (setDefault py name v obj) = Table.lookup key obj := by
  rw [setDefault]
  split
  · rw [Table.lookup_upsert_of_ne _ _ h]
  · rfl

theorem lookup_setDefault {obj members : List (PyText × PyValue py.Finite)}
    (h : Table.lookup (.ofString "default") obj = some (.dict members)) (name : String)
    (v : PyValue py.Finite) :
    Table.lookup (.ofString "default") (setDefault py name v obj) =
      some (.dict (Table.upsert (.ofString name) v members)) := by
  rw [setDefault, h, Table.lookup_upsert_self]

theorem lookup_setReporter_of_ne {obj : List (PyText × PyValue py.Finite)} {key : PyText}
    (h : key ≠ .ofString "default") (name : String) (reporter : Option (String × String)) :
    Table.lookup key (setReporter py name reporter obj) = Table.lookup key obj := by
  match reporter with
  | none => rfl
  | some (call, grid) =>
    rw [setReporter]
    split_ifs
    · exact lookup_setDefault_of_ne h _ _
    · rfl

theorem lookup_setReporter {obj members : List (PyText × PyValue py.Finite)}
    (h : Table.lookup (.ofString "default") obj = some (.dict members)) (name : String)
    (reporter : Option (String × String)) :
    Table.lookup (.ofString "default") (setReporter py name reporter obj) =
      some (.dict (addReporter py name reporter members)) := by
  match reporter with
  | none => exact h
  | some (call, grid) =>
    rw [setReporter, addReporter]
    split_ifs
    · exact lookup_setDefault h _ _
    · exact h

/-- What stands under a receiver's key is not what the station declares. -/
theorem lookup_routingObject {forward : List (PyText × Bool)} {key : PyText}
    (h : key ≠ .ofString "default") (set : Settings) :
    Table.lookup key (routingObject py set forward) =
      Table.lookup key (flagsObject py forward) := by
  rw [routingObject, lookup_setReporter_of_ne h, lookup_setReporter_of_ne h]
  cases set.forwardToWsprnet with
  | none => rfl
  | some flag => exact lookup_setDefault_of_ne h _ _

theorem lookup_default_routingObject {forward : List (PyText × Bool)}
    (hkeys : ∀ item ∈ forward, item.1 ≠ .ofString "default") (set : Settings) :
    Table.lookup (.ofString "default") (routingObject py set forward) =
      some (.dict (defaultMembers py set (defaultFlag forward))) := by
  have hstart : Table.lookup (.ofString "default") (flagsObject py forward) =
      some (flagObject py (defaultFlag forward)) := lookup_default_flagsObject hkeys
  refine lookup_setReporter (lookup_setReporter ?_ _ _) _ _
  cases set.forwardToWsprnet with
  | none => exact hstart
  | some flag => exact lookup_setDefault hstart _ _

theorem lookup_addReporter_of_ne {members : List (PyText × PyValue py.Finite)} {key : PyText}
    {name : String} (h : key ≠ .ofString name) (reporter : Option (String × String)) :
    Table.lookup key (addReporter py name reporter members) = Table.lookup key members := by
  match reporter with
  | none => rfl
  | some (call, grid) =>
    rw [addReporter]
    split_ifs
    · exact Table.lookup_upsert_of_ne _ _ h
    · rfl

theorem lookup_addSwitch_of_ne {members : List (PyText × PyValue py.Finite)} {key : PyText}
    (h : key ≠ .ofString "forward_to_wsprnet") (flag : Option Bool) :
    Table.lookup key (addSwitch py flag members) = Table.lookup key members := by
  cases flag with
  | none => rfl
  | some flag => exact Table.lookup_upsert_of_ne _ _ h

/-- A reporter is declared exactly when it has a call. -/
theorem isSome_addReporter {members : List (PyText × PyValue py.Finite)} {name : String}
    (h : Table.lookup (.ofString name) members = none) (reporter : Option (String × String)) :
    (Table.lookup (.ofString name) (addReporter py name reporter members)).isSome ↔
      Names reporter := by
  match reporter with
  | none => simp [addReporter, Names, h]
  | some (call, grid) =>
    rw [addReporter, Names]
    by_cases hcall : call = ""
    · simp [hcall, h]
    · simp [hcall]

theorem flagIn_defaultMembers (set : Settings) (flag : Bool) :
    flagIn (.dict (defaultMembers py set flag)) = some flag := by
  rw [flagIn, member, defaultMembers, lookup_addReporter_of_ne (by decide),
    lookup_addReporter_of_ne (by decide), lookup_addSwitch_of_ne (by decide)]
  rfl

/-- **What the default declares.** -/
theorem declares_routingObject {forward : List (PyText × Bool)}
    (hkeys : ∀ item ∈ forward, item.1 ≠ .ofString "default") (set : Settings) :
    (Declares "forward_to_wsprnet" (.dict (routingObject py set forward)) ↔
        set.forwardToWsprnet.isSome) ∧
      (Declares "wsprnet_reporter" (.dict (routingObject py set forward)) ↔
        Names set.wsprnetReporter) ∧
      (Declares "psk_reporter" (.dict (routingObject py set forward)) ↔
        Names set.pskReporter) := by
  have hdefault : ∀ name, Declares name (.dict (routingObject py set forward)) ↔
      (Table.lookup (.ofString name)
        (defaultMembers py set (defaultFlag forward))).isSome := by
    intro name
    rw [Declares, member, lookup_default_routingObject hkeys]
    simp only [Option.some.injEq, exists_eq_left', member]
  have hwsprnet : Table.lookup (.ofString "wsprnet_reporter") (addSwitch py set.forwardToWsprnet
      [(.ofString "forward_to_pskreporter", .bool (defaultFlag forward))]) = none := by
    rw [lookup_addSwitch_of_ne (by decide)]
    rfl
  have hpsk : Table.lookup (.ofString "psk_reporter") (addReporter py "wsprnet_reporter"
      set.wsprnetReporter (addSwitch py set.forwardToWsprnet
        [(.ofString "forward_to_pskreporter", .bool (defaultFlag forward))])) = none := by
    rw [lookup_addReporter_of_ne (by decide), lookup_addSwitch_of_ne (by decide)]
    rfl
  refine ⟨?_, ?_, ?_⟩
  · rw [hdefault, defaultMembers, lookup_addReporter_of_ne (by decide),
      lookup_addReporter_of_ne (by decide)]
    cases set.forwardToWsprnet with
    | none =>
      have hnone : Table.lookup (.ofString "forward_to_wsprnet") (addSwitch py none
          [(.ofString "forward_to_pskreporter", .bool (defaultFlag forward))]) = none := rfl
      rw [hnone]
      exact iff_of_false Bool.false_ne_true Bool.false_ne_true
    | some flag =>
      rw [addSwitch, Table.lookup_upsert_self]
      exact iff_of_true rfl rfl
  · rw [hdefault, defaultMembers, lookup_addReporter_of_ne (by decide)]
    exact isSome_addReporter hwsprnet _
  · rw [hdefault, defaultMembers]
    exact isSome_addReporter hpsk _

/-- **The flag a reader finds** for a receiver is the receiver's, whatever the station declares. -/
theorem decodeFlag_routingObject {forward : List (PyText × Bool)}
    (hnodup : (forward.map Prod.fst).Nodup)
    (hkeys : ∀ item ∈ forward, item.1 ≠ .ofString "default") (set : Settings) (key : PyText) :
    decodeFlag key (.dict (routingObject py set forward)) =
      some ((Table.lookup key forward).getD (defaultFlag forward)) := by
  have hdefault : member (.ofString "default") (.dict (routingObject py set forward)) =
      some (.dict (defaultMembers py set (defaultFlag forward))) :=
    lookup_default_routingObject hkeys set
  rcases eq_or_ne key (.ofString "default") with rfl | hne
  · have hnone : Table.lookup (.ofString "default") forward = none :=
      Table.lookup_eq_none_of_not_mem fun hmem ↦ by
        obtain ⟨item, hitem, heq⟩ := List.mem_map.mp hmem
        exact hkeys item hitem heq
    rw [decodeFlag, hdefault, hnone]
    exact flagIn_defaultMembers set _
  · rw [decodeFlag, hdefault, member, lookup_routingObject hne]
    cases hflag : Table.lookup key forward with
    | some flag =>
      rw [lookup_flagsObject hnodup hne hflag]
      split_ifs with heq
      · rw [Option.getD_some, heq]
        exact flagIn_defaultMembers set _
      · rfl
    | none =>
      have hnone : Table.lookup key (flagsObject py forward) = none := by
        refine Table.lookup_eq_none_of_not_mem fun hmem ↦ ?_
        rw [flagsObject, Grouping.mem_keys_collect] at hmem
        rcases hmem with hmem | ⟨item, hitem, rfl⟩
        · exact hne (List.mem_singleton.mp hmem)
        · have hsome := Table.isSome_lookup.mpr
            (List.mem_map_of_mem (f := Prod.fst) (mem_overrides hitem).1)
          rw [hflag] at hsome
          cases hsome
      rw [hnone]
      exact flagIn_defaultMembers set _

/-! ## What can be written -/

/-- The members of a plain dict. -/
structure PlainMembers {F : Type} (members : List (PyText × PyValue F)) : Prop where
  nodup : (members.map Prod.fst).Nodup
  keys : ∀ m ∈ members, Settled m.1
  values : ∀ m ∈ members, Plain m.2

theorem PlainMembers.dict {F : Type} {members : List (PyText × PyValue F)}
    (h : PlainMembers members) : Plain (.dict members) := .dict h.nodup h.keys h.values

theorem Plain.members {F : Type} {members : List (PyText × PyValue F)}
    (h : Plain (.dict members)) : PlainMembers members := by
  cases h with
  | dict nodup keys values => exact ⟨nodup, keys, values⟩

theorem mem_upsert {κ ν : Type*} [DecidableEq κ] {k : κ} {v : ν} {l : List (κ × ν)} {m : κ × ν}
    (h : m ∈ Table.upsert k v l) : m = (k, v) ∨ m ∈ l := by
  induction l with
  | nil => exact .inl (List.mem_singleton.mp h)
  | cons p l ih =>
    obtain ⟨k', v'⟩ := p
    rw [Table.upsert] at h
    split_ifs at h
    · exact (List.mem_cons.mp h).imp_right (List.mem_cons_of_mem _)
    · rcases List.mem_cons.mp h with h | h
      · exact .inr (h ▸ List.mem_cons_self)
      · exact (ih h).imp_right (List.mem_cons_of_mem _)

theorem PlainMembers.upsert {F : Type} {members : List (PyText × PyValue F)}
    (h : PlainMembers members) {key : PyText} {v : PyValue F} (hkey : Settled key) (hv : Plain v) :
    PlainMembers (Table.upsert key v members) where
  nodup := Table.nodup_map_fst_upsert h.nodup
  keys m hm := by
    rcases mem_upsert hm with rfl | hm
    · exact hkey
    · exact h.keys m hm
  values m hm := by
    rcases mem_upsert hm with rfl | hm
    · exact hv
    · exact h.values m hm

theorem settled_ofString (s : String) : Settled (.ofString s) := by
  intro c hc
  obtain ⟨ch, -, rfl⟩ := List.mem_map.mp hc
  rfl

theorem plainMembers_singleton {F : Type} {key : String} {v : PyValue F} (h : Plain v) :
    PlainMembers [(PyText.ofString key, v)] :=
  ⟨List.nodup_singleton _, List.forall_mem_singleton.mpr (settled_ofString key),
    List.forall_mem_singleton.mpr h⟩

theorem plain_flagObject (flag : Bool) : Plain (flagObject py flag) :=
  (plainMembers_singleton (.bool flag)).dict

theorem plainMembers_setDefault {obj : List (PyText × PyValue py.Finite)} (h : PlainMembers obj)
    (name : String) {v : PyValue py.Finite} (hv : Plain v) :
    PlainMembers (setDefault py name v obj) := by
  rw [setDefault]
  split
  · rename_i members hlookup
    have hdefault : Plain (.dict members) := h.values _ (Table.mem_of_lookup hlookup)
    exact h.upsert (settled_ofString _) (hdefault.members.upsert (settled_ofString name) hv).dict
  · exact h

theorem plainMembers_setReporter {obj : List (PyText × PyValue py.Finite)} (h : PlainMembers obj)
    (name : String) (reporter : Option (String × String)) :
    PlainMembers (setReporter py name reporter obj) := by
  match reporter with
  | none => exact h
  | some (call, grid) =>
    rw [setReporter]
    split_ifs
    · have hnodup : [PyText.ofString "call", PyText.ofString "grid"].Nodup := by decide
      refine plainMembers_setDefault h name (PlainMembers.dict ⟨hnodup, ?_, ?_⟩)
      · simp only [List.forall_mem_cons, List.not_mem_nil, false_imp_iff, implies_true, and_true]
        exact ⟨settled_ofString _, settled_ofString _⟩
      · simp only [List.forall_mem_cons, List.not_mem_nil, false_imp_iff, implies_true, and_true]
        exact ⟨.str (settled_ofString _), .str (settled_ofString _)⟩
    · exact h

theorem plainMembers_flagsObject {forward : List (PyText × Bool)}
    (h : ∀ item ∈ forward, Settled item.1) : PlainMembers (flagsObject py forward) := by
  have hitems : ∀ item ∈ overrides forward, Settled item.1 := fun item hitem ↦
    h item (mem_overrides hitem).1
  rw [flagsObject]
  generalize overrides forward = items at hitems
  induction items using List.reverseRecOn with
  | nil => exact plainMembers_singleton (plain_flagObject _)
  | append_singleton items item ih =>
    rw [List.forall_mem_append, List.forall_mem_singleton] at hitems
    rw [Grouping.collect_concat]
    exact (ih hitems.1).upsert hitems.2 (plain_flagObject _)

theorem plain_routingObject {forward : List (PyText × Bool)}
    (h : ∀ item ∈ forward, Settled item.1) (set : Settings) :
    Plain (.dict (routingObject py set forward)) := by
  refine (plainMembers_setReporter (plainMembers_setReporter ?_ _ _) _ _).dict
  cases set.forwardToWsprnet with
  | none => exact plainMembers_flagsObject h
  | some flag => exact plainMembers_setDefault (plainMembers_flagsObject h) _ (.bool flag)

/-! ## The flags that are collected -/

variable {up : Uploader} {records : List (Rec py.Finite)} {items : List (Item py)} {g : Groups py}

/-- The row is shipped for the receiver. -/
def IsRowOf (py : Interpreter) (up : Uploader) (key : PyText) (r : Rec py.Finite) : Prop :=
  ∃ k band, fileRecord py up r = .ok (.psk k band) ∧ receiverKey k.site k.recv = key

theorem lookup_forward (hg : items.foldl Groups.addItem {} = g) (key : PyText) :
    Table.lookup key g.forward =
      match (items.filterMap pskItem).filter fun x ↦ x.receiver = key with
      | [] => none
      | xs => some (xs.all fun x ↦ forwardFlag py x.cols) := by
  rw [← hg, forward_foldl, Grouping.lookup_collect]
  cases (items.filterMap pskItem).filter fun x ↦ x.receiver = key with
  | nil => rfl
  | cons x rest =>
    rw [Grouping.foldl_some_cons]
    have hall : ∀ (flag : Bool) (xs : List (PskItem py)),
        xs.foldl (fun v x ↦ (some v).getD true && forwardFlag py x.cols) flag =
          (flag && xs.all fun x ↦ forwardFlag py x.cols) := by
      intro flag xs
      induction xs generalizing flag with
      | nil => simp
      | cons y ys ih => rw [List.foldl_cons, ih, List.all_cons, Option.getD_some, Bool.and_assoc]
    exact congrArg some (hall _ rest)

/-- **A receiver's flag is the conjunction of those of its rows.** -/
theorem lookup_forward_eq (hitems : records.mapM (fileItem py up) = .ok items)
    (hg : items.foldl Groups.addItem {} = g) {key : PyText} {r : Rec py.Finite} (hr : r ∈ records)
    (hrow : IsRowOf py up key r) :
    ∃ flag, Table.lookup key g.forward = some flag ∧
      (flag = true ↔ ∀ r ∈ records, IsRowOf py up key r → forwardFlag py r.columns = true) := by
  have hmem : ∀ cols, (∃ x ∈ (items.filterMap pskItem).filter (fun x ↦ x.receiver = key),
      x.cols = cols) ↔ ∃ r ∈ records, IsRowOf py up key r ∧ r.columns = cols := by
    intro cols
    constructor
    · rintro ⟨x, hx, rfl⟩
      obtain ⟨hx, hkey⟩ := List.mem_filter.mp hx
      obtain ⟨⟨filed, cols⟩, hitem, hpsk⟩ := List.mem_filterMap.mp hx
      obtain ⟨r', hr', hfile, rfl⟩ := (mem_items hitems).mp hitem
      cases filed with
      | psk k band =>
        cases hpsk
        exact ⟨r', hr', ⟨k, band, hfile, of_decide_eq_true hkey⟩, rfl⟩
      | _ => cases hpsk
    · rintro ⟨r', hr', ⟨k, band, hfile, hkey⟩, rfl⟩
      refine ⟨⟨k, band, r'.columns⟩, List.mem_filter.mpr ⟨List.mem_filterMap.mpr
        ⟨_, (mem_items hitems).mpr ⟨r', hr', hfile, rfl⟩, rfl⟩, ?_⟩, rfl⟩
      exact decide_eq_true hkey
  have hlookup := lookup_forward hg key
  cases hlist : (items.filterMap pskItem).filter fun x ↦ x.receiver = key with
  | nil =>
    obtain ⟨x, hx, -⟩ := (hmem r.columns).mpr ⟨r, hr, hrow, rfl⟩
    rw [hlist] at hx
    cases hx
  | cons x rest =>
    rw [hlist] at hlookup hmem
    refine ⟨_, hlookup, ?_⟩
    rw [List.all_eq_true]
    constructor
    · intro hall r' hr' hrow'
      obtain ⟨y, hy, hcols⟩ := (hmem r'.columns).mpr ⟨r', hr', hrow', rfl⟩
      exact hcols ▸ hall y hy
    · intro hall y hy
      obtain ⟨r', hr', hrow', hcols⟩ := (hmem y.cols).mp ⟨y, hy, rfl⟩
      exact hcols ▸ hall r' hr' hrow'

/-! ## What is in the tar -/

theorem mem_slashJoin {parts : List PyText} {part : PyText} (h : part ∈ parts) {c : PyChar}
    (hc : c ∈ part) : c ∈ slashJoin parts := by
  induction parts with
  | nil => cases h
  | cons first parts ih =>
    cases parts with
    | nil =>
      rw [List.mem_singleton.mp h] at hc
      simpa [slashJoin] using hc
    | cons next rest =>
      rw [slashJoin, List.intercalate_cons_cons, List.mem_append]
      rcases List.mem_cons.mp h with rfl | h
      · exact .inl (List.mem_append_left _ hc)
      · exact .inr (ih h)

/-- The keys of the flags can be written, where the names of the members can. -/
theorem keys_forward (hg : items.foldl Groups.addItem {} = g) {psk : List Entry}
    (hpsk : g.psk.mapM (pskEntry py) = .ok psk) (hnames : ∀ e ∈ psk, Settled e.1) :
    (g.forward.map Prod.fst).Nodup ∧
      ∀ item ∈ g.forward, Settled item.1 ∧ item.1 ≠ .ofString "default" := by
  constructor
  · have hnil : (([] : List (PyText × Bool)).map Prod.fst).Nodup := List.nodup_nil
    rw [← hg, forward_foldl]
    exact Grouping.nodup_collect hnil _
  · intro item hitem
    have hkey : item.1 ∈ g.forward.map Prod.fst := List.mem_map_of_mem hitem
    rw [← hg, forward_foldl, Grouping.mem_keys_collect] at hkey
    obtain ⟨x, hx, hreceiver⟩ := hkey.resolve_left List.not_mem_nil
    have hgroup : x.key ∈ g.psk.map Prod.fst := by
      rw [← hg, psk_foldl, Grouping.mem_keys_collect]
      exact .inr ⟨x, hx, rfl⟩
    obtain ⟨⟨_, group⟩, hmem, rfl⟩ := List.mem_map.mp hgroup
    obtain ⟨e, he, hentry⟩ := (Except.exists_of_mapM hpsk).1 _ hmem
    have hname := hnames e he
    rw [pskEntry_name hentry, pskName] at hname
    rw [← hreceiver]
    refine ⟨fun c hc ↦ ?_, receiverKey_ne_default _ _⟩
    rw [PskItem.receiver, receiverKey, List.mem_append, List.mem_append] at hc
    rcases hc with (hc | hc) | hc
    · exact hname c (@mem_slashJoin _ x.key.site (by simp) c hc)
    · exact settled_ofString "/" c hc
    · exact hname c (@mem_slashJoin _ x.key.recv (by simp) c hc)

end

/-- A tar was built of the records, and written. -/
def Shipped (py : Interpreter) (arch : Archiver) (up : Uploader) (set : Settings)
    (records : List (Rec py.Finite)) (entries : List Entry) : Prop :=
  buildEntries py up set records = .ok entries ∧
    ∃ clock raw, arch.write (stamped arch clock entries) = .ok raw

/-- What a reader loads from a tar's `routing.json`. -/
def Routes {py : Interpreter} (json : JsonReader py) (entries : List Entry)
    (routing : PyValue py.Finite) : Prop :=
  ∃ data, (PyText.ofString "routing.json", data) ∈ entries ∧ json.loads data = some routing

section

variable {py : Interpreter} {arch : Archiver} {json : JsonReader py} {up : Uploader}
  {set : Settings} {records : List (Rec py.Finite)} {entries : List Entry}

/-- A name with a slash is not one at the root. -/
theorem slashJoin_ne_ofString (first second : PyText) (rest : List PyText) {s : String}
    (h : '/' ∉ s.toList) : slashJoin (first :: second :: rest) ≠ .ofString s := by
  intro heq
  have hslash : PyChar.scalar '/' ∈ slashJoin (first :: second :: rest) := by
    rw [slashJoin, List.intercalate_cons_cons]
    simp
  rw [heq] at hslash
  obtain ⟨c, hc, heq⟩ := List.mem_map.mp hslash
  exact h (PyChar.scalar.inj heq ▸ hc)

theorem routing_notMem_metadataNames (set : Settings) :
    PyText.ofString "routing.json" ∉ metadataNames set := by
  rw [metadataNames]
  split <;> decide

/-- What `routing.json` holds. -/
theorem exists_routing (json : JsonReader py) (h : Shipped py arch up set records entries) :
    ∃ items g, records.mapM (fileItem py up) = .ok items ∧ items.foldl Groups.addItem {} = g ∧
      (g.forward.map Prod.fst).Nodup ∧
      (∀ item ∈ g.forward, Settled item.1 ∧ item.1 ≠ .ofString "default") ∧
      (hasRouting py set g = true → ∃ w, Same (.dict (routingObject py set g.forward)) w ∧
        ∀ w', Routes json entries w' ↔ w' = w) ∧
      (hasRouting py set g = false → ∀ w, ¬ Routes json entries w) := by
  obtain ⟨hbuild, clock, raw, hwrite⟩ := h
  have hsettled : ∀ e ∈ entries, Settled e.1 := by
    intro e he
    obtain ⟨i, hi⟩ := List.mem_iff_getElem?.mp he
    have hat : (⟨e.1, arch.made (clock i), e.2⟩ : Member arch.Stat) ∈ stamped arch clock entries :=
      List.mem_of_getElem? (i := i) (by rw [getElem?_stamped, hi]; rfl)
    exact arch.encodable _ _ hwrite _ hat
  simp only [buildEntries, Except.bind_eq_ok, Except.pure_eq_ok] at hbuild
  obtain ⟨g, hg, start, hstart, routing, hrouting, spots, hspots, noise, hnoise, psk, hpsk, rfl⟩ :=
    hbuild
  obtain ⟨items, hitems, hfold⟩ := groupRecords_eq_ok.mp hg
  obtain ⟨hnodup, hkeys⟩ := keys_forward hfold hpsk fun e he ↦
    hsettled e (List.mem_append_right _ he)
  -- no other member has the name
  have hother : ∀ data, (PyText.ofString "routing.json", data) ∈
      start ++ routing ++ spots ++ noise ++ psk ↔
        (PyText.ofString "routing.json", data) ∈ routing := by
    intro data
    simp only [List.mem_append]
    constructor
    · rintro ((((hmem | hmem) | hmem) | hmem) | hmem)
      · exact absurd (metadata_names hstart ▸ List.mem_map_of_mem hmem)
          (routing_notMem_metadataNames set)
      · exact hmem
      · obtain ⟨group, -, hentry⟩ := (Except.exists_of_mapM hspots).2 _ hmem
        obtain ⟨mode, -, hname⟩ := spotEntry_name hentry
        exact absurd hname.symm (slashJoin_ne_ofString _ _ _ (by decide))
      · obtain ⟨group, -, hentry⟩ := (Except.exists_of_mapM hnoise).2 _ hmem
        exact absurd (noiseEntry_name hentry).symm (slashJoin_ne_ofString _ _ _ (by decide))
      · obtain ⟨group, -, hentry⟩ := (Except.exists_of_mapM hpsk).2 _ hmem
        exact absurd (pskEntry_name hentry).symm (slashJoin_ne_ofString _ _ _ (by decide))
    · exact fun hmem ↦ .inl (.inl (.inl (.inr hmem)))
  refine ⟨items, g, hitems, hfold, hnodup, hkeys, fun hhas ↦ ?_, fun hhas w ↦ ?_⟩
  · rw [routingEntry, if_pos hhas] at hrouting
    simp only [Except.bind_eq_ok, Except.pure_eq_ok] at hrouting
    obtain ⟨text, htext, data, hdata, rfl⟩ := hrouting
    have hplain : Plain (.dict (routingObject py set g.forward)) :=
      plain_routingObject (fun item hitem ↦ (hkeys item hitem).1) set
    obtain ⟨w, hw, hsame⟩ := json.loads_dumps _ _ _ hplain htext hdata
    refine ⟨w, hsame, fun w' ↦ ⟨?_, ?_⟩⟩
    · rintro ⟨data', hmem, hload⟩
      obtain ⟨-, rfl⟩ := Prod.mk.inj (List.mem_singleton.mp ((hother data').mp hmem))
      exact Option.some.inj (hload.symm.trans hw)
    · rintro rfl
      exact ⟨data, (hother data).mpr (List.mem_singleton.mpr rfl), hw⟩
  · rintro ⟨data, hmem, -⟩
    rw [routingEntry, if_neg (by simp [hhas])] at hrouting
    obtain rfl := Except.pure_eq_ok.mp hrouting
    cases (hother data).mp hmem

/-- A tar has the file that the station's declarations need. -/
theorem hasRouting_of_declared {g : Groups py} (h : set.forwardToWsprnet.isSome ∨
    Names set.wsprnetReporter ∨ Names set.pskReporter) : hasRouting py set g = true := by
  have hsome : ∀ {reporter}, Names reporter → reporter.isSome := by
    rintro _ ⟨call, grid, rfl, -⟩
    rfl
  rw [hasRouting]
  rcases h with h | h | h
  · simp [h]
  · simp [hsome h]
  · simp [hsome h]

/-- A tar with a psk row has the file. -/
theorem hasRouting_of_row {items : List (Item py)} {g : Groups py}
    (hitems : records.mapM (fileItem py up) = .ok items) (hg : items.foldl Groups.addItem {} = g)
    {key : PyText} {r : Rec py.Finite} (hr : r ∈ records) (hrow : IsRowOf py up key r) :
    hasRouting py set g = true := by
  obtain ⟨k, band, hfile, -⟩ := hrow
  have hkey : k ∈ g.psk.map Prod.fst := by
    rw [← hg, psk_foldl, Grouping.mem_keys_collect]
    exact .inr ⟨⟨k, band, r.columns⟩, List.mem_filterMap.mpr
      ⟨_, (mem_items hitems).mpr ⟨r, hr, hfile, rfl⟩, rfl⟩, rfl⟩
  have hne : g.psk ≠ [] := by
    rintro heq
    rw [heq] at hkey
    cases hkey
  cases hpsk : g.psk with
  | nil => exact absurd hpsk hne
  | cons _ _ => simp [hasRouting, hpsk]

end

/-- **Routing intent survives encoding.**  A reader of a tar's `routing.json` finds for each
receiver whose rows are in the tar the conjunction of their flags; the default declares exactly what
the station declares, a reporter only with a call; and what the station declares changes no
flag. -/
theorem routing_keeps_intent (py : Interpreter) (arch : Archiver) (json : JsonReader py)
    (up : Uploader) (set : Settings) (records : List (Rec py.Finite)) (entries : List Entry)
    (h : Shipped py arch up set records entries) :
    (∀ r ∈ records, ∀ key, IsRowOf py up key r → ∃ w flag,
      (∀ w', Routes json entries w' ↔ w' = w) ∧ decodeFlag key w = some flag ∧
      (flag = true ↔ ∀ r ∈ records, IsRowOf py up key r → forwardFlag py r.columns = true)) ∧
    ((∃ w, Routes json entries w ∧ Declares "forward_to_wsprnet" w) ↔
      set.forwardToWsprnet.isSome) ∧
    ((∃ w, Routes json entries w ∧ Declares "wsprnet_reporter" w) ↔ Names set.wsprnetReporter) ∧
    ((∃ w, Routes json entries w ∧ Declares "psk_reporter" w) ↔ Names set.pskReporter) ∧
    ∀ set' entries' w w' key, Shipped py arch up set' records entries' →
      Routes json entries w → Routes json entries' w' → decodeFlag key w' = decodeFlag key w := by
  obtain ⟨items, g, hitems, hg, hnodup, hkeys, hthere, hnot⟩ := exists_routing json h
  have hdefault : ∀ item ∈ g.forward, item.1 ≠ .ofString "default" := fun item hitem ↦
    (hkeys item hitem).2
  have hdeclares : ∀ (name : String) (P : Prop), (P → hasRouting py set g = true) →
      (Declares name (.dict (routingObject py set g.forward)) ↔ P) →
      ((∃ w, Routes json entries w ∧ Declares name w) ↔ P) := by
    intro name P hneeds hname
    cases hhas : hasRouting py set g with
    | true =>
      obtain ⟨w, hsame, hroutes⟩ := hthere hhas
      rw [← hname, ← hsame.declares]
      constructor
      · rintro ⟨w', hw', hdeclared⟩
        exact (hroutes w').mp hw' ▸ hdeclared
      · exact fun hdeclared ↦ ⟨w, (hroutes w).mpr rfl, hdeclared⟩
    | false =>
      refine iff_of_false (fun ⟨w, hw, _⟩ ↦ hnot hhas w hw) fun hP ↦ ?_
      rw [hneeds hP] at hhas
      cases hhas
  obtain ⟨hswitch, hwsprnet, hpsk⟩ := @declares_routingObject py _ hdefault set
  refine ⟨?_, hdeclares _ _ (fun hs ↦ hasRouting_of_declared (.inl hs)) hswitch,
    hdeclares _ _ (fun hs ↦ hasRouting_of_declared (.inr (.inl hs))) hwsprnet,
    hdeclares _ _ (fun hs ↦ hasRouting_of_declared (.inr (.inr hs))) hpsk, ?_⟩
  · intro r hr key hrow
    obtain ⟨w, hsame, hroutes⟩ := hthere (hasRouting_of_row hitems hg hr hrow)
    obtain ⟨flag, hflag, hall⟩ := lookup_forward_eq hitems hg hr hrow
    refine ⟨w, flag, hroutes, ?_, hall⟩
    rw [hsame.decodeFlag, decodeFlag_routingObject hnodup hdefault set, hflag]
    rfl
  · intro set' entries' w w' key h' hw hw'
    obtain ⟨items', g', hitems', hg', -, -, hthere', hnot'⟩ := exists_routing json h'
    obtain rfl := Except.ok.inj (hitems'.symm.trans hitems)
    obtain rfl := hg'.symm.trans hg
    have hhas : hasRouting py set g' = true := by
      by_contra hhas
      exact hnot (Bool.eq_false_iff.mpr hhas) w hw
    have hhas' : hasRouting py set' g' = true := by
      by_contra hhas'
      exact hnot' (Bool.eq_false_iff.mpr hhas') w' hw'
    obtain ⟨v, hsame, hroutes⟩ := hthere hhas
    obtain ⟨v', hsame', hroutes'⟩ := hthere' hhas'
    obtain rfl := (hroutes w).mp hw
    obtain rfl := (hroutes' w').mp hw'
    rw [hsame.decodeFlag, hsame'.decodeFlag, decodeFlag_routingObject hnodup hdefault,
      decodeFlag_routingObject hnodup hdefault]

/-! ## Two receivers -/

theorem Plain.same {F : Type} {v : PyValue F} (h : Plain v) : Same v v := by
  induction h with
  | bool b => exact .bool b
  | @str s hs => exact .str s
  | @dict members nodup keys values ih =>
    refine .dict (fun _ ↦ rfl) fun k v v' hv hv' ↦ ?_
    obtain rfl := Option.some.inj (hv.symm.trans hv')
    exact ih _ (Table.mem_of_lookup hv)

/-- The key of a receiver of the site. -/
def siteKey (radiod : String) : PyText := .ofString ("AC0G_EM38ww/" ++ radiod)

/-- The object of receivers that agree, at a station that declares nothing. -/
def agreed (flag : Bool) : PyValue ℤ :=
  .dict [(.ofString "default", .dict [(.ofString "forward_to_pskreporter", .bool flag)])]

/-- The object of two receivers of which one is not forwarded, at a station that says whether its
spots go to wsprnet. -/
def mixed (sends : Bool) : PyValue ℤ :=
  .dict [(.ofString "default", .dict [(.ofString "forward_to_pskreporter", .bool true),
      (.ofString "forward_to_wsprnet", .bool sends)]),
    (siteKey "kiwi", .dict [(.ofString "forward_to_pskreporter", .bool false)])]

/-- `true` and `false`. -/
def flagText (flag : Bool) : String := if flag then "true" else "false"

/-- The text of the object of receivers that agree. -/
def agreedText (flag : Bool) : PyText :=
  .ofString ("\x7b\"default\": \x7b\"forward_to_pskreporter\": " ++ flagText flag ++ "\x7d\x7d")

/-- The text of the object of the two receivers, its keys in order. -/
def mixedText (sends : Bool) : PyText :=
  .ofString ("\x7b\"AC0G_EM38ww/kiwi\": \x7b\"forward_to_pskreporter\": false\x7d, \"default\": " ++
    "\x7b\"forward_to_pskreporter\": true, \"forward_to_wsprnet\": " ++ flagText sends ++
    "\x7d\x7d")

/-- The objects and their texts. -/
def plainObjects : List (PyValue ℤ × PyText) :=
  [(agreed true, agreedText true), (agreed false, agreedText false),
    (mixed true, mixedText true), (mixed false, mixedText false)]

theorem plainObjects_nodup : (plainObjects.map Prod.snd).Nodup := by
  simp only [plainObjects, agreedText, mixedText, PyText.ofString_append, -String.reduceAppend]
  decide +kernel

/-- The text of a flag, of a number and of a text that needs no escape. -/
def scalarText : PyValue ℤ → Except Exn PyText
  | .bool flag => .ok (.ofString (flagText flag))
  | .int n => .ok (.ofString (.ofList (pyStr n)))
  | .str s => .ok (.ofString "\"" ++ s ++ .ofString "\"")
  | _ => .error (.typeError "not JSON serializable")

/-- The texts of rows whose columns stand in order, a flag and a number before the others, and of
the objects. -/
def plainDumps : PyValue ℤ → Except Exn PyText
  | .dict ((key, .bool flag) :: (key', .int n) :: members) => do
    let texts ← ((key, .bool flag) :: (key', .int n) :: members).mapM fun m ↦ do
      let text ← scalarText m.2
      pure (.ofString "\"" ++ m.1 ++ .ofString "\": " ++ text)
    pure (.ofString "\x7b" ++ List.intercalate (PyText.ofString ", ") texts ++ .ofString "\x7d")
  | .dict [(key, .dict [(name, .bool flag)])] =>
    if key = .ofString "default" ∧ name = .ofString "forward_to_pskreporter" then
      .ok (agreedText flag)
    else .error (.typeError "not JSON serializable")
  | .dict [(key, .dict [(name, .bool true), (wsprnet, .bool sends)]),
      (receiver, .dict [(name', .bool false)])] =>
    if key = .ofString "default" ∧ name = .ofString "forward_to_pskreporter" ∧
        wsprnet = .ofString "forward_to_wsprnet" ∧ receiver = siteKey "kiwi" ∧
        name' = .ofString "forward_to_pskreporter" then
      .ok (mixedText sends)
    else .error (.typeError "not JSON serializable")
  | _ => .error (.typeError "not JSON serializable")

/-- The whole numbers, with the texts of these objects. -/
def plainJson : Interpreter := { plainNumbers with dumps := plainDumps }

theorem mem_plainObjects {v : PyValue ℤ} {text : PyText} (hv : Plain v)
    (h : plainDumps v = .ok text) : (v, text) ∈ plainObjects := by
  rw [plainDumps.eq_def] at h
  split at h
  · -- a row has a number
    cases hv with
    | dict _ _ values => cases values _ (List.mem_cons_of_mem _ List.mem_cons_self)
  · split_ifs at h with hkeys
    obtain ⟨rfl, rfl⟩ := hkeys
    obtain rfl := Except.ok.inj h
    rename_i flag
    cases flag <;> simp [plainObjects, agreed]
  · split_ifs at h with hkeys
    obtain ⟨rfl, rfl, rfl, rfl, rfl⟩ := hkeys
    obtain rfl := Except.ok.inj h
    rename_i sends
    cases sends <;> simp [plainObjects, mixed]
  · cases h

/-- A reader of these objects. -/
def plainReader : JsonReader plainJson where
  loads data := (plainObjects.find? fun o ↦
    PyText.encode (o.2 ++ [.scalar '\n']) = .ok data).map Prod.fst
  loads_dumps v text data hv htext hdata := by
    have hmem := mem_plainObjects hv htext
    obtain ⟨o, ho⟩ : ∃ o, plainObjects.find? (fun o ↦
        PyText.encode (o.2 ++ [.scalar '\n']) = .ok data) = some o :=
      Option.isSome_iff_exists.mp (List.find?_isSome.mpr ⟨_, hmem, by simpa using hdata⟩)
    have hsame : PyText.encode (o.2 ++ [.scalar '\n']) = .ok data := by
      simpa using List.find?_some ho
    -- the text is read off the bytes, and no two objects have one text
    have htexts : o.2 = text := List.append_cancel_right (Except.ok.inj
      ((PyText.decode_encode hsame).symm.trans (PyText.decode_encode hdata)))
    obtain rfl : o = (v, text) :=
      List.inj_on_of_nodup_map plainObjects_nodup (List.mem_of_find?_eq_some ho) hmem htexts
    exact ⟨v, by rw [ho]; rfl, hv.same⟩

/-- A psk row of a receiver of the site, its columns in order. -/
def siteRow (radiod : String) (flag : Bool) : Rec plainJson.Finite where
  table := "psk.spots"
  columns := [("forward_to_pskreporter", .bool flag), ("frequency", .int 14074000),
    ("host_call", .str (.ofString "AC0G")), ("host_grid", .str (.ofString "EM38ww")),
    ("mode", .str (.ofString "ft8")), ("radiod_id", .str (.ofString radiod)),
    ("time", .str (.ofString "2026-05-23T01:02:00Z"))]

/-- The rows of two receivers, of which only the second is to be forwarded. -/
def siteRows : List (Rec plainJson.Finite) := [siteRow "kiwi" false, siteRow "rx2" true]

/-- Members come out whose names have no first half of a surrogate pair. -/
def isWritable (entries : Except Exn (List Entry)) : Bool :=
  match entries with
  | .ok entries => entries.all fun e ↦ e.1.all fun c ↦ isHighSurrogate c = false
  | .error _ => false

theorem isWritable_iff {built : Except Exn (List Entry)} :
    isWritable built = true ↔
      ∃ entries, built = .ok entries ∧ ∀ e ∈ entries, ∀ c ∈ e.1, isHighSurrogate c = false := by
  cases built with
  | error e => simp [isWritable]
  | ok entries => simp [isWritable]

/-- A tar whose names can be written is written. -/
theorem exists_shipped {set : Settings} {records : List (Rec plainJson.Finite)}
    (h : isWritable (buildEntries plainJson gridless set records) = true) :
    ∃ entries, Shipped plainJson plainArchiver gridless set records entries := by
  obtain ⟨entries, hbuild, hnames⟩ := isWritable_iff.mp h
  refine ⟨entries, hbuild, fun _ ↦ 0, _, if_pos fun m hm c hc ↦ ?_⟩
  obtain ⟨e, he, rfl⟩ := List.mem_map.mp hm
  exact hnames e.1 (List.mem_of_getElem? (List.mk_mem_zipIdx_iff_getElem?.mp he)) c hc

/-- The flags of the two receivers, of which the first is the minority. -/
def siteFlags : List (PyText × Bool) := [(siteKey "kiwi", false), (siteKey "rx2", true)]

theorem dumps_siteFlags (sends : Bool) :
    plainJson.dumps (.dict (routingObject plainJson { forwardToWsprnet := some sends } siteFlags)) =
      .ok (mixedText sends) := by
  have hover : overrides siteFlags = [(siteKey "kiwi", false)] := by
    rw [overrides, if_neg (by decide), sortedItems,
      List.mergeSort_of_pairwise (by decide)]
    decide +kernel
  rw [routingObject, hover]
  cases sends <;> decide +kernel

/-- The rows are psk rows with these flags. -/
theorem groups_siteRows : ∃ g, groupRecords plainJson gridless siteRows = .ok g ∧
    g.forward = siteFlags ∧ g.spots = [] ∧ g.noise = [] ∧
      isWritable (g.psk.mapM (pskEntry plainJson)) = true := by
  have hall : ((groupRecords plainJson gridless siteRows).toOption.any fun g ↦
      g.forward = siteFlags && g.spots.isEmpty && g.noise.isEmpty &&
        isWritable (g.psk.mapM (pskEntry plainJson))) = true := by decide +kernel
  cases hg : groupRecords plainJson gridless siteRows with
  | error e =>
    rw [hg] at hall
    cases hall
  | ok g =>
    rw [hg] at hall
    simp only [Except.toOption, Option.any_some, Bool.and_eq_true, decide_eq_true_eq,
      List.isEmpty_iff] at hall
    obtain ⟨⟨⟨hforward, hspots⟩, hnoise⟩, hpsk⟩ := hall
    exact ⟨g, rfl, hforward, hspots, hnoise, hpsk⟩

/-- The tar of the two receivers is built. -/
theorem isWritable_siteRows (sends : Bool) :
    isWritable (buildEntries plainJson gridless { forwardToWsprnet := some sends } siteRows) =
      true := by
  obtain ⟨g, hg, hforward, hspots, hnoise, hpsk⟩ := groups_siteRows
  obtain ⟨psk, hpsk, hnames⟩ := isWritable_iff.mp hpsk
  obtain ⟨start, hstart, hfirst⟩ := isWritable_iff.mp
    (show isWritable (metadata { forwardToWsprnet := some sends }) = true by
      cases sends <;> decide +kernel)
  obtain ⟨data, hdata⟩ : PyText.Encodable (mixedText sends ++ .ofString "\n") :=
    WsprNet.encodable_append.mpr ⟨WsprNet.encodable_ofString _, WsprNet.encodable_ofString _⟩
  have hrouting : routingEntry plainJson { forwardToWsprnet := some sends } g =
      .ok [(.ofString "routing.json", data)] := by
    rw [routingEntry, if_pos (by simp [hasRouting]), hforward, dumps_siteFlags, Except.ok_bind,
      show mixedText sends ++ [.scalar '\n'] = mixedText sends ++ .ofString "\n" from rfl, hdata]
    rfl
  refine isWritable_iff.mpr ⟨start ++ [(.ofString "routing.json", data)] ++ psk, ?_, ?_⟩
  · simp only [buildEntries, Except.bind_eq_ok, Except.pure_eq_ok]
    refine ⟨g, hg, start, hstart, _, hrouting, [], ?_, [], ?_, psk, hpsk, ?_⟩
    · rw [hspots]
      rfl
    · rw [hnoise]
      rfl
    · simp
  · simp only [List.forall_mem_append, List.forall_mem_singleton]
    exact ⟨⟨hfirst, by decide⟩, hnames⟩

theorem isRowOf_kiwi : IsRowOf plainJson gridless (siteKey "kiwi") (siteRow "kiwi" false) :=
  ⟨⟨.ofString "AC0G_EM38ww", .ofString "kiwi", .ofString "ft8", .number 20, "260523_0102"⟩,
    .int 20, rfl, by decide⟩

theorem isRowOf_rx2 : IsRowOf plainJson gridless (siteKey "rx2") (siteRow "rx2" true) :=
  ⟨⟨.ofString "AC0G_EM38ww", .ofString "rx2", .ofString "ft8", .number 20, "260523_0102"⟩,
    .int 20, rfl, by decide⟩

/-- The rows of a receiver are told by its key. -/
theorem forwardFlag_of_isRowOf_rx2 {r : Rec plainJson.Finite} (hr : r ∈ siteRows)
    (hrow : IsRowOf plainJson gridless (siteKey "rx2") r) :
    forwardFlag plainJson r.columns = true := by
  rcases List.mem_pair.mp hr with rfl | rfl
  · obtain ⟨k, band, hfile, hkey⟩ := hrow
    obtain ⟨k', band', hfile', hkey'⟩ := isRowOf_kiwi
    obtain ⟨rfl, -⟩ := Filed.psk.inj (Except.ok.inj (hfile.symm.trans hfile'))
    exact absurd (hkey.symm.trans hkey') (by decide)
  · decide

theorem routing_keeps_intent_quiet :
    ∃ entries w, Shipped plainJson plainArchiver gridless { forwardToWsprnet := some false }
        siteRows entries ∧
      Routes plainReader entries w ∧ decodeFlag (siteKey "kiwi") w = some false ∧
      decodeFlag (siteKey "rx2") w = some true ∧ Declares "forward_to_wsprnet" w ∧
      ∃ entries' w', Shipped plainJson plainArchiver gridless { forwardToWsprnet := some true }
          siteRows entries' ∧
        Routes plainReader entries' w' ∧ decodeFlag (siteKey "kiwi") w' = some false := by
  obtain ⟨entries, hshipped⟩ := exists_shipped (isWritable_siteRows false)
  obtain ⟨entries', hshipped'⟩ := exists_shipped (isWritable_siteRows true)
  obtain ⟨hflags, hwsprnet, -, -, hsame⟩ := routing_keeps_intent plainJson plainArchiver
    plainReader gridless { forwardToWsprnet := some false } siteRows entries hshipped
  obtain ⟨hflags', -⟩ := routing_keeps_intent plainJson plainArchiver plainReader gridless
    { forwardToWsprnet := some true } siteRows entries' hshipped'
  -- the first receiver is not forwarded
  obtain ⟨w, flag, hroutes, hdecode, hall⟩ :=
    hflags (siteRow "kiwi" false) List.mem_cons_self _ isRowOf_kiwi
  have hw : Routes plainReader entries w := (hroutes w).mpr rfl
  have hkiwi : decodeFlag (siteKey "kiwi") w = some false := by
    cases flag with
    | false => exact hdecode
    | true =>
      exact absurd (hall.mp rfl _ List.mem_cons_self isRowOf_kiwi) (by decide)
  -- the second one is
  obtain ⟨w₂, flag₂, hroutes₂, hdecode₂, hall₂⟩ :=
    hflags (siteRow "rx2" true) (List.mem_cons_of_mem _ List.mem_cons_self) _ isRowOf_rx2
  obtain rfl : w = w₂ := (hroutes₂ w).mp hw
  have hrx2 : decodeFlag (siteKey "rx2") w = some true := by
    rw [hdecode₂, hall₂.mpr fun r hr hrow ↦ forwardFlag_of_isRowOf_rx2 hr hrow]
  obtain ⟨w', hw', hdeclares⟩ := hwsprnet.mpr rfl
  obtain rfl : w' = w := (hroutes w').mp hw'
  -- the other setting changes neither
  obtain ⟨v, -, hroutes', -⟩ := hflags' _ List.mem_cons_self _ isRowOf_kiwi
  have hv : Routes plainReader entries' v := (hroutes' v).mpr rfl
  exact ⟨entries, w', hshipped, hw, hkiwi, hrx2, hdeclares, entries', v, hshipped', hv,
    (hsame _ _ _ _ _ hshipped' hw hv).trans hkiwi⟩

/-- A reporter without a call is set and not declared. -/
theorem routing_keeps_intent_fails :
    ¬ ∀ (py : Interpreter) (arch : Archiver) (json : JsonReader py) (up : Uploader)
      (set : Settings) (records : List (Rec py.Finite)) (entries : List Entry),
      Shipped py arch up set records entries →
      ((∃ w, Routes json entries w ∧ Declares "psk_reporter" w) ↔ set.pskReporter.isSome) := by
  intro hall
  let set : Settings := { pskReporter := some ("", "EM38ww") }
  have hbuilt : isWritable (buildEntries plainJson gridless set []) = true := by decide +kernel
  obtain ⟨entries, hshipped⟩ := exists_shipped hbuilt
  obtain ⟨w, hw, hdeclared⟩ := (hall plainJson plainArchiver plainReader gridless set [] entries
    hshipped).mpr rfl
  obtain ⟨items, g, -, -, -, hkeys, hthere, -⟩ := exists_routing plainReader hshipped
  obtain ⟨v, hsame, hroutes⟩ := hthere (by simp [hasRouting, set])
  obtain rfl := (hroutes w).mp hw
  obtain ⟨call, grid, heq, hcall⟩ := (declares_routingObject
    (fun item hitem ↦ (hkeys item hitem).2) set).2.2.mp ((hsame.declares _).mp hdeclared)
  cases heq
  exact hcall rfl

end HsUploader.Wsprdaemon
