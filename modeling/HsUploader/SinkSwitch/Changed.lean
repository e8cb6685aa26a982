import HsUploader.Library.Except
import HsUploader.SinkSwitch.WriteSwitch

/-!
# The dict after a change

`write_switch` sets the keys of the call in the dict the file held, merges the grant into its own
and adds one entry to its history.  Of a sound dict that makes a sound one (`sound_changed`), and
what is written of it is what was asked for (`asAsked_written`, `oneMore_written`).

A dict reads back with the plain members of its tables first (`written`), so what is kept is kept up
to that order (`Alike`).
-/

set_option autoImplicit false

namespace HsUploader.SinkSwitch

/-! ## What is asked for -/

section

variable {F : Type}

/-- The keys a call writes. -/
def writtenKeys : List Text :=
  ["client".toList, "state".toList, "reason".toList, "set_by".toList, "set_at".toList,
    "grant".toList, "history".toList]

/-- The dict `data` is what `cur` was, changed as the call asked. -/
structure AsAsked (name : Text) (change : Change F) (at_ : Value F) (state : Text)
    (cur : SwitchRead F) (data : Members F) : Prop where
  state : data.lookup "state".toList = some (.str state)
  reason : Alike (data.lookup "reason".toList) (some (change.reason.getD (.str [])))
  setBy : Alike (data.lookup "set_by".toList) (some (change.setBy.getD (.str [])))
  setAt : Alike (data.lookup "set_at".toList) (some at_)
  client : if name ≠ site then data.lookup "client".toList = some (.str name)
    else Alike (data.lookup "client".toList) (cur.data.lookup "client".toList)
  grant : if change.grant ≠ [] then
      ∃ old new, tableOf (cur.data.lookup "grant".toList) = .ok old ∧
        data.lookup "grant".toList = some (.table new) ∧
        ∀ k, Alike (new.lookup k) ((change.grant.lookup k).or (old.lookup k))
    else Alike (data.lookup "grant".toList) (cur.data.lookup "grant".toList)
  others : ∀ k ∉ writtenKeys, Alike (data.lookup k) (cur.data.lookup k)

/-- The entry of a call that found `old` and asked for `state`. -/
structure IsEntry (name : Text) (change : Change F) (at_ : Value F) (old state : Text)
    (entry : Members F) : Prop where
  fromState : entry.lookup "from".toList = some (.str old)
  toState : entry.lookup "to".toList = some (.str state)
  alike : ∀ k, Alike (entry.lookup k)
    ((entryOf name change at_ (.str old) (.str state)).lookup k)

/-- The history of `data` is that of `cur` and one entry of the call more. -/
def OneMore (name : Text) (change : Change F) (at_ : Value F) (state : Text) (cur : SwitchRead F)
    (data : Members F) : Prop :=
  ∃ items items' entry, listOf (cur.data.lookup "history".toList) = .ok items ∧
    data.lookup "history".toList = some (.arr (items' ++ [.table entry])) ∧
    items'.map plainFirst = items.map plainFirst ∧
    IsEntry name change at_ (cur.state.getD "off".toList) state entry

/-! ## The dict that is written -/

theorem lookup_stamped (name : Text) (change : Change F) (at_ new : Value F) (data : Members F)
    (k : Text) :
    (stamped name change at_ new data).lookup k =
      if k = "set_at".toList then some at_
      else if k = "set_by".toList then some (change.setBy.getD (.str []))
      else if k = "reason".toList then some (change.reason.getD (.str []))
      else if k = "state".toList then some new
      else if name ≠ site ∧ k = "client".toList then some (.str name)
      else data.lookup k := by
  have hclient : (if name ≠ site then setItem data "client".toList (.str name) else data).lookup k =
      if name ≠ site ∧ k = "client".toList then some (.str name) else data.lookup k := by
    by_cases hname : name ≠ site
    · rw [if_pos hname, lookup_setItem]
      by_cases hk : k = "client".toList
      · rw [if_pos hk, if_pos ⟨hname, hk⟩]
      · rw [if_neg hk, if_neg fun h ↦ hk h.2]
    · rw [if_neg hname, if_neg fun h ↦ hname h.1]
  simp only [stamped, lookup_setItem, hclient]

theorem lookup_merged (old new : Members F) (hnew : (new.map Prod.fst).Nodup) (k : Text) :
    (merged old new).lookup k = (new.lookup k).or (old.lookup k) := by
  induction new generalizing old with
  | nil => rfl
  | cons m new ih =>
    rw [List.map_cons, List.nodup_cons] at hnew
    have hstep := ih (setItem old m.1 m.2) hnew.2
    rw [merged, List.foldl_cons, ← merged, hstep, lookup_setItem]
    obtain ⟨k₀, v₀⟩ := m
    by_cases hk : k = k₀
    · subst hk
      simp [lookup_eq_none hnew.1]
    · simp [hk, List.lookup_cons, beq_false_of_ne hk]

theorem tableOf_eq_ok {v : Option (Value F)} {ms : Members F} :
    tableOf v = .ok ms ↔ (v = none ∧ ms = []) ∨ v = some (.table ms) := by
  rcases v with _ | v
  · simp [tableOf, eq_comm]
  · cases v <;> simp [tableOf]

/-- The grant of the dict after the change, if the change has one. -/
theorem granted_eq_ok {change : Change F} {data data' : Members F} :
    granted change data = .ok data' ↔
      if change.grant ≠ [] then ∃ old, tableOf (data.lookup "grant".toList) = .ok old ∧
        data' = setItem data "grant".toList (.table (merged old change.grant))
      else data' = data := by
  rw [granted]
  split_ifs
  · rw [Except.bind_eq_ok]
    simp only [Except.pure_eq_ok]
    exact exists_congr fun old ↦ and_congr_right fun _ ↦ eq_comm
  · rw [Except.pure_eq_ok]
    exact eq_comm

/-- What stands under a key the call does not write is left alone. -/
theorem lookup_stamped_other {name : Text} {change : Change F} {at_ new : Value F}
    {data : Members F} {k : Text}
    (hk : k ∉ ["set_at".toList, "set_by".toList, "reason".toList, "state".toList])
    (hclient : name ≠ site → k ≠ "client".toList) :
    (stamped name change at_ new data).lookup k = data.lookup k := by
  simp only [List.mem_cons, List.not_mem_nil, or_false, not_or] at hk
  rw [lookup_stamped, if_neg hk.1, if_neg hk.2.1, if_neg hk.2.2.1, if_neg hk.2.2.2,
    if_neg fun hc ↦ hclient hc.1 hc.2]

theorem lookup_granted {change : Change F} {data data' : Members F}
    (h : granted change data = .ok data') {k : Text} (hk : k ≠ "grant".toList) :
    data'.lookup k = data.lookup k := by
  rw [granted_eq_ok] at h
  split_ifs at h
  · obtain ⟨old, -, rfl⟩ := h
    rw [lookup_setItem, if_neg hk]
  · rw [h]

/-- **What the dict after the change is**: under the keys of the call what it sets, under `history`
one entry more. -/
theorem changed_eq_ok {name : Text} {change : Change F} {at_ new : Value F} {cur : SwitchRead F}
    {data : Members F} (h : changed name change at_ new cur = .ok data) :
    ∃ base items, granted change (stamped name change at_ new cur.data) = .ok base ∧
      listOf (cur.data.lookup "history".toList) = .ok items ∧
      data = setItem base "history".toList (.arr (items ++
        [.table (entryOf name change at_ (.str (cur.state.getD "off".toList)) new)])) := by
  simp only [changed, Except.bind_eq_ok, Except.pure_eq_ok] at h
  obtain ⟨base, hbase, items, hitems, rfl⟩ := h
  refine ⟨base, items, hbase, ?_, rfl⟩
  have hhistory : base.lookup "history".toList = cur.data.lookup "history".toList := by
    rw [lookup_granted hbase (by decide), lookup_stamped_other (by decide) fun _ ↦ by decide]
  rw [← hhistory]
  exact hitems

/-! ## It is sound -/

/-- The tables of the change are dicts, and no key in it has a line break. -/
structure SoundChange (change : Change F) : Prop where
  setAt : ∀ v ∈ change.setAt, Sound v
  setBy : ∀ v ∈ change.setBy, Sound v
  reason : ∀ v ∈ change.reason, Sound v
  grant : Sound (.table change.grant)
  identity : Sound (.table change.identity)

theorem sound_nil : Sound (.table ([] : Members F)) := by
  rw [sound_table_iff]
  exact ⟨List.nodup_nil, fun m hm ↦ absurd hm List.not_mem_nil⟩

theorem sound_getD {v : Option (Value F)} (h : ∀ w ∈ v, Sound w) : Sound (v.getD (.str [])) := by
  cases v with
  | none => exact sound_str []
  | some w => exact h w rfl

theorem sound_tableOf {v : Option (Value F)} {ms : Members F} (h : tableOf v = .ok ms)
    (hv : ∀ w ∈ v, Sound w) : Sound (.table ms) := by
  rcases tableOf_eq_ok.mp h with ⟨-, rfl⟩ | rfl
  · exact sound_nil
  · exact hv _ rfl

theorem sound_listOf {v : Option (Value F)} {items : List (Value F)} (h : listOf v = .ok items)
    (hv : ∀ w ∈ v, Sound w) : ∀ item ∈ items, Sound item := by
  rcases v with _ | v
  · cases h
    exact fun item hitem ↦ absurd hitem List.not_mem_nil
  · cases v with
    | arr xs =>
      cases h
      exact sound_arr_iff.mp (hv _ rfl)
    | table ms =>
      cases h
      intro item hitem
      obtain ⟨m, -, rfl⟩ := List.mem_map.mp hitem
      exact sound_str _
    | str s =>
      cases h
      intro item hitem
      obtain ⟨c, -, rfl⟩ := List.mem_map.mp hitem
      exact sound_str _
    | _ => cases h

theorem sound_stamped {name : Text} {change : Change F} {at_ new : Value F} {data : Members F}
    (hat : Sound at_) (hnew : Sound new) (hby : Sound (change.setBy.getD (.str [])))
    (hreason : Sound (change.reason.getD (.str []))) (hdata : Sound (.table data)) :
    Sound (.table (stamped name change at_ new data)) := by
  have hclient : Sound (.table (if name ≠ site then setItem data "client".toList (.str name)
      else data)) := by
    split_ifs
    · exact sound_setItem hdata (by decide) (sound_str name)
    · exact hdata
  rw [stamped]
  exact sound_setItem (sound_setItem (sound_setItem (sound_setItem hclient (by decide) hnew)
    (by decide) hreason) (by decide) hby) (by decide) hat

theorem sound_merged {old new : Members F} (hold : Sound (.table old))
    (hnew : ∀ m ∈ new, '\n' ∉ m.1 ∧ Sound m.2) : Sound (.table (merged old new)) := by
  induction new generalizing old with
  | nil => exact hold
  | cons m new ih =>
    rw [List.forall_mem_cons] at hnew
    exact ih (sound_setItem hold hnew.1.1 hnew.1.2) hnew.2

theorem sound_granted {change : Change F} {data data' : Members F}
    (h : granted change data = .ok data') (hchange : SoundChange change)
    (hdata : Sound (.table data)) : Sound (.table data') := by
  rw [granted_eq_ok] at h
  split_ifs at h
  · obtain ⟨old, hold, rfl⟩ := h
    have hsound := sound_tableOf hold fun w hw ↦ sound_of_lookup hdata hw
    exact sound_setItem hdata (by decide)
      (sound_merged hsound (sound_table_iff.mp hchange.grant).2)
  · rw [h]
    exact hdata

theorem sound_entryOf (name : Text) {change : Change F} {at_ old new : Value F}
    (hchange : SoundChange change) (hat : Sound at_) (hold : Sound old) (hnew : Sound new) :
    Sound (.table (entryOf name change at_ old new)) := by
  have hby := sound_getD hchange.setBy
  have hreason := sound_getD hchange.reason
  have hkeys : ["at".toList, "from".toList, "to".toList, "by".toList, "reason".toList,
      "identity".toList].Nodup := by decide
  rw [sound_table_iff, entryOf]
  split_ifs
  · refine ⟨hkeys, ?_⟩
    simp only [List.cons_append, List.nil_append, List.forall_mem_cons]
    exact ⟨⟨by decide, hat⟩, ⟨by decide, hold⟩, ⟨by decide, hnew⟩, ⟨by decide, hby⟩,
      ⟨by decide, hreason⟩, ⟨by decide, hchange.identity⟩, List.forall_mem_nil _⟩
  · refine ⟨hkeys.sublist (List.sublist_append_left _ ["identity".toList]), ?_⟩
    simp only [List.append_nil, List.forall_mem_cons]
    exact ⟨⟨by decide, hat⟩, ⟨by decide, hold⟩, ⟨by decide, hnew⟩, ⟨by decide, hby⟩,
      ⟨by decide, hreason⟩, List.forall_mem_nil _⟩

/-- **The dict after the change is sound.** -/
theorem sound_changed {name : Text} {change : Change F} {at_ new : Value F} {cur : SwitchRead F}
    {data : Members F} (h : changed name change at_ new cur = .ok data)
    (hchange : SoundChange change) (hat : Sound at_) (hnew : Sound new)
    (hcur : Sound (.table cur.data)) : Sound (.table data) := by
  obtain ⟨base, items, hbase, hitems, rfl⟩ := changed_eq_ok h
  have hbase := sound_granted hbase hchange
    (sound_stamped hat hnew (sound_getD hchange.setBy) (sound_getD hchange.reason) hcur)
  have hitems := sound_listOf hitems fun w hw ↦ sound_of_lookup hcur hw
  refine sound_setItem hbase (by decide) (sound_arr_iff.mpr fun v hv ↦ ?_)
  rcases List.mem_append.mp hv with hv | hv
  · exact hitems v hv
  · rw [List.mem_singleton.mp hv]
    exact sound_entryOf name hchange hat (sound_str _) hnew

/-! ## What is written of it -/

theorem plainFirstItems_eq_map (items : List (Value F)) :
    plainFirstItems items = items.map plainFirst := by
  induction items with
  | nil => rfl
  | cons v items ih => rw [plainFirstItems, ih, List.map_cons]

/-- What stands in the dict after the change, but under the two keys that keep what was there. -/
theorem lookup_changed {name : Text} {change : Change F} {at_ new : Value F} {cur : SwitchRead F}
    {data : Members F} (h : changed name change at_ new cur = .ok data) {k : Text}
    (hgrant : k ≠ "grant".toList) (hhistory : k ≠ "history".toList) :
    data.lookup k = (stamped name change at_ new cur.data).lookup k := by
  obtain ⟨base, items, hbase, -, rfl⟩ := changed_eq_ok h
  rw [lookup_setItem, if_neg hhistory, lookup_granted hbase hgrant]

theorem lookup_grant {name : Text} {change : Change F} {at_ new : Value F} {cur : SwitchRead F}
    {data : Members F} (h : changed name change at_ new cur = .ok data) :
    if change.grant ≠ [] then ∃ old, tableOf (cur.data.lookup "grant".toList) = .ok old ∧
      data.lookup "grant".toList = some (.table (merged old change.grant))
    else data.lookup "grant".toList = cur.data.lookup "grant".toList := by
  obtain ⟨base, items, hbase, -, rfl⟩ := changed_eq_ok h
  have hstamped : (stamped name change at_ new cur.data).lookup "grant".toList =
      cur.data.lookup "grant".toList := lookup_stamped_other (by decide) fun _ ↦ by decide
  have hother : ∀ v, (setItem base "history".toList v).lookup "grant".toList =
      base.lookup "grant".toList := fun v ↦ by rw [lookup_setItem, if_neg (by decide)]
  rw [granted_eq_ok, hstamped] at hbase
  rw [hother]
  split_ifs at hbase ⊢
  · obtain ⟨old, hold, rfl⟩ := hbase
    exact ⟨old, hold, by rw [lookup_setItem, if_pos rfl]⟩
  · rw [hbase, hstamped]

/-- **What is written is the dict as it was, changed as asked.** -/
theorem asAsked_written {name state : Text} {change : Change F} {at_ : Value F}
    {cur : SwitchRead F} {data : Members F}
    (h : changed name change at_ (.str state) cur = .ok data) (hchange : SoundChange change)
    (hat : Sound at_) (hcur : Sound (.table cur.data)) :
    AsAsked name change at_ state cur (written data) := by
  have hnodup := (sound_table_iff.mp (sound_changed h hchange hat (sound_str _) hcur)).1
  have hread : ∀ k, (written data).lookup k = (data.lookup k).map plainFirst :=
    lookup_written hnodup
  have halike : ∀ k, Alike ((written data).lookup k) (data.lookup k) := alike_written hnodup
  have hset : ∀ k, k ≠ "grant".toList → k ≠ "history".toList →
      data.lookup k = (stamped name change at_ (.str state) cur.data).lookup k :=
    fun k hg hh ↦ lookup_changed h hg hh
  refine ⟨?_, ?_, ?_, ?_, ?_, ?_, ?_⟩
  · rw [hread, hset _ (by decide) (by decide), lookup_stamped, if_neg (by decide),
      if_neg (by decide), if_neg (by decide), if_pos rfl]
    rfl
  · have heq := hset "reason".toList (by decide) (by decide)
    rw [lookup_stamped, if_neg (by decide), if_neg (by decide), if_pos rfl] at heq
    exact heq ▸ halike "reason".toList
  · have heq := hset "set_by".toList (by decide) (by decide)
    rw [lookup_stamped, if_neg (by decide), if_pos rfl] at heq
    exact heq ▸ halike "set_by".toList
  · have heq := hset "set_at".toList (by decide) (by decide)
    rw [lookup_stamped, if_pos rfl] at heq
    exact heq ▸ halike "set_at".toList
  · have heq := hset "client".toList (by decide) (by decide)
    split_ifs with hname
    · rw [lookup_stamped, if_neg (by decide), if_neg (by decide), if_neg (by decide),
        if_neg (by decide), if_pos ⟨hname, rfl⟩] at heq
      rw [hread, heq]
      rfl
    · rw [lookup_stamped_other (by decide) fun hc ↦ absurd hc hname] at heq
      exact heq ▸ halike "client".toList
  · have hgrant := lookup_grant h
    split_ifs at hgrant ⊢
    · obtain ⟨old, hold, heq⟩ := hgrant
      have hsound : Sound (.table (merged old change.grant)) := sound_merged
        (sound_tableOf hold fun w hw ↦ sound_of_lookup hcur hw) (sound_table_iff.mp hchange.grant).2
      refine ⟨old, written (merged old change.grant), hold, by rw [hread, heq]; rfl, fun k ↦ ?_⟩
      rw [← lookup_merged old change.grant (sound_table_iff.mp hchange.grant).1]
      exact alike_written (sound_table_iff.mp hsound).1 k
    · exact hgrant ▸ halike "grant".toList
  · intro k hk
    simp only [writtenKeys, List.mem_cons, List.not_mem_nil, or_false, not_or] at hk
    obtain ⟨hclient, hstate, hreason, hby, hset_at, hgrant, hhistory⟩ := hk
    have hnew : k ∉ ["set_at".toList, "set_by".toList, "reason".toList, "state".toList] := by
      simp only [List.mem_cons, List.not_mem_nil, or_false, not_or]
      exact ⟨hset_at, hby, hreason, hstate⟩
    have heq := hset k hgrant hhistory
    rw [lookup_stamped_other hnew fun _ ↦ hclient] at heq
    exact heq ▸ halike k

/-- **What is written has one entry more, at the end of the history.** -/
theorem oneMore_written {name state : Text} {change : Change F} {at_ : Value F}
    {cur : SwitchRead F} {data : Members F}
    (h : changed name change at_ (.str state) cur = .ok data) (hchange : SoundChange change)
    (hat : Sound at_) (hcur : Sound (.table cur.data)) :
    OneMore name change at_ state cur (written data) := by
  have hnodup := (sound_table_iff.mp (sound_changed h hchange hat (sound_str _) hcur)).1
  obtain ⟨base, items, -, hitems, rfl⟩ := changed_eq_ok h
  have hentry := (sound_table_iff.mp (sound_entryOf name hchange hat
    (sound_str (cur.state.getD "off".toList)) (sound_str state))).1
  refine ⟨items, items.map plainFirst, written (entryOf name change at_
    (.str (cur.state.getD "off".toList)) (.str state)), hitems, ?_, ?_, ?_, ?_, ?_⟩
  · rw [lookup_written hnodup, lookup_setItem, if_pos rfl, Option.map_some, plainFirst,
      plainFirstItems_eq_map, List.map_append, List.map_singleton]
    rfl
  · rw [List.map_map]
    exact List.map_congr_left fun v _ ↦ plainFirst_plainFirst v
  · rw [lookup_written hentry]
    rfl
  · rw [lookup_written hentry]
    rfl
  · exact alike_written hentry

end

end HsUploader.SinkSwitch
