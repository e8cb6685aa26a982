import HsUploader.SinkSwitch.RoundTrip

/-!
# What a written dict reads back as

`dumps_toml` writes the plain members of a dict before its tables, and that is the order in which
the parser puts them back.  Nothing else changes: under every key stands what stood there, with the
members of the tables in it so ordered (`lookup_written`).  A second writing changes nothing more.
-/

set_option autoImplicit false

namespace HsUploader.SinkSwitch

variable {F : Type}

/-- The dict as it is written: its plain members first, and so in every table of it. -/
def written (ms : Members F) : Members F := plainMembers ms ++ subMembers ms

/-- Two values are the same up to the order in which the members of tables are written. -/
def Alike (v w : Option (Value F)) : Prop := v.map plainFirst = w.map plainFirst

/-! ## Writing twice -/

theorem isSub_plainFirst (v : Value F) : (plainFirst v).isSub = v.isSub := by
  cases v with
  | arr items => cases items <;> rfl
  | _ => rfl

theorem mem_plainMembers {m : Text × Value F} {ms : Members F} :
    m ∈ plainMembers ms ↔ m ∈ ms ∧ m.2.isSub = false := by
  rw [plainMembers, List.mem_filter, Bool.not_eq_true']

theorem mem_subMembers {m : Text × Value F} {ms : Members F} (h : m ∈ subMembers ms) :
    ∃ v, (m.1, v) ∈ ms ∧ m.2 = plainFirst v ∧ v.isSub = true := by
  induction ms with
  | nil => cases h
  | cons p ms ih =>
    obtain ⟨k, v⟩ := p
    rw [subMembers] at h
    split_ifs at h with hv
    · rcases List.mem_cons.mp h with rfl | h
      · exact ⟨v, List.mem_cons_self, rfl, hv⟩
      · obtain ⟨w, hw, heq⟩ := ih h
        exact ⟨w, List.mem_cons_of_mem _ hw, heq⟩
    · obtain ⟨w, hw, heq⟩ := ih h
      exact ⟨w, List.mem_cons_of_mem _ hw, heq⟩

theorem subMembers_append (ms ns : Members F) :
    subMembers (ms ++ ns) = subMembers ms ++ subMembers ns := by
  induction ms with
  | nil => rfl
  | cons p ms ih =>
    obtain ⟨k, v⟩ := p
    cases hv : v.isSub <;> simp [subMembers, hv, ih]

theorem subMembers_plainMembers (ms : Members F) : subMembers (plainMembers ms) = [] := by
  refine List.eq_nil_iff_forall_not_mem.mpr fun m hm ↦ ?_
  obtain ⟨v, hv, -, hsub⟩ := mem_subMembers hm
  rw [(mem_plainMembers.mp hv).2] at hsub
  cases hsub

theorem plainMembers_subMembers (ms : Members F) : plainMembers (subMembers ms) = [] := by
  refine List.filter_eq_nil_iff.mpr fun m hm ↦ ?_
  obtain ⟨v, -, heq, hsub⟩ := mem_subMembers hm
  rw [heq, isSub_plainFirst, hsub]
  exact Bool.false_ne_true

mutual

theorem plainFirst_plainFirst : ∀ v : Value F, plainFirst (plainFirst v) = plainFirst v
  | .table ms => by
    have hplain : plainMembers (plainMembers ms ++ subMembers ms) = plainMembers ms := by
      have hsub := plainMembers_subMembers ms
      rw [plainMembers] at hsub ⊢
      rw [List.filter_append, hsub, List.append_nil, plainMembers, List.filter_filter]
      simp only [Bool.and_self]
    rw [plainFirst, plainFirst, hplain, subMembers_append, subMembers_plainMembers, List.nil_append,
      subMembers_subMembers ms]
  | .arr items => by
    rw [plainFirst, plainFirst, plainFirstItems_plainFirstItems]
  | .str s => rfl
  | .bool b => rfl
  | .int n => rfl
  | .float x => rfl
  | .other t => rfl

theorem plainFirstItems_plainFirstItems : ∀ items : List (Value F),
    plainFirstItems (plainFirstItems items) = plainFirstItems items
  | [] => rfl
  | v :: vs => by
    rw [plainFirstItems, plainFirstItems, plainFirst_plainFirst v,
      plainFirstItems_plainFirstItems vs]

theorem subMembers_subMembers : ∀ ms : Members F, subMembers (subMembers ms) = subMembers ms
  | [] => rfl
  | (k, v) :: ms => by
    cases hv : v.isSub with
    | false => simpa [subMembers, hv] using subMembers_subMembers ms
    | true =>
      simp [subMembers, hv, isSub_plainFirst, plainFirst_plainFirst v, subMembers_subMembers ms]

end

/-! ## Under each key -/

theorem mem_of_lookup {k : Text} {v : Value F} {ms : Members F} (h : ms.lookup k = some v) :
    (k, v) ∈ ms := by
  obtain ⟨before, after, rfl, -⟩ := List.lookup_eq_some_iff.mp h
  exact List.mem_append_right _ List.mem_cons_self

theorem lookup_isSome_iff {k : Text} {ms : Members F} :
    (ms.lookup k).isSome ↔ k ∈ ms.map Prod.fst := by
  constructor
  · intro h
    by_contra hk
    rw [lookup_eq_none hk] at h
    cases h
  · intro h
    obtain ⟨m, hm, rfl⟩ := List.mem_map.mp h
    by_contra hnone
    rw [Option.not_isSome_iff_eq_none, List.lookup_eq_none_iff] at hnone
    exact bne_iff_ne.mp (hnone m hm) rfl

/-- **Under each key stands what stood there.** -/
theorem lookup_written {ms : Members F} (hms : (ms.map Prod.fst).Nodup) (k : Text) :
    (written ms).lookup k = (ms.lookup k).map plainFirst := by
  have hnodup : ((written ms).map Prod.fst).Nodup := (keys_perm ms).nodup_iff.mpr hms
  cases h : ms.lookup k with
  | none =>
    refine lookup_eq_none fun hk ↦ ?_
    have hsome := lookup_isSome_iff.mpr ((keys_perm ms).mem_iff.mp hk)
    rw [h] at hsome
    cases hsome
  | some v => exact lookup_of_mem hnodup (mem_plainFirst (mem_of_lookup h))

theorem alike_written {ms : Members F} (hms : (ms.map Prod.fst).Nodup) (k : Text) :
    Alike ((written ms).lookup k) (ms.lookup k) := by
  rw [Alike, lookup_written hms, Option.map_map]
  cases ms.lookup k with
  | none => rfl
  | some v => exact congrArg some (plainFirst_plainFirst v)

/-! ## Sound values -/

/-- No table in the value has a key twice, and no key in it has a line break. -/
def Sound (v : Value F) : Prop := Distinct v.parts ∧ ∀ k ∈ v.keys, '\n' ∉ k

theorem mem_memberParts {p : Value F} {ms : Members F} :
    p ∈ Value.memberParts ms ↔ ∃ m ∈ ms, p ∈ m.2.parts := by
  induction ms with
  | nil => simp [Value.memberParts]
  | cons m ms ih => simp [Value.memberParts, ih]

theorem mem_itemParts {p : Value F} {items : List (Value F)} :
    p ∈ Value.itemParts items ↔ ∃ v ∈ items, p ∈ v.parts := by
  induction items with
  | nil => simp [Value.itemParts]
  | cons v items ih => simp [Value.itemParts, ih]

theorem mem_keys_members {k : Text} {ms : Members F} :
    k ∈ Value.memberKeys ms ↔ ∃ m ∈ ms, k = m.1 ∨ k ∈ m.2.keys := by
  induction ms with
  | nil => simp [Value.memberKeys]
  | cons m ms ih => simp [Value.memberKeys, ih, or_assoc]

theorem mem_itemKeys {k : Text} {items : List (Value F)} :
    k ∈ Value.itemKeys items ↔ ∃ v ∈ items, k ∈ v.keys := by
  induction items with
  | nil => simp [Value.itemKeys]
  | cons v items ih => simp [Value.itemKeys, ih]

theorem sound_table_iff {ms : Members F} :
    Sound (.table ms) ↔ (ms.map Prod.fst).Nodup ∧ ∀ m ∈ ms, '\n' ∉ m.1 ∧ Sound m.2 := by
  constructor
  · rintro ⟨hd, hk⟩
    refine ⟨hd ms List.mem_cons_self, fun m hm ↦ ⟨?_, ?_, ?_⟩⟩
    · exact hk _ (mem_keys_members.mpr ⟨m, hm, .inl rfl⟩)
    · exact fun ns hns ↦ hd ns (List.mem_cons_of_mem _ (mem_memberParts.mpr ⟨m, hm, hns⟩))
    · exact fun k hk' ↦ hk k (mem_keys_members.mpr ⟨m, hm, .inr hk'⟩)
  · rintro ⟨hnodup, hall⟩
    constructor
    · intro ns hns
      rcases List.mem_cons.mp hns with heq | hns
      · obtain rfl := Value.table.inj heq
        exact hnodup
      · obtain ⟨m, hm, hns⟩ := mem_memberParts.mp hns
        exact (hall m hm).2.1 ns hns
    · intro k hk
      obtain ⟨m, hm, rfl | hk⟩ := mem_keys_members.mp hk
      · exact (hall m hm).1
      · exact (hall m hm).2.2 k hk

theorem sound_arr_iff {items : List (Value F)} :
    Sound (.arr items) ↔ ∀ v ∈ items, Sound v := by
  constructor
  · rintro ⟨hd, hk⟩ v hv
    refine ⟨fun ns hns ↦ ?_, fun k hk' ↦ ?_⟩
    · exact hd ns (List.mem_cons_of_mem _ (mem_itemParts.mpr ⟨v, hv, hns⟩))
    · exact hk k (mem_itemKeys.mpr ⟨v, hv, hk'⟩)
  · intro hall
    constructor
    · intro ns hns
      rcases List.mem_cons.mp hns with heq | hns
      · cases heq
      · obtain ⟨v, hv, hns⟩ := mem_itemParts.mp hns
        exact (hall v hv).1 ns hns
    · intro k hk
      obtain ⟨v, hv, hk⟩ := mem_itemKeys.mp hk
      exact (hall v hv).2 k hk

theorem sound_str (s : Text) : Sound (.str s : Value F) :=
  ⟨fun ns h ↦ by simp [Value.parts] at h, fun k h ↦ by simp [Value.keys] at h⟩

theorem sound_of_lookup {ms : Members F} (h : Sound (.table ms)) {k : Text} {v : Value F}
    (hv : ms.lookup k = some v) : Sound v :=
  ((sound_table_iff.mp h).2 (k, v) (mem_of_lookup hv)).2

theorem lookup_map_replace {ms : Members F} {k : Text} {v : Value F} (k' : Text) :
    (ms.map fun m ↦ if m.1 = k then (k, v) else m).lookup k' =
      if k' = k then (ms.lookup k).map fun _ ↦ v else ms.lookup k' := by
  induction ms with
  | nil => split_ifs <;> rfl
  | cons m ms ih =>
    obtain ⟨k₀, v₀⟩ := m
    rw [List.map_cons]
    by_cases hm : k₀ = k
    · subst hm
      by_cases hk : k' = k₀
      · subst hk
        simp
      · simpa [hk, List.lookup_cons, beq_false_of_ne hk] using ih
    · rw [if_neg hm]
      by_cases hk : k' = k₀
      · subst hk
        simp [hm]
      · by_cases hkk : k' = k
        · subst hkk
          simpa [List.lookup_cons, beq_false_of_ne hk] using ih
        · simpa [hkk, List.lookup_cons, beq_false_of_ne hk] using ih

/-- `d[k] = v`, read. -/
theorem lookup_setItem (ms : Members F) (k k' : Text) (v : Value F) :
    (setItem ms k v).lookup k' = if k' = k then some v else ms.lookup k' := by
  rw [setItem]
  by_cases hsome : (ms.lookup k).isSome
  · obtain ⟨w, hw⟩ := Option.isSome_iff_exists.mp hsome
    rw [if_pos hsome, lookup_map_replace, hw, Option.map_some]
  · have hnone : ms.lookup k = none := Option.not_isSome_iff_eq_none.mp hsome
    rw [if_neg hsome, List.lookup_append]
    by_cases hk : k' = k
    · subst hk
      simp [hnone]
    · simp [hk, List.lookup_cons, beq_false_of_ne hk]

theorem sound_setItem {ms : Members F} (h : Sound (.table ms)) {k : Text} (hk : '\n' ∉ k)
    {v : Value F} (hv : Sound v) : Sound (.table (setItem ms k v)) := by
  obtain ⟨hnodup, hall⟩ := sound_table_iff.mp h
  rw [sound_table_iff, setItem]
  split_ifs with hsome
  · have hkeys : (ms.map fun m ↦ if m.1 = k then (k, v) else m).map Prod.fst = ms.map Prod.fst := by
      rw [List.map_map]
      refine List.map_congr_left fun m _ ↦ ?_
      rw [Function.comp_apply]
      split_ifs with hm
      · exact hm.symm
      · rfl
    refine ⟨hkeys ▸ hnodup, fun m hm ↦ ?_⟩
    obtain ⟨m', hm', rfl⟩ := List.mem_map.mp hm
    split_ifs
    · exact ⟨hk, hv⟩
    · exact hall m' hm'
  · have hnew : k ∉ ms.map Prod.fst := fun hmem ↦ hsome (lookup_isSome_iff.mpr hmem)
    constructor
    · rw [List.map_append, List.map_singleton, List.nodup_append']
      refine ⟨hnodup, List.nodup_singleton _, fun a ha hk' ↦ ?_⟩
      rw [List.mem_singleton.mp hk'] at ha
      exact hnew ha
    · intro m hm
      rcases List.mem_append.mp hm with hm | hm
      · exact hall m hm
      · obtain rfl := List.mem_singleton.mp hm
        exact ⟨hk, hv⟩

mutual

/-- What is written of a sound value is sound. -/
theorem sound_plainFirst : ∀ v : Value F, Sound v → Sound (plainFirst v)
  | .table ms, h => by
    obtain ⟨hnodup, hall⟩ := sound_table_iff.mp h
    rw [plainFirst, sound_table_iff]
    refine ⟨(keys_perm ms).nodup_iff.mpr hnodup, fun m hm ↦ ?_⟩
    rcases List.mem_append.mp hm with hm | hm
    · exact hall m (mem_plainMembers.mp hm).1
    · exact sound_subMembers ms hall m hm
  | .arr items, h => by
    rw [plainFirst, sound_arr_iff]
    exact sound_plainFirstItems items (sound_arr_iff.mp h)
  | .str s, h => h
  | .bool b, h => h
  | .int n, h => h
  | .float x, h => h
  | .other t, h => h

theorem sound_plainFirstItems : ∀ items : List (Value F), (∀ v ∈ items, Sound v) →
    ∀ v ∈ plainFirstItems items, Sound v
  | [], _, v, hv => absurd hv List.not_mem_nil
  | item :: items, h, v, hv => by
    rw [List.forall_mem_cons] at h
    rcases List.mem_cons.mp hv with rfl | hv
    · exact sound_plainFirst item h.1
    · exact sound_plainFirstItems items h.2 v hv

theorem sound_subMembers : ∀ ms : Members F, (∀ m ∈ ms, '\n' ∉ m.1 ∧ Sound m.2) →
    ∀ m ∈ subMembers ms, '\n' ∉ m.1 ∧ Sound m.2
  | [], _, m, hm => absurd hm List.not_mem_nil
  | (k, v) :: ms, h, m, hm => by
    rw [List.forall_mem_cons] at h
    rw [subMembers] at hm
    split_ifs at hm
    · rcases List.mem_cons.mp hm with rfl | hm
      · exact ⟨h.1.1, sound_plainFirst v h.1.2⟩
      · exact sound_subMembers ms h.2 m hm
    · exact sound_subMembers ms h.2 m hm

end

theorem sound_written {ms : Members F} (h : Sound (.table ms)) : Sound (.table (written ms)) :=
  sound_plainFirst (.table ms) h

mutual

/-- The integers written of a value are those in it. -/
theorem int_mem_plainFirst {n : ℤ} : ∀ v : Value F, .int n ∈ (plainFirst v).parts →
    .int n ∈ v.parts
  | .table ms, h => by
    rw [plainFirst] at h
    rcases List.mem_cons.mp h with heq | h
    · cases heq
    · refine List.mem_cons_of_mem _ (mem_memberParts.mpr ?_)
      obtain ⟨m, hm, hn⟩ := mem_memberParts.mp h
      rcases List.mem_append.mp hm with hm | hm
      · exact ⟨m, (mem_plainMembers.mp hm).1, hn⟩
      · exact int_mem_subMembers ms m hm hn
  | .arr items, h => by
    rw [plainFirst] at h
    rcases List.mem_cons.mp h with heq | h
    · cases heq
    · obtain ⟨v, hv, hn⟩ := mem_itemParts.mp h
      exact List.mem_cons_of_mem _ (mem_itemParts.mpr (int_mem_plainFirstItems items v hv hn))
  | .str s, h => h
  | .bool b, h => h
  | .int m, h => h
  | .float x, h => h
  | .other t, h => h

theorem int_mem_plainFirstItems {n : ℤ} : ∀ items : List (Value F),
    ∀ v ∈ plainFirstItems items, .int n ∈ v.parts → ∃ w ∈ items, .int n ∈ w.parts
  | [], v, hv, _ => absurd hv List.not_mem_nil
  | item :: items, v, hv, hn => by
    rcases List.mem_cons.mp hv with rfl | hv
    · exact ⟨item, List.mem_cons_self, int_mem_plainFirst item hn⟩
    · obtain ⟨w, hw, hn⟩ := int_mem_plainFirstItems items v hv hn
      exact ⟨w, List.mem_cons_of_mem _ hw, hn⟩

theorem int_mem_subMembers {n : ℤ} : ∀ ms : Members F, ∀ m ∈ subMembers ms, .int n ∈ m.2.parts →
    ∃ m' ∈ ms, .int n ∈ m'.2.parts
  | [], m, hm, _ => absurd hm List.not_mem_nil
  | (k, v) :: ms, m, hm, hn => by
    rw [subMembers] at hm
    split_ifs at hm
    · rcases List.mem_cons.mp hm with rfl | hm
      · exact ⟨(k, v), List.mem_cons_self, int_mem_plainFirst v hn⟩
      · obtain ⟨m', hm', hn⟩ := int_mem_subMembers ms m hm hn
        exact ⟨m', List.mem_cons_of_mem _ hm', hn⟩
    · obtain ⟨m', hm', hn⟩ := int_mem_subMembers ms m hm hn
      exact ⟨m', List.mem_cons_of_mem _ hm', hn⟩

end

/-! ## Reading back -/

/-- **A sound dict reads back as it was written.** -/
theorem loads_dumpsToml (fl : Floats) {ms : Members fl.Finite} {text : Text}
    (h : dumpsToml fl ms = .ok text) (hsound : Sound (.table ms)) :
    loads fl text = some (written ms) := by
  obtain ⟨rfl, hs⟩ := dumpsToml_eq_ok fl h
  have hgood : ∀ s ∈ stmts [] ms, s.Good fl := fun s hs' ↦ (stmts_of fl hs hs').good
  have hwhole : ∀ s ∈ stmts [] ms, ¬ s.Broken := by
    intro s hs' hb
    obtain ⟨k, hk, hkb⟩ := (broken_iff fl hs).mp ⟨s, hs', hb⟩
    obtain ⟨body, -, -, rfl⟩ := brokenKey_iff.mp hkb
    exact hsound.2 _ hk (List.mem_append_right _ List.mem_cons_self)
  exact (loads_stmts fl hgood hwhole).trans (run_document fl hs hsound.1)

end HsUploader.SinkSwitch
