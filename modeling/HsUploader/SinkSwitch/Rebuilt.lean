import HsUploader.SinkSwitch.Emitted

/-!
# Running the statements of a table

The statements of a table at `path` are run where the dict at `path` stands empty.  The rest of the
document does not matter: it is a context, and a change at `path` is that change in the context.
What matters of the flags is what they do not hold: no table under `path` was opened but those of
keys already read, and nothing at or above `path` is frozen.
-/

set_option autoImplicit false

namespace HsUploader.SinkSwitch

variable {F : Type}

/-! ## Dicts -/

theorem lookup_eq_none {k : Text} {ms : Members F} (h : k ∉ ms.map Prod.fst) :
    ms.lookup k = none := by
  rw [List.lookup_eq_none_iff]
  intro m hm
  rw [bne_iff_ne]
  rintro rfl
  exact h (List.mem_map_of_mem hm)

theorem lookup_append_self {k : Text} {ms : Members F} (h : k ∉ ms.map Prod.fst) (v : Value F) :
    (ms ++ [(k, v)]).lookup k = some v := by
  rw [List.lookup_append, lookup_eq_none h]
  simp

theorem setItem_new {k : Text} {ms : Members F} (h : k ∉ ms.map Prod.fst) (v : Value F) :
    setItem ms k v = ms ++ [(k, v)] := by
  simp [setItem, lookup_eq_none h]

theorem setItem_last {k : Text} {ms : Members F} (h : k ∉ ms.map Prod.fst) (v w : Value F) :
    setItem (ms ++ [(k, v)]) k w = ms ++ [(k, w)] := by
  have hms : ms.map (fun m ↦ if m.1 = k then (k, w) else m) = ms := by
    refine (List.map_congr_left fun m hm ↦ ?_).trans (List.map_id ms)
    rw [if_neg]
    · rfl
    rintro rfl
    exact h (List.mem_map_of_mem hm)
  simp [setItem, lookup_append_self h, hms]

/-- A path is gone down part by part. -/
theorem atNest_append (f : Members F → Option (Members F)) (p q : List Text) (d : Members F) :
    atNest f (p ++ q) d = atNest (atNest f q) p d := by
  induction p generalizing d with
  | nil => rfl
  | cons k p ih =>
    simp only [List.cons_append, atNest, ih]

/-- The document with the dict `d` at `path` is `ctx d`: a change to the dict at `path` is a change
to `d`. -/
def Opens (path : List Text) (ctx : Members F → Members F) : Prop :=
  ∀ f d, atNest f path (ctx d) = (f d).map ctx

theorem opens_nil : Opens [] (id : Members F → Members F) := fun f d ↦ by
  cases h : f d <;> simp [atNest, h]

theorem Opens.table {path : List Text} {ctx : Members F → Members F} (h : Opens path ctx)
    {cur : Members F} {k : Text} (hk : k ∉ cur.map Prod.fst) :
    Opens (path ++ [k]) fun d ↦ ctx (cur ++ [(k, .table d)]) := by
  intro f d
  rw [atNest_append, h]
  simp only [atNest, lookup_append_self hk]
  cases f d <;> simp [setItem_last hk]

theorem Opens.item {path : List Text} {ctx : Members F → Members F} (h : Opens path ctx)
    {cur : Members F} {k : Text} (hk : k ∉ cur.map Prod.fst) (done : List (Value F)) :
    Opens (path ++ [k]) fun d ↦ ctx (cur ++ [(k, .arr (done ++ [.table d]))]) := by
  intro f d
  rw [atNest_append, h]
  simp only [atNest, lookup_append_self hk, List.getLast?_concat, List.dropLast_concat]
  cases f d <;> simp [setItem_last hk]

/-! ## Flags -/

/-- The flags while the table at `path` is read and `ks` are the keys read so far. -/
structure Clear (path ks : List Text) (flags : Flags) : Prop where
  explicitNest : ∀ q ∈ flags.explicitNest, path <+: q → q ≠ path → ∃ k ∈ ks, path ++ [k] <+: q
  above : ∀ q ∈ flags.frozen, ¬ q <+: path
  below : ∀ q ∈ flags.frozen, path <+: q → ∃ k ∈ ks, path ++ [k] <+: q

/-- The second flags hold nothing new but at or under `path`. -/
structure Grows (path : List Text) (flags flags' : Flags) : Prop where
  explicitNest : ∀ q ∈ flags'.explicitNest, q ∈ flags.explicitNest ∨ path <+: q
  frozen : ∀ q ∈ flags'.frozen, q ∈ flags.frozen ∨ path <+: q

theorem Grows.refl (path : List Text) (flags : Flags) : Grows path flags flags :=
  ⟨fun _ h ↦ .inl h, fun _ h ↦ .inl h⟩

theorem Grows.trans {path : List Text} {a b c : Flags} (h₁ : Grows path a b) (h₂ : Grows path b c) :
    Grows path a c :=
  ⟨fun q hq ↦ (h₂.explicitNest q hq).elim (h₁.explicitNest q) .inr,
    fun q hq ↦ (h₂.frozen q hq).elim (h₁.frozen q) .inr⟩

theorem Grows.up {path : List Text} {k : Text} {a b : Flags} (h : Grows (path ++ [k]) a b) :
    Grows path a b :=
  ⟨fun q hq ↦ (h.explicitNest q hq).imp_right (List.prefix_append path [k]).trans,
    fun q hq ↦ (h.frozen q hq).imp_right (List.prefix_append path [k]).trans⟩

theorem not_prefix_of_below {path q : List Text} {k : Text} (h : path ++ [k] <+: q) :
    ¬ q <+: path := fun hq ↦ by
  have h₁ := h.length_le
  have h₂ := hq.length_le
  simp at h₁
  omega

theorem eq_of_below {path q : List Text} {k k' : Text} (h : path ++ [k] <+: q)
    (h' : path ++ [k'] <+: q) : k = k' := by
  obtain ⟨a, rfl⟩ := h
  obtain ⟨b, hb⟩ := h'
  simp only [List.append_assoc, List.append_cancel_left_eq, List.singleton_append,
    List.cons.injEq] at hb
  exact hb.1.symm

/-- What is under a new key counts as the key read. -/
theorem Clear.grow {path ks : List Text} {k : Text} {a b : Flags} (h : Clear path ks a)
    (hg : Grows (path ++ [k]) a b) : Clear path (ks ++ [k]) b where
  explicitNest q hq hp hne := by
    rcases hg.explicitNest q hq with hq | hq
    · obtain ⟨k', hk', hb⟩ := h.explicitNest q hq hp hne
      exact ⟨k', List.mem_append_left _ hk', hb⟩
    · exact ⟨k, by simp, hq⟩
  above q hq := by
    rcases hg.frozen q hq with hq | hq
    · exact h.above q hq
    · exact not_prefix_of_below hq
  below q hq hp := by
    rcases hg.frozen q hq with hq | hq
    · obtain ⟨k', hk', hb⟩ := h.below q hq hp
      exact ⟨k', List.mem_append_left _ hk', hb⟩
    · exact ⟨k, by simp, hq⟩

/-- A key that was not read has no flag on it. -/
theorem Clear.isExplicit {path ks : List Text} {k : Text} {flags : Flags} (h : Clear path ks flags)
    (hk : k ∉ ks) : flags.isExplicit (path ++ [k]) = false := by
  simp only [Flags.isExplicit, Bool.and_eq_false_iff]
  refine .inr (Bool.eq_false_iff.mpr fun hc ↦ ?_)
  obtain ⟨k', hk', hb⟩ := h.explicitNest _ (by simpa using hc) (List.prefix_append path [k])
    (by simp)
  obtain rfl := eq_of_below hb (List.prefix_refl _)
  exact hk hk'

/-- Under a key that was not read nothing is frozen, nor is anything above it. -/
theorem Clear.notFrozen {path ks : List Text} {k : Text} {flags : Flags} (h : Clear path ks flags)
    (hk : k ∉ ks) {q : List Text} (hq : q ∈ flags.frozen) :
    ¬ q <+: path ++ [k] ∧ ¬ path ++ [k] <+: q := by
  have hbelow : ¬ path ++ [k] <+: q := fun hb ↦ by
    obtain ⟨k', hk', hb'⟩ := h.below q hq ((List.prefix_append path [k]).trans hb)
    obtain rfl := eq_of_below hb' hb
    exact hk hk'
  refine ⟨fun hp ↦ ?_, hbelow⟩
  rcases List.prefix_concat_iff.mp hp with rfl | hp
  · exact hbelow (List.prefix_refl _)
  · exact h.above q hq hp

theorem isFrozen_eq_false {flags : Flags} {key : List Text} (h : ∀ q ∈ flags.frozen, ¬ q <+: key) :
    flags.isFrozen key = false := by
  simp only [Flags.isFrozen, Bool.and_eq_false_iff]
  refine .inr (Bool.eq_false_iff.mpr fun hc ↦ ?_)
  simp only [List.any_eq_true, List.isPrefixOf_iff_prefix] at hc
  obtain ⟨q, hq, hp⟩ := hc
  exact h q hq hp

/-- Going into the table of a new key. -/
theorem Clear.enter {path ks : List Text} {k : Text} {flags : Flags} (h : Clear path ks flags)
    (hk : k ∉ ks) : Clear (path ++ [k]) [] (flags.setExplicit (path ++ [k])) where
  explicitNest q hq hp hne := by
    rcases List.mem_cons.mp hq with rfl | hq
    · exact absurd rfl hne
    · obtain ⟨k', hk', hb⟩ := h.explicitNest q hq ((List.prefix_append path [k]).trans hp) (by
        rintro rfl
        exact not_prefix_of_below hp (List.prefix_refl _))
      obtain rfl := eq_of_below hb hp
      exact absurd hk' hk
  above q hq := (h.notFrozen hk hq).1
  below q hq hp := absurd hp (h.notFrozen hk hq).2

/-- Going into an item of an array. -/
theorem clear_item {here : List Text} {flags : Flags} (h : ∀ q ∈ flags.frozen, ¬ q <+: here) :
    Clear here [] ((flags.unsetAll here).setExplicit here) where
  explicitNest q hq hp hne := by
    rcases List.mem_cons.mp hq with rfl | hq
    · exact absurd rfl hne
    · have := (List.mem_filter.mp hq).2
      simp only [Bool.not_eq_eq_eq_not, Bool.not_true, ← Bool.not_eq_true,
        List.isPrefixOf_iff_prefix] at this
      exact absurd hp this
  above q hq := h q (List.mem_filter.mp hq).1
  below q hq hp := by
    have := (List.mem_filter.mp hq).2
    simp only [Bool.not_eq_eq_eq_not, Bool.not_true, ← Bool.not_eq_true,
      List.isPrefixOf_iff_prefix] at this
    exact absurd hp this

theorem grows_setExplicit (path : List Text) (flags : Flags) :
    Grows path flags (flags.setExplicit path) :=
  ⟨fun _ hq ↦ (List.mem_cons.mp hq).elim (fun h ↦ .inr (h ▸ List.prefix_refl _)) .inl,
    fun _ hq ↦ .inl hq⟩

theorem grows_item (here : List Text) (flags : Flags) :
    Grows here flags ((flags.unsetAll here).setExplicit here) :=
  ⟨fun _ hq ↦ (List.mem_cons.mp hq).elim (fun h ↦ .inr (h ▸ List.prefix_refl _))
      fun hq ↦ .inl (List.mem_filter.mp hq).1,
    fun _ hq ↦ .inl (List.mem_filter.mp hq).1⟩

theorem grows_setFrozen (path : List Text) (flags : Flags) :
    Grows path flags (flags.setFrozen path) :=
  ⟨fun _ hq ↦ .inl hq,
    fun _ hq ↦ (List.mem_cons.mp hq).elim (fun h ↦ .inr (h ▸ List.prefix_refl _)) .inl⟩

/-! ## The dict that is built -/

/-- The members of a dict whose value stands in a line. -/
def plainMembers (ms : Members F) : Members F := ms.filter fun m ↦ !m.2.isSub

mutual

/-- The value with the plain members of every table before its tables, as it is written. -/
def plainFirst : Value F → Value F
  | .table ms => .table (plainMembers ms ++ subMembers ms)
  | .arr items => .arr (plainFirstItems items)
  | v => v

/-- The items of a list, each so. -/
def plainFirstItems : List (Value F) → List (Value F)
  | [] => []
  | v :: vs => plainFirst v :: plainFirstItems vs

/-- The other members of a dict, each so. -/
def subMembers : Members F → Members F
  | [] => []
  | (k, v) :: ms => if v.isSub then (k, plainFirst v) :: subMembers ms else subMembers ms

end

theorem runAll_append (st : State F) (a b : List (Stmt F)) :
    runAll st (a ++ b) = (runAll st a).bind fun st ↦ runAll st b := List.foldlM_append

theorem runAll_cons (st : State F) (s : Stmt F) (ss : List (Stmt F)) :
    runAll st (s :: ss) = (s.run st).bind fun st ↦ runAll st ss := List.foldlM_cons

theorem finalizePending_eq {st : State F} (h : st.pending = []) : st.finalizePending = st := by
  obtain ⟨data, flags, header, pending⟩ := st
  subst h
  rfl

/-- **A line with a value** puts the value under its key. -/
theorem run_pair {path : List Text} {ctx : Members F → Members F} (ho : Opens path ctx)
    {cur : Members F} {flags : Flags} (hc : Clear path (cur.map Prod.fst) flags) {k : Text}
    (hk : k ∉ cur.map Prod.fst) (v : Value F) :
    ∃ flags', Stmt.run ⟨ctx cur, flags, path, []⟩ (.pair k v) =
        some ⟨ctx (cur ++ [(k, v)]), flags', path, []⟩ ∧
      Clear path ((cur ++ [(k, v)]).map Prod.fst) flags' ∧ Grows path flags flags' := by
  have hd := ho (fun nest ↦ if (nest.lookup k).isSome then none else some (setItem nest k v)) cur
  simp only [lookup_eq_none hk, Option.isSome_none, Bool.false_eq_true, if_false,
    setItem_new hk, Option.map_some] at hd
  have hconts : relativeConts path [k] = [] := rfl
  obtain ⟨flags', hrun, hg⟩ : ∃ flags', Stmt.run ⟨ctx cur, flags, path, []⟩ (.pair k v) =
      some ⟨ctx (cur ++ [(k, v)]), flags', path, []⟩ ∧ Grows (path ++ [k]) flags flags' := by
    simp only [Stmt.run, keyValue, hconts, List.any_nil, List.getLast?_singleton,
      Option.bind_eq_bind, Option.bind_some, List.dropLast_singleton, List.append_nil,
      isFrozen_eq_false hc.above, Bool.false_eq_true, if_false, hd]
    cases v with
    | arr | table => exact ⟨_, rfl, grows_setFrozen _ _⟩
    | _ => exact ⟨_, rfl, Grows.refl _ _⟩
  exact ⟨flags', hrun, by simpa using hc.grow hg, hg.up⟩

/-- **The header of a table** opens it under a new key. -/
theorem run_dict {path : List Text} {ctx : Members F → Members F} (ho : Opens path ctx)
    {cur : Members F} {flags : Flags} (hc : Clear path (cur.map Prod.fst) flags) {k : Text}
    (hk : k ∉ cur.map Prod.fst) (header : List Text) :
    Stmt.run ⟨ctx cur, flags, header, []⟩ (.dict (path ++ [k])) =
      some ⟨ctx (cur ++ [(k, .table [])]), flags.setExplicit (path ++ [k]), path ++ [k], []⟩ := by
  have hd : atNest some (path ++ [k]) (ctx cur) = some (ctx (cur ++ [(k, .table [])])) := by
    rw [atNest_append, ho]
    simp [atNest, lookup_eq_none hk, setItem_new hk]
  have hfrozen := isFrozen_eq_false fun q hq ↦ (hc.notFrozen hk hq).1
  simp only [Stmt.run, createDict, finalizePending_eq, hc.isExplicit hk, hfrozen, Bool.or_self,
    Bool.false_eq_true, if_false, hd, Option.bind_eq_bind, Option.bind_some]

/-- A dict with the items read so far of an array under `k`. -/
def withItems (cur : Members F) (k : Text) (done : List (Value F)) : Members F :=
  if done = [] then cur else cur ++ [(k, .arr done)]

/-- **The header of an item** appends an empty one to the array. -/
theorem run_list {path : List Text} {ctx : Members F → Members F} (ho : Opens path ctx)
    {cur : Members F} {flags : Flags} {k : Text} (hk : k ∉ cur.map Prod.fst)
    (hfrozen : ∀ q ∈ flags.frozen, ¬ q <+: path ++ [k]) (done : List (Value F))
    (header : List Text) :
    Stmt.run ⟨ctx (withItems cur k done), flags, header, []⟩ (.list (path ++ [k])) =
      some ⟨ctx (cur ++ [(k, .arr (done ++ [.table []]))]),
        (flags.unsetAll (path ++ [k])).setExplicit (path ++ [k]), path ++ [k], []⟩ := by
  have hd : appendNestToList (ctx (withItems cur k done)) (path ++ [k]) =
      some (ctx (cur ++ [(k, .arr (done ++ [.table []]))])) := by
    simp only [appendNestToList, List.getLast?_concat, Option.bind_eq_bind, Option.bind_some,
      List.dropLast_concat]
    rw [ho, withItems]
    split_ifs with hdone
    · subst hdone
      simp [lookup_eq_none hk, setItem_new hk]
    · simp [lookup_append_self hk, setItem_last hk]
  simp only [Stmt.run, createList, finalizePending_eq, isFrozen_eq_false hfrozen,
    Bool.false_eq_true, if_false, hd, Option.bind_eq_bind, Option.bind_some]

/-- The keys of the members are new and no two are the same. -/
def Fresh (cur ms : Members F) : Prop :=
  (ms.map Prod.fst).Nodup ∧ ∀ k ∈ ms.map Prod.fst, k ∉ cur.map Prod.fst

theorem Fresh.head {cur ms : Members F} {k : Text} {v : Value F} (h : Fresh cur ((k, v) :: ms)) :
    k ∉ cur.map Prod.fst := h.2 k List.mem_cons_self

theorem Fresh.tail {cur ms : Members F} {k : Text} {v : Value F} (h : Fresh cur ((k, v) :: ms))
    (w : Value F) : Fresh (cur ++ [(k, w)]) ms := by
  obtain ⟨hk, hms⟩ := List.nodup_cons.mp h.1
  refine ⟨hms, fun k' hk' ↦ ?_⟩
  rw [List.map_append, List.mem_append, not_or]
  refine ⟨h.2 k' (List.mem_cons_of_mem _ hk'), ?_⟩
  simp only [List.map_cons, List.map_nil, List.mem_singleton]
  rintro rfl
  exact hk hk'

theorem Fresh.skip {cur ms : Members F} {m : Text × Value F} (h : Fresh cur (m :: ms)) :
    Fresh cur ms :=
  ⟨(List.nodup_cons.mp h.1).2, fun k hk ↦ h.2 k (List.mem_cons_of_mem _ hk)⟩

/-- The lines of a table's first loop. -/
theorem run_plainStmts {path : List Text} {ctx : Members F → Members F} (ho : Opens path ctx)
    {ms cur : Members F} {flags : Flags} (hf : Fresh cur ms)
    (hc : Clear path (cur.map Prod.fst) flags) :
    ∃ flags', runAll ⟨ctx cur, flags, path, []⟩ (plainStmts ms) =
        some ⟨ctx (cur ++ plainMembers ms), flags', path, []⟩ ∧
      Clear path ((cur ++ plainMembers ms).map Prod.fst) flags' ∧ Grows path flags flags' := by
  induction ms generalizing cur flags with
  | nil => exact ⟨flags, by simp [plainStmts, plainMembers, runAll],
      by simpa [plainMembers] using hc, Grows.refl _ _⟩
  | cons m ms ih =>
    obtain ⟨k, v⟩ := m
    cases hv : v.isSub with
    | true =>
      simpa [plainStmts, plainMembers, hv] using ih hf.skip hc
    | false =>
      obtain ⟨flags₁, hrun, hc₁, hg₁⟩ := run_pair ho hc hf.head v
      obtain ⟨flags₂, hrun₂, hc₂, hg₂⟩ := ih (hf.tail v) hc₁
      have hp : plainMembers ((k, v) :: ms) = (k, v) :: plainMembers ms := by
        simp [plainMembers, hv]
      have hs : plainStmts ((k, v) :: ms) = .pair k v :: plainStmts ms := by
        simp [plainStmts, hv]
      rw [List.append_assoc, List.singleton_append, ← hp] at hrun₂ hc₂
      refine ⟨flags₂, ?_, hc₂, hg₁.trans hg₂⟩
      rw [hs, runAll_cons, hrun]
      exact hrun₂

/-! ## A whole table -/

theorem subMembers_keys (ms : Members F) :
    (subMembers ms).map Prod.fst = (ms.filter fun m ↦ m.2.isSub).map Prod.fst := by
  induction ms with
  | nil => rfl
  | cons m ms ih =>
    obtain ⟨k, v⟩ := m
    cases hv : v.isSub <;> simp [subMembers, hv, ih]

/-- The members are written in another order. -/
theorem keys_perm (ms : Members F) :
    ((plainMembers ms ++ subMembers ms).map Prod.fst).Perm (ms.map Prod.fst) := by
  rw [List.map_append, subMembers_keys, ← List.map_append]
  refine List.Perm.map _ (List.perm_append_comm.trans ?_)
  exact List.filter_append_perm _ ms

theorem fresh_subMembers {ms : Members F} (h : (ms.map Prod.fst).Nodup) :
    Fresh (plainMembers ms) (subMembers ms) := by
  have hp := (keys_perm ms).nodup_iff.mpr h
  rw [List.map_append, List.nodup_append'] at hp
  exact ⟨hp.2.1, fun k hk hk' ↦ hp.2.2 hk' hk⟩

theorem fresh_nil {ms : Members F} (h : (ms.map Prod.fst).Nodup) : Fresh [] ms :=
  ⟨h, fun _ _ ↦ List.not_mem_nil⟩

/-- The second loop of a table does what it should, wherever the table is. -/
def RunsSubs (ms : Members F) : Prop :=
  ∀ {path : List Text} {ctx : Members F → Members F} {cur : Members F} {flags : Flags}
    (header : List Text), Opens path ctx → Fresh cur (subMembers ms) →
    Clear path (cur.map Prod.fst) flags →
    ∃ flags' header', runAll ⟨ctx cur, flags, header, []⟩ (subStmts path ms) =
        some ⟨ctx (cur ++ subMembers ms), flags', header', []⟩ ∧
      Clear path ((cur ++ subMembers ms).map Prod.fst) flags' ∧ Grows path flags flags'

/-- **The statements of a table** fill it, its plain members first. -/
theorem run_stmts {ms : Members F} (hsubs : RunsSubs ms) (hms : (ms.map Prod.fst).Nodup)
    {path : List Text} {ctx : Members F → Members F} (ho : Opens path ctx) {flags : Flags}
    (hc : Clear path [] flags) :
    ∃ flags' header', runAll ⟨ctx [], flags, path, []⟩ (stmts path ms) =
        some ⟨ctx (plainMembers ms ++ subMembers ms), flags', header', []⟩ ∧
      Clear path ((plainMembers ms ++ subMembers ms).map Prod.fst) flags' ∧
      Grows path flags flags' := by
  obtain ⟨flags₁, hrun₁, hc₁, hg₁⟩ := run_plainStmts ho (fresh_nil hms) hc
  obtain ⟨flags₂, header, hrun₂, hc₂, hg₂⟩ := hsubs path ho (fresh_subMembers hms) hc₁
  refine ⟨flags₂, header, ?_, hc₂, hg₁.trans hg₂⟩
  rw [stmts, runAll_append, hrun₁]
  exact hrun₂

/-- No table among the values has a key twice. -/
def Distinct (vs : List (Value F)) : Prop := ∀ ms, .table ms ∈ vs → (ms.map Prod.fst).Nodup

theorem Distinct.left {a b : List (Value F)} (h : Distinct (a ++ b)) : Distinct a :=
  fun ms hms ↦ h ms (List.mem_append_left _ hms)

theorem Distinct.right {a b : List (Value F)} (h : Distinct (a ++ b)) : Distinct b :=
  fun ms hms ↦ h ms (List.mem_append_right _ hms)

theorem Distinct.tail {v : Value F} {vs : List (Value F)} (h : Distinct (v :: vs)) : Distinct vs :=
  fun ms hms ↦ h ms (List.mem_cons_of_mem _ hms)

variable (fl : Floats)

mutual

theorem runsSubs : ∀ (ms : Members fl.Finite), ShapedMembers fl ms →
    Distinct (Value.memberParts ms) → RunsSubs ms
  | [], _, _, _, _, cur, flags, header, _, _, hc => by
    refine ⟨flags, header, by simp [subStmts, subMembers, runAll], ?_, Grows.refl _ _⟩
    simpa [subMembers] using hc
  | (k, v) :: ms, hs, hd, path, ctx, cur, flags, header, ho, hf, hc => by
    cases hv : v.isSub with
    | false =>
      have hsub : subMembers ((k, v) :: ms) = subMembers ms := by simp [subMembers, hv]
      have hnone : subStmt path k v = [] := by
        cases v with
        | arr items =>
          cases items with
          | nil => rfl
          | cons item items => cases hv
        | table => cases hv
        | _ => rfl
      rw [hsub] at hf ⊢
      rw [subStmts, hnone, List.nil_append]
      exact runsSubs ms hs.2 hd.right header ho hf hc
    | true =>
      have hsub : subMembers ((k, v) :: ms) = (k, plainFirst v) :: subMembers ms := by
        simp [subMembers, hv]
      rw [hsub] at hf ⊢
      obtain ⟨flags₁, header₁, hrun₁, hg₁⟩ :=
        run_subStmt k v hs.1 hv hd.left header ho hc hf.head
      have hc₁ : Clear path ((cur ++ [(k, plainFirst v)]).map Prod.fst) flags₁ := by
        simpa using hc.grow hg₁
      obtain ⟨flags₂, header₂, hrun₂, hc₂, hg₂⟩ :=
        runsSubs ms hs.2 hd.right header₁ ho (hf.tail (plainFirst v)) hc₁
      rw [List.append_assoc, List.singleton_append] at hrun₂ hc₂
      refine ⟨flags₂, header₂, ?_, hc₂, hg₁.up.trans hg₂⟩
      rw [subStmts, runAll_append, hrun₁]
      exact hrun₂
termination_by ms => sizeOf ms

theorem run_subStmt (k : Text) : ∀ (v : Value fl.Finite), Shaped fl v → v.isSub →
    Distinct v.parts → ∀ {path : List Text} {ctx : Members fl.Finite → Members fl.Finite}
    {cur : Members fl.Finite} {flags : Flags} (header : List Text), Opens path ctx →
    Clear path (cur.map Prod.fst) flags → k ∉ cur.map Prod.fst →
    ∃ flags' header', runAll ⟨ctx cur, flags, header, []⟩ (subStmt path k v) =
        some ⟨ctx (cur ++ [(k, plainFirst v)]), flags', header', []⟩ ∧
      Grows (path ++ [k]) flags flags'
  | .table ms, hs, _, hd, path, ctx, cur, flags, header, ho, hc, hk => by
    obtain ⟨flags', header', hrun, -, hg⟩ := run_stmts (runsSubs ms hs hd.tail)
      (hd ms List.mem_cons_self) (ho.table hk) (hc.enter hk)
    refine ⟨flags', header', ?_, (grows_setExplicit _ _).trans hg⟩
    rw [subStmt, runAll_cons, run_dict ho hc hk]
    exact hrun
  | .arr items, hs, hv, hd, path, ctx, cur, flags, header, ho, hc, hk => by
    obtain ⟨flags', header', hrun, hg⟩ := run_itemStmts k items hs hd.tail [] header ho hk
      fun q hq ↦ (hc.notFrozen hk hq).1
    refine ⟨flags', header', ?_, hg⟩
    have hne : plainFirstItems items ≠ [] := by
      cases items with
      | nil => cases hv
      | cons item items => exact List.cons_ne_nil _ _
    rw [List.nil_append, withItems, withItems, if_pos rfl, if_neg hne] at hrun
    exact hrun
  | .str _, _, hv, _, _, _, _, _, _, _, _, _ | .bool _, _, hv, _, _, _, _, _, _, _, _, _
  | .int _, _, hv, _, _, _, _, _, _, _, _, _ | .float _, _, hv, _, _, _, _, _, _, _, _, _
  | .other _, _, hv, _, _, _, _, _, _, _, _, _ => by cases hv
termination_by v => sizeOf v

theorem run_itemStmts (k : Text) : ∀ (items : List (Value fl.Finite)), ShapedItems fl items →
    Distinct (Value.itemParts items) → ∀ (done : List (Value fl.Finite)) {path : List Text}
    {ctx : Members fl.Finite → Members fl.Finite} {cur : Members fl.Finite} {flags : Flags}
    (header : List Text), Opens path ctx → k ∉ cur.map Prod.fst →
    (∀ q ∈ flags.frozen, ¬ q <+: path ++ [k]) →
    ∃ flags' header',
      runAll ⟨ctx (withItems cur k done), flags, header, []⟩ (itemStmts (path ++ [k]) items) =
        some ⟨ctx (withItems cur k (done ++ plainFirstItems items)), flags', header', []⟩ ∧
      Grows (path ++ [k]) flags flags'
  | [], _, _, done, _, _, _, flags, header, _, _, _ => by
    refine ⟨flags, header, ?_, Grows.refl _ _⟩
    simp [itemStmts, plainFirstItems, runAll]
  | item :: items, hs, hd, done, path, ctx, cur, flags, header, ho, hk, hfrozen => by
    obtain ⟨flags₁, header₁, hrun₁, hfrozen₁, hg₁⟩ :=
      run_itemStmt k item hs.1.1 hs.1.2 hd.left done header ho hk hfrozen
    obtain ⟨flags₂, header₂, hrun₂, hg₂⟩ :=
      run_itemStmts k items hs.2 hd.right (done ++ [plainFirst item]) header₁ ho hk hfrozen₁
    refine ⟨flags₂, header₂, ?_, hg₁.trans hg₂⟩
    rw [List.append_assoc, List.singleton_append] at hrun₂
    rw [itemStmts, runAll_append, hrun₁, plainFirstItems]
    exact hrun₂
termination_by items => sizeOf items

theorem run_itemStmt (k : Text) : ∀ (v : Value fl.Finite), v.isTable → Shaped fl v →
    Distinct v.parts → ∀ (done : List (Value fl.Finite)) {path : List Text}
    {ctx : Members fl.Finite → Members fl.Finite} {cur : Members fl.Finite} {flags : Flags}
    (header : List Text), Opens path ctx → k ∉ cur.map Prod.fst →
    (∀ q ∈ flags.frozen, ¬ q <+: path ++ [k]) →
    ∃ flags' header',
      runAll ⟨ctx (withItems cur k done), flags, header, []⟩ (itemStmt (path ++ [k]) v) =
        some ⟨ctx (withItems cur k (done ++ [plainFirst v])), flags', header', []⟩ ∧
      (∀ q ∈ flags'.frozen, ¬ q <+: path ++ [k]) ∧ Grows (path ++ [k]) flags flags'
  | .table ms, _, hs, hd, done, path, ctx, cur, flags, header, ho, hk, hfrozen => by
    obtain ⟨flags', header', hrun, hc, hg⟩ := run_stmts (runsSubs ms hs hd.tail)
      (hd ms List.mem_cons_self) (ho.item hk done) (clear_item hfrozen)
    refine ⟨flags', header', ?_, hc.above, (grows_item _ _).trans hg⟩
    rw [itemStmt, runAll_cons, run_list ho hk hfrozen, withItems, if_neg (by simp)]
    exact hrun
  | .arr _, ht, _, _, _, _, _, _, _, _, _, _, _ | .str _, ht, _, _, _, _, _, _, _, _, _, _, _
  | .bool _, ht, _, _, _, _, _, _, _, _, _, _, _ | .int _, ht, _, _, _, _, _, _, _, _, _, _, _
  | .float _, ht, _, _, _, _, _, _, _, _, _, _, _
  | .other _, ht, _, _, _, _, _, _, _, _, _, _, _ => by cases ht
termination_by v => sizeOf v

end

/-- **The parser builds the mapping**, the plain members of every table first. -/
theorem run_document {ms : Members fl.Finite} (hs : ShapedMembers fl ms)
    (hd : Distinct (Value.table ms).parts) :
    (runAll ⟨[], ⟨[], []⟩, [], []⟩ (stmts [] ms)).map State.data =
      some (plainMembers ms ++ subMembers ms) := by
  have hc : Clear [] [] ⟨[], []⟩ := ⟨by simp, by simp, by simp⟩
  obtain ⟨flags, header, hrun, -, -⟩ := run_stmts (runsSubs fl ms hs hd.tail)
    (hd ms List.mem_cons_self) opens_nil hc
  rw [show (⟨[], ⟨[], []⟩, [], []⟩ : State fl.Finite) = ⟨id [], ⟨[], []⟩, [], []⟩ from rfl, hrun]
  rfl

end HsUploader.SinkSwitch
