import HsUploader.SinkSwitch.Statements

/-!
# What `_emit` writes, as statements

A mapping that `dumps_toml` accepts is shaped: its values are scalars, tables, and lists that are
empty or hold tables only.  What is written for it are the lines of its statements, and a key of
the mapping stands in some statement, as every key in a statement is one of the mapping's.
-/

set_option autoImplicit false

namespace HsUploader.SinkSwitch

section Statements

variable {F : Type}

/-- The statements of a table's first loop. -/
def plainStmts : Members F → List (Stmt F)
  | [] => []
  | (k, v) :: rest => (if v.isSub then [] else [.pair k v]) ++ plainStmts rest

mutual

/-- The statements of a table's second loop. -/
def subStmts (path : List Text) : Members F → List (Stmt F)
  | [] => []
  | (k, v) :: rest => subStmt path k v ++ subStmts path rest

/-- The statements of one turn of it. -/
def subStmt (path : List Text) (k : Text) : Value F → List (Stmt F)
  | .table members =>
    .dict (path ++ [k]) :: (plainStmts members ++ subStmts (path ++ [k]) members)
  | .arr items => itemStmts (path ++ [k]) items
  | _ => []

/-- The statements of an array's items. -/
def itemStmts (here : List Text) : List (Value F) → List (Stmt F)
  | [] => []
  | item :: items => itemStmt here item ++ itemStmts here items

/-- The statements of one item. -/
def itemStmt (here : List Text) : Value F → List (Stmt F)
  | .table members => .list here :: (plainStmts members ++ subStmts here members)
  | _ => []

end

/-- The statements of a table. -/
def stmts (path : List Text) (members : Members F) : List (Stmt F) :=
  plainStmts members ++ subStmts path members

end Statements

variable (fl : Floats)

mutual

/-- The value is one `dumps_toml` writes. -/
def Shaped : Value fl.Finite → Prop
  | .table members => ShapedMembers members
  | .arr items => ShapedItems items
  | v => Inline fl v

/-- The items of the list are tables that `dumps_toml` writes. -/
def ShapedItems : List (Value fl.Finite) → Prop
  | [] => True
  | v :: vs => (v.isTable ∧ Shaped v) ∧ ShapedItems vs

/-- The values of the dict are ones `dumps_toml` writes. -/
def ShapedMembers : Members fl.Finite → Prop
  | [] => True
  | (_, v) :: ms => Shaped v ∧ ShapedMembers ms

end

/-! ## The lines written -/

theorem followed_eq_ok {a b : Except String (List Text)} {lines : List Text}
    (h : followed a b = .ok lines) :
    ∃ x y, a = .ok x ∧ b = .ok y ∧ lines = x ++ y := by
  rcases a with e | x
  · cases h
  · rcases b with e | y
    · cases h
    · cases h
      exact ⟨x, y, rfl, rfl, rfl⟩

@[simp] theorem allLines_nil : allLines fl [] = [] := rfl

theorem allLines_cons (s : Stmt fl.Finite) (ss : List (Stmt fl.Finite)) :
    allLines fl (s :: ss) = s.lines fl ++ allLines fl ss := List.flatMap_cons

theorem allLines_append (a b : List (Stmt fl.Finite)) :
    allLines fl (a ++ b) = allLines fl a ++ allLines fl b := List.flatMap_append

/-- What one turn of the first loop writes. -/
theorem plainLine_ok {k : Text} {v : Value fl.Finite} {lines : List Text}
    (h : plainLine fl k v = .ok lines) :
    lines = allLines fl (if v.isSub then [] else [.pair k v]) ∧
      (v.isSub = false → Inline fl v) := by
  have hscalar : ∀ {v : Value fl.Finite}, v.isSub = false →
      (do pure [(← key k) ++ " = ".toList ++ (← scalar fl v)]) = Except.ok lines →
      lines = allLines fl [.pair k v] ∧ Inline fl v := by
    intro v _ h
    cases hk : key k with
    | error e => rw [hk] at h; cases h
    | ok t =>
      cases hs : scalar fl v with
      | error e => rw [hk, hs] at h; cases h
      | ok s =>
        rw [hk, hs] at h
        cases h
        refine ⟨?_, .inr ⟨s, hs⟩⟩
        simp [allLines, Stmt.lines, key_eq hk, valueText_scalar fl hs]
  cases v with
  | arr items =>
    cases items with
    | nil =>
      cases hk : key k with
      | error e => simp only [plainLine, hk] at h; cases h
      | ok t =>
        simp only [plainLine, hk] at h
        cases h
        refine ⟨?_, fun _ ↦ .inl rfl⟩
        simp [allLines, Stmt.lines, key_eq hk, Value.isSub, valueText]
    | cons item items =>
      cases h
      exact ⟨rfl, fun h ↦ by cases h⟩
  | table members =>
    cases h
    exact ⟨rfl, fun h ↦ by cases h⟩
  | str s => exact ⟨(hscalar rfl h).1, fun _ ↦ (hscalar rfl h).2⟩
  | bool b => exact ⟨(hscalar rfl h).1, fun _ ↦ (hscalar rfl h).2⟩
  | int n => exact ⟨(hscalar rfl h).1, fun _ ↦ (hscalar rfl h).2⟩
  | float x => exact ⟨(hscalar rfl h).1, fun _ ↦ (hscalar rfl h).2⟩
  | other t => exact ⟨(hscalar rfl h).1, fun _ ↦ (hscalar rfl h).2⟩

theorem emitPlain_ok {ms : Members fl.Finite} {lines : List Text}
    (h : emitPlain fl ms = .ok lines) :
    lines = allLines fl (plainStmts ms) ∧ ∀ m ∈ ms, m.2.isSub = false → Inline fl m.2 := by
  induction ms generalizing lines with
  | nil =>
    cases h
    exact ⟨rfl, by simp⟩
  | cons m ms ih =>
    obtain ⟨k, v⟩ := m
    obtain ⟨x, y, hx, hy, rfl⟩ := followed_eq_ok h
    obtain ⟨hl, hv⟩ := plainLine_ok fl hx
    obtain ⟨hl', hvs⟩ := ih hy
    refine ⟨by rw [plainStmts, allLines_append, hl, hl'], ?_⟩
    rintro m hm
    rcases List.mem_cons.mp hm with rfl | hm
    · exact hv
    · exact hvs m hm

theorem map_keyText_append (path : List Text) (k : Text) :
    path.map keyText ++ [keyText k] = (path ++ [k]).map keyText := by
  simp

/-- The values the second loop writes are shaped when those of the first are. -/
theorem shapedMembers_of {ms : Members fl.Finite}
    (hplain : ∀ m ∈ ms, m.2.isSub = false → Inline fl m.2)
    (hsub : ∀ m ∈ ms, m.2.isSub → Shaped fl m.2) : ShapedMembers fl ms := by
  induction ms with
  | nil => trivial
  | cons m ms ih =>
    refine ⟨?_, ih (fun m h ↦ hplain m (List.mem_cons_of_mem _ h))
      (fun m h ↦ hsub m (List.mem_cons_of_mem _ h))⟩
    cases hm : m.2.isSub with
    | true => exact hsub m List.mem_cons_self hm
    | false =>
      rcases hplain m List.mem_cons_self hm with h | ⟨t, h⟩
      · rw [h]; trivial
      · obtain ⟨k, v⟩ := m
        cases v with
        | arr => cases h
        | table => cases h
        | _ => exact .inr ⟨t, h⟩

mutual

theorem emitSubs_ok (path : List Text) : ∀ (ms : Members fl.Finite) {lines : List Text},
    emitSubs fl (path.map keyText) ms = .ok lines →
      lines = allLines fl (subStmts path ms) ∧ ∀ m ∈ ms, m.2.isSub → Shaped fl m.2
  | [], _, h => by
    cases h
    exact ⟨rfl, by simp⟩
  | (k, v) :: ms, _, h => by
    obtain ⟨x, y, hx, hy, rfl⟩ := followed_eq_ok h
    obtain ⟨hl, hv⟩ := emitSub_ok path k v hx
    obtain ⟨hl', hvs⟩ := emitSubs_ok path ms hy
    refine ⟨by rw [subStmts, allLines_append, hl, hl'], ?_⟩
    rintro m hm
    rcases List.mem_cons.mp hm with rfl | hm
    · exact hv
    · exact hvs m hm

theorem emitSub_ok (path : List Text) (k : Text) : ∀ (v : Value fl.Finite) {lines : List Text},
    emitSub fl (path.map keyText) k v = .ok lines →
      lines = allLines fl (subStmt path k v) ∧ (v.isSub → Shaped fl v)
  | .table members, lines, h => by
    cases hk : key k with
    | error e => simp only [emitSub, hk] at h; cases h
    | ok t =>
      simp only [emitSub, hk] at h
      have h : followed (pure [[], '[' :: dotted (path.map keyText ++ [t]) ++ [']']])
          (followed (emitPlain fl members) (emitSubs fl (path.map keyText ++ [t]) members)) =
          .ok lines := h
      obtain ⟨x, y, hx, hy, rfl⟩ := followed_eq_ok h
      obtain ⟨p, s, hp, hs, rfl⟩ := followed_eq_ok hy
      cases hx
      obtain ⟨hl, hplain⟩ := emitPlain_ok fl hp
      rw [key_eq hk, map_keyText_append] at hs ⊢
      obtain ⟨hl', hsub⟩ := emitSubs_ok (path ++ [k]) members hs
      refine ⟨?_, fun _ ↦ shapedMembers_of fl hplain hsub⟩
      rw [subStmt, allLines_cons, allLines_append, hl, hl']
      rfl
  | .arr [], lines, h => by
    cases h
    exact ⟨rfl, fun h ↦ by cases h⟩
  | .arr (item :: items), lines, h => by
    cases hk : key k with
    | error e => simp only [emitSub, hk] at h; cases h
    | ok t =>
      simp only [emitSub, hk] at h
      have h : (if isTableArray (item :: items) then
          followed (emitItem fl (path.map keyText ++ [t]) item)
            (emitItems fl (path.map keyText ++ [t]) items)
          else throw (Toml.reprText (String.ofList k) ++ ": only arrays of tables are supported")) =
          .ok lines := h
      by_cases ht : isTableArray (item :: items)
      · rw [if_pos ht] at h
        have hall : ∀ v ∈ item :: items, v.isTable := by
          simpa [isTableArray] using ht
        rw [key_eq hk, map_keyText_append] at h
        obtain ⟨x, y, hx, hy, rfl⟩ := followed_eq_ok h
        obtain ⟨hl, hv⟩ := emitItem_ok (path ++ [k]) item hx (hall _ List.mem_cons_self)
        obtain ⟨hl', hvs⟩ := emitItems_ok (path ++ [k]) items hy
          fun v hv ↦ hall v (List.mem_cons_of_mem _ hv)
        refine ⟨by rw [subStmt, itemStmts, allLines_append, hl, hl'], fun _ ↦ ?_⟩
        exact ⟨⟨hall _ List.mem_cons_self, hv⟩, hvs⟩
      · rw [if_neg ht] at h
        cases h
  | .str _, _, h => by cases h; exact ⟨rfl, fun h ↦ by cases h⟩
  | .bool _, _, h => by cases h; exact ⟨rfl, fun h ↦ by cases h⟩
  | .int _, _, h => by cases h; exact ⟨rfl, fun h ↦ by cases h⟩
  | .float _, _, h => by cases h; exact ⟨rfl, fun h ↦ by cases h⟩
  | .other _, _, h => by cases h; exact ⟨rfl, fun h ↦ by cases h⟩

theorem emitItems_ok (here : List Text) : ∀ (items : List (Value fl.Finite)) {lines : List Text},
    emitItems fl (here.map keyText) items = .ok lines → (∀ v ∈ items, v.isTable) →
      lines = allLines fl (itemStmts here items) ∧ ShapedItems fl items
  | [], _, h, _ => by
    cases h
    exact ⟨rfl, trivial⟩
  | item :: items, _, h, hall => by
    obtain ⟨x, y, hx, hy, rfl⟩ := followed_eq_ok h
    obtain ⟨hl, hv⟩ := emitItem_ok here item hx (hall _ List.mem_cons_self)
    obtain ⟨hl', hvs⟩ := emitItems_ok here items hy fun v hv ↦ hall v (List.mem_cons_of_mem _ hv)
    exact ⟨by rw [itemStmts, allLines_append, hl, hl'], ⟨hall _ List.mem_cons_self, hv⟩, hvs⟩

theorem emitItem_ok (here : List Text) : ∀ (v : Value fl.Finite) {lines : List Text},
    emitItem fl (here.map keyText) v = .ok lines → v.isTable →
      lines = allLines fl (itemStmt here v) ∧ Shaped fl v
  | .table members, lines, h, _ => by
    obtain ⟨x, y, hx, hy, rfl⟩ := followed_eq_ok h
    obtain ⟨p, s, hp, hs, rfl⟩ := followed_eq_ok hy
    cases hx
    obtain ⟨hl, hplain⟩ := emitPlain_ok fl hp
    obtain ⟨hl', hsub⟩ := emitSubs_ok here members hs
    refine ⟨?_, shapedMembers_of fl hplain hsub⟩
    rw [itemStmt, allLines_cons, allLines_append, hl, hl']
    rfl
  | .arr _, _, _, ht => by cases ht
  | .str _, _, _, ht => by cases ht
  | .bool _, _, _, ht => by cases ht
  | .int _, _, _, ht => by cases ht
  | .float _, _, _, ht => by cases ht
  | .other _, _, _, ht => by cases ht

end

/-- **What `_emit` writes are the lines of the table's statements.** -/
theorem emit_ok {ms : Members fl.Finite} {lines : List Text} (h : emit fl ms [] = .ok lines) :
    lines = allLines fl (stmts [] ms) ∧ Shaped fl (.table ms) := by
  obtain ⟨x, y, hx, hy, rfl⟩ := followed_eq_ok h
  obtain ⟨hl, hplain⟩ := emitPlain_ok fl hx
  obtain ⟨hl', hsub⟩ := emitSubs_ok fl [] ms hy
  exact ⟨by rw [stmts, allLines_append, hl, hl'], shapedMembers_of fl hplain hsub⟩

/-! ## The keys written -/

theorem inline_of_shaped {v : Value fl.Finite} (h : Shaped fl v) (hv : v.isSub = false) :
    Inline fl v := by
  cases v with
  | arr items =>
    cases items with
    | nil => exact .inl rfl
    | cons item items => cases hv
  | table => cases hv
  | _ => exact h

/-- A statement a table with the header `path` can hold: its keys are those of the path and keys of
the table. -/
structure StmtOf (path keys : List Text) (s : Stmt fl.Finite) : Prop where
  good : s.Good fl
  keys : ∀ k ∈ s.keys, k ∈ path ∨ k ∈ keys

theorem StmtOf.mono {path path' keys keys' : List Text} {s : Stmt fl.Finite}
    (h : StmtOf fl path keys s) (hpath : ∀ k ∈ path, k ∈ path' ∨ k ∈ keys')
    (hkeys : ∀ k ∈ keys, k ∈ keys') : StmtOf fl path' keys' s :=
  ⟨h.good, fun k hk ↦ (h.keys k hk).elim (hpath k) fun h ↦ .inr (hkeys k h)⟩

theorem plainStmts_of (path : List Text) {ms : Members fl.Finite} (h : ShapedMembers fl ms) :
    ∀ s ∈ plainStmts ms, StmtOf fl path (Value.memberKeys ms) s := by
  induction ms with
  | nil => simp [plainStmts]
  | cons m ms ih =>
    obtain ⟨k, v⟩ := m
    intro s hs
    rcases List.mem_append.mp hs with hs | hs
    · cases hv : v.isSub with
      | true => simp [hv] at hs
      | false =>
        obtain rfl : s = .pair k v := by simpa [hv] using hs
        refine ⟨inline_of_shaped fl h.1 hv, fun k' hk' ↦ .inr ?_⟩
        obtain rfl : k' = k := by simpa [Stmt.keys] using hk'
        exact List.mem_cons_self
    · exact (ih h.2 s hs).mono fl (fun k hk ↦ .inl hk)
        fun k hk ↦ List.mem_cons_of_mem _ (List.mem_append_right _ hk)

mutual

theorem subStmts_of (path : List Text) : ∀ (ms : Members fl.Finite), ShapedMembers fl ms →
    ∀ s ∈ subStmts path ms, StmtOf fl path (Value.memberKeys ms) s
  | [], _, s, hs => by simp [subStmts] at hs
  | (k, v) :: ms, h, s, hs => by
    rcases List.mem_append.mp hs with hs | hs
    · refine (subStmt_of path k v h.1 s hs).mono fl (fun k' hk' ↦ ?_)
        fun k' hk' ↦ List.mem_cons_of_mem _ (List.mem_append_left _ hk')
      rcases List.mem_append.mp hk' with hk' | hk'
      · exact .inl hk'
      · obtain rfl : k' = k := by simpa using hk'
        exact .inr List.mem_cons_self
    · exact (subStmts_of path ms h.2 s hs).mono fl (fun k hk ↦ .inl hk)
        fun k hk ↦ List.mem_cons_of_mem _ (List.mem_append_right _ hk)

theorem subStmt_of (path : List Text) (k : Text) : ∀ (v : Value fl.Finite), Shaped fl v →
    ∀ s ∈ subStmt path k v, StmtOf fl (path ++ [k]) v.keys s
  | .table members, h, s, hs => by
    rcases List.mem_cons.mp hs with rfl | hs
    · exact ⟨by simp [Stmt.Good], fun k hk ↦ .inl hk⟩
    · rcases List.mem_append.mp hs with hs | hs
      · exact plainStmts_of fl (path ++ [k]) h s hs
      · exact subStmts_of (path ++ [k]) members h s hs
  | .arr items, h, s, hs => itemStmts_of (path ++ [k]) (by simp) items h s hs
  | .str _, _, s, hs | .bool _, _, s, hs | .int _, _, s, hs | .float _, _, s, hs
  | .other _, _, s, hs => by simp [subStmt] at hs

theorem itemStmts_of (here : List Text) (hne : here ≠ []) : ∀ (items : List (Value fl.Finite)),
    ShapedItems fl items → ∀ s ∈ itemStmts here items, StmtOf fl here (Value.itemKeys items) s
  | [], _, s, hs => by simp [itemStmts] at hs
  | item :: items, h, s, hs => by
    rcases List.mem_append.mp hs with hs | hs
    · exact (itemStmt_of here hne item h.1.2 s hs).mono fl (fun k hk ↦ .inl hk)
        fun k hk ↦ List.mem_append_left _ hk
    · exact (itemStmts_of here hne items h.2 s hs).mono fl (fun k hk ↦ .inl hk)
        fun k hk ↦ List.mem_append_right _ hk

theorem itemStmt_of (here : List Text) (hne : here ≠ []) : ∀ (v : Value fl.Finite), Shaped fl v →
    ∀ s ∈ itemStmt here v, StmtOf fl here v.keys s
  | .table members, h, s, hs => by
    rcases List.mem_cons.mp hs with rfl | hs
    · exact ⟨hne, fun k hk ↦ .inl hk⟩
    · rcases List.mem_append.mp hs with hs | hs
      · exact plainStmts_of fl here h s hs
      · exact subStmts_of here members h s hs
  | .arr _, _, s, hs | .str _, _, s, hs | .bool _, _, s, hs | .int _, _, s, hs
  | .float _, _, s, hs | .other _, _, s, hs => by simp [itemStmt] at hs

end

theorem stmts_of {ms : Members fl.Finite} (h : ShapedMembers fl ms) {s : Stmt fl.Finite}
    (hs : s ∈ stmts [] ms) : StmtOf fl [] (Value.memberKeys ms) s := by
  rcases List.mem_append.mp hs with hs | hs
  · exact plainStmts_of fl [] h s hs
  · exact subStmts_of fl [] ms h s hs

theorem mem_plainStmts {F : Type} {k : Text} {v : Value F} {ms : Members F} (h : (k, v) ∈ ms)
    (hv : v.isSub = false) : Stmt.pair k v ∈ plainStmts ms := by
  induction ms with
  | nil => simp at h
  | cons m ms ih =>
    rcases List.mem_cons.mp h with rfl | h
    · simp [plainStmts, hv]
    · exact List.mem_append_right _ (ih h)

/-- A key is spelled in one of the statements. -/
def Spelled {F : Type} (k : Text) (ss : List (Stmt F)) : Prop := ∃ s ∈ ss, k ∈ s.keys

theorem Spelled.mono {F : Type} {k : Text} {a b : List (Stmt F)} (h : Spelled k a)
    (hab : ∀ s ∈ a, s ∈ b) : Spelled k b :=
  h.imp fun s hs ↦ ⟨hab s hs.1, hs.2⟩

theorem spelled_subStmts {F : Type} {path : List Text} {k k' : Text} {v : Value F} {ms : Members F}
    (hm : (k, v) ∈ ms) (h : Spelled k' (subStmt path k v)) : Spelled k' (subStmts path ms) := by
  induction ms with
  | nil => simp at hm
  | cons m ms ih =>
    rcases List.mem_cons.mp hm with rfl | hm
    · exact h.mono fun s hs ↦ List.mem_append_left _ hs
    · exact (ih hm).mono fun s hs ↦ List.mem_append_right _ hs

/-- The key of a member is spelled, in its line or in a header. -/
theorem spelled_key (path : List Text) {k : Text} {v : Value fl.Finite} {ms : Members fl.Finite}
    (hm : (k, v) ∈ ms) (h : Shaped fl v) : Spelled k (stmts path ms) := by
  cases hv : v.isSub with
  | false =>
    exact ⟨.pair k v, List.mem_append_left _ (mem_plainStmts hm hv), by simp [Stmt.keys]⟩
  | true =>
    have hs : Spelled k (subStmt path k v) := by
      cases v with
      | table members => exact ⟨.dict (path ++ [k]), List.mem_cons_self, by simp [Stmt.keys]⟩
      | arr items =>
        cases items with
        | nil => cases hv
        | cons item items =>
          have ht := h.1.1
          cases item with
          | table members => exact ⟨.list (path ++ [k]), List.mem_cons_self, by simp [Stmt.keys]⟩
          | _ => cases ht
      | _ => cases hv
    exact (spelled_subStmts hm hs).mono fun s hs ↦ List.mem_append_right _ hs

mutual

/-- The keys inside a member are spelled. -/
theorem spelled_keys (path : List Text) (k : Text) : ∀ (v : Value fl.Finite), Shaped fl v →
    ∀ k' ∈ v.keys, Spelled k' (subStmt path k v)
  | .table members, h, k', hk' =>
    (spelled_memberKeys (path ++ [k]) members h k' hk').mono fun _ hs ↦ List.mem_cons_of_mem _ hs
  | .arr items, h, k', hk' => spelled_itemKeys (path ++ [k]) items h k' hk'
  | .str _, _, k', hk' | .bool _, _, k', hk' | .int _, _, k', hk' | .float _, _, k', hk'
  | .other _, _, k', hk' => by simp [Value.keys] at hk'

theorem spelled_memberKeys (path : List Text) : ∀ (ms : Members fl.Finite), ShapedMembers fl ms →
    ∀ k ∈ Value.memberKeys ms, Spelled k (stmts path ms)
  | [], _, k, hk => by simp [Value.memberKeys] at hk
  | (k, v) :: ms, h, k', hk' => by
    rcases List.mem_cons.mp hk' with rfl | hk'
    · exact spelled_key fl path List.mem_cons_self h.1
    · rcases List.mem_append.mp hk' with hk' | hk'
      · have hs : Spelled k' (subStmts path ((k, v) :: ms)) :=
          spelled_subStmts List.mem_cons_self (spelled_keys path k v h.1 k' hk')
        exact hs.mono fun s hs ↦ List.mem_append_right _ hs
      · refine (spelled_memberKeys path ms h.2 k' hk').mono fun s hs ↦ ?_
        rcases List.mem_append.mp hs with hs | hs
        · exact List.mem_append_left _ (List.mem_append_right _ hs)
        · exact List.mem_append_right _ (List.mem_append_right _ hs)

theorem spelled_itemKeys (here : List Text) : ∀ (items : List (Value fl.Finite)),
    ShapedItems fl items → ∀ k ∈ Value.itemKeys items, Spelled k (itemStmts here items)
  | [], _, k, hk => by simp [Value.itemKeys] at hk
  | item :: items, h, k, hk => by
    rcases List.mem_append.mp hk with hk | hk
    · exact (spelled_itemKey here item h.1 k hk).mono fun s hs ↦ List.mem_append_left _ hs
    · exact (spelled_itemKeys here items h.2 k hk).mono fun s hs ↦ List.mem_append_right _ hs

theorem spelled_itemKey (here : List Text) : ∀ (v : Value fl.Finite), v.isTable ∧ Shaped fl v →
    ∀ k ∈ v.keys, Spelled k (itemStmt here v)
  | .table members, h, k, hk =>
    (spelled_memberKeys here members h.2 k hk).mono fun _ hs ↦ List.mem_cons_of_mem _ hs
  | .arr _, h, _, _ | .str _, h, _, _ | .bool _, h, _, _ | .int _, h, _, _
  | .float _, h, _, _ | .other _, h, _, _ => by cases h.1

end

/-- **A key of the mapping is broken exactly when a statement's is.** -/
theorem broken_iff {ms : Members fl.Finite} (h : ShapedMembers fl ms) :
    (∃ s ∈ stmts [] ms, s.Broken) ↔ ∃ k ∈ Value.memberKeys ms, brokenKey k := by
  constructor
  · rintro ⟨s, hs, k, hk, hbroken⟩
    rcases (stmts_of fl h hs).keys k hk with hk | hk
    · simp at hk
    · exact ⟨k, hk, hbroken⟩
  · rintro ⟨k, hk, hbroken⟩
    obtain ⟨s, hs, hks⟩ := spelled_memberKeys fl [] ms h k hk
    exact ⟨s, hs, k, hks, hbroken⟩

end HsUploader.SinkSwitch
