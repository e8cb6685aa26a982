import Mathlib.Data.Bool.AllAny
import Mathlib.Data.List.DropRight
import HsUploader.Sources.Selection
import HsUploader.Sources.WsprCycle

/-!
# The producer of a row that names none

Two readers assign a `psk` row that names no producer: the SQL rule of `_D12_BY_PRODUCER` and the
writer's `infer_producer`.  Both ask whether the mode, trimmed and folded, reads `msk144`.  SQLite
trims spaces and folds the ASCII capitals; Python strips all white space and folds the Kelvin sign
to a `k`.  So Python's rule takes a few texts more, and `Misread` says which.
-/

set_option autoImplicit false

namespace HsUploader

open WsprCycleSource (isStripped pyLower inferProducer)

/-! ## Stripping and folding -/

/-- The text is the mode, each letter folded by `f`, between characters that `p` strips. -/
def Folds (f : Char → Char) (p : Char → Bool) (cs : List Char) : Prop :=
  ∃ a t b, cs = a ++ t ++ b ∧ (∀ c ∈ a ++ b, p c = true) ∧ t.map f = "msk144".toList

section strip

variable {α : Type} {p : α → Bool}

theorem dropWhile_append_neg {a u : List α} (ha : ∀ c ∈ a, p c = true)
    (hu : ∀ c ∈ u.head?, p c = false) : (a ++ u).dropWhile p = u := by
  rw [List.dropWhile_append_of_pos ha]
  cases u with
  | nil => rfl
  | cons c u => rw [List.dropWhile_cons_of_neg (by simpa using hu c rfl)]

theorem rdropWhile_append_neg {u b : List α} (hb : ∀ c ∈ b, p c = true)
    (hu : ∀ c ∈ u.getLast?, p c = false) : (u ++ b).rdropWhile p = u := by
  rw [List.rdropWhile, List.reverse_append, dropWhile_append_neg (by simpa using hb)
    (by simpa using hu), List.reverse_reverse]

/-- Stripping leaves a list none of whose elements is stripped exactly when the list is this one,
between elements that are. -/
theorem strip_eq_iff {cs t : List α} (ht : ∀ c ∈ t, p c = false) (hne : t ≠ []) :
    (cs.dropWhile p).rdropWhile p = t ↔
      ∃ a b, cs = a ++ t ++ b ∧ ∀ c ∈ a ++ b, p c = true := by
  constructor
  · intro hstrip
    refine ⟨cs.takeWhile p, (cs.dropWhile p).rtakeWhile p, ?_, fun c hc ↦ ?_⟩
    · rw [List.append_assoc, ← hstrip, List.rdropWhile_append_rtakeWhile,
        List.takeWhile_append_dropWhile]
    · rcases List.mem_append.mp hc with hc | hc
      · exact List.mem_takeWhile_imp hc
      · exact List.mem_rtakeWhile_imp hc
  · rintro ⟨a, b, rfl, hab⟩
    rw [List.forall_mem_append] at hab
    have hhead : ∀ c ∈ (t ++ b).head?, p c = false := by
      intro c hc
      rw [List.head?_append_of_ne_nil _ hne] at hc
      exact ht c (List.mem_of_mem_head? hc)
    rw [List.append_assoc, dropWhile_append_neg hab.1 hhead]
    exact rdropWhile_append_neg hab.2 fun c hc ↦ ht c (List.mem_of_mem_getLast? hc)

end strip

/-- A text that strips and folds to the mode. -/
theorem folds_iff {f : Char → Char} {p : Char → Bool}
    (hf : ∀ c, f c ∈ "msk144".toList → p c = false) (cs : List Char) :
    ((cs.dropWhile p).rdropWhile p).map f = "msk144".toList ↔ Folds f p cs := by
  have hclean : ∀ t : List Char, t.map f = "msk144".toList → ∀ c ∈ t, p c = false :=
    fun t ht c hc ↦ hf c (ht ▸ List.mem_map_of_mem hc)
  have hne : ∀ t : List Char, t.map f = "msk144".toList → t ≠ [] := by
    rintro t ht rfl
    cases ht
  constructor
  · intro h
    obtain ⟨a, b, hcs, hab⟩ := (strip_eq_iff (hclean _ h) (hne _ h)).mp rfl
    exact ⟨a, _, b, hcs, hab, h⟩
  · rintro ⟨a, t, b, hcs, hab, ht⟩
    rw [(strip_eq_iff (hclean t ht) (hne t ht)).mpr ⟨a, b, hcs, hab⟩, ht]

/-! ## The letters -/

/-- U+212A, which `str.lower` makes a `k`. -/
def kelvinSign : Char := Char.ofNat 0x212a

theorem msk144_toList : "msk144".toList = ['m', 's', 'k', '1', '4', '4'] := rfl

/-- What ASCII folding takes for a letter of the mode: the letter or its capital. -/
theorem toLower_mem {c : Char} (h : c.toLower ∈ "msk144".toList) :
    c ∈ ['m', 'M', 's', 'S', 'k', 'K', '1', '4'] := by
  rw [msk144_toList] at h
  unfold Char.toLower at h
  split at h
  · simp only [List.mem_cons, List.not_mem_nil, or_false, Char.ext_iff] at h ⊢
    grind
  · simp only [List.mem_cons, List.not_mem_nil, or_false] at h ⊢
    tauto

/-- What Python's folding takes for one: the Kelvin sign besides. -/
theorem pyLower_mem {c : Char} (h : pyLower c ∈ "msk144".toList) :
    c = kelvinSign ∨ c ∈ ['m', 'M', 's', 'S', 'k', 'K', '1', '4'] := by
  rw [pyLower] at h
  split at h
  · rename_i hk
    refine .inl ?_
    rw [kelvinSign, ← hk, Char.ofNat_toNat]
  · exact .inr (toLower_mem h)

theorem isStripped_of_pyLower (c : Char) (h : pyLower c ∈ "msk144".toList) :
    isStripped c = false := by
  rcases pyLower_mem h with rfl | hc
  · decide
  · have hall : ∀ c ∈ ['m', 'M', 's', 'S', 'k', 'K', '1', '4'], isStripped c = false :=
      List.all_iff_forall_prop.mp (by decide)
    exact hall c hc

theorem pyLower_of_toLower {c : Char} (h : c.toLower ∈ "msk144".toList) :
    pyLower c = c.toLower ∧ c ≠ kelvinSign ∧ isStripped c = false := by
  have hall : ∀ c ∈ ['m', 'M', 's', 'S', 'k', 'K', '1', '4'],
      pyLower c = c.toLower ∧ c ≠ kelvinSign ∧ isStripped c = false :=
    List.all_iff_forall_prop.mp (by decide)
  exact hall c (toLower_mem h)

/-! ## Two readings of one text -/

/-- A text that Python's rule takes for the mode, while it holds white space other than the space
around the mode, or a Kelvin sign in it. -/
def MisreadText (cs : List Char) : Prop :=
  ∃ a t b, cs = a ++ t ++ b ∧ (∀ c ∈ a ++ b, isStripped c = true) ∧
    t.map pyLower = "msk144".toList ∧ (kelvinSign ∈ t ∨ ∃ c ∈ a ++ b, c ≠ ' ')

theorem MisreadText.folds {cs : List Char} (h : MisreadText cs) : Folds pyLower isStripped cs := by
  obtain ⟨a, t, b, hcs, hab, ht, -⟩ := h
  exact ⟨a, t, b, hcs, hab, ht⟩

/-- **SQLite takes a text for the mode exactly when Python does**, the misread texts apart. -/
theorem folds_toLower_iff (cs : List Char) :
    Folds Char.toLower (· = ' ') cs ↔ Folds pyLower isStripped cs ∧ ¬ MisreadText cs := by
  constructor
  · rintro ⟨a, t, b, hcs, hab, ht⟩
    have hletter : ∀ c ∈ t, pyLower c = c.toLower ∧ c ≠ kelvinSign ∧ isStripped c = false :=
      fun c hc ↦ pyLower_of_toLower (ht ▸ List.mem_map_of_mem hc)
    have hspace : ∀ c ∈ a ++ b, isStripped c = true := fun c hc ↦ by
      rw [of_decide_eq_true (hab c hc)]
      rfl
    refine ⟨⟨a, t, b, hcs, hspace, ?_⟩, ?_⟩
    · rw [← ht]
      exact List.map_congr_left fun c hc ↦ (hletter c hc).1
    · rintro ⟨a', t', b', hcs', hab', ht', hodd⟩
      -- Every character of the text is a letter of `t` or a space.
      have hchar : ∀ c ∈ cs, c ∈ t ∨ c = ' ' := by
        intro c hc
        rw [hcs, List.mem_append, List.mem_append] at hc
        rcases hc with (hc | hc) | hc
        · exact .inr (of_decide_eq_true (hab c (List.mem_append_left _ hc)))
        · exact .inl hc
        · exact .inr (of_decide_eq_true (hab c (List.mem_append_right _ hc)))
      rcases hodd with hk | ⟨c, hc, hne⟩
      · rcases hchar kelvinSign (by rw [hcs']; simp [hk]) with hmem | heq
        · exact (hletter _ hmem).2.1 rfl
        · exact absurd heq (by decide)
      · have hmem : c ∈ cs := by
          rw [hcs']
          rcases List.mem_append.mp hc with hc | hc <;> simp [hc]
        rcases hchar c hmem with hmem | heq
        · have hs := (hletter c hmem).2.2
          rw [hab' c hc] at hs
          cases hs
        · exact hne heq
  · rintro ⟨⟨a, t, b, hcs, hab, ht⟩, hodd⟩
    have hplain : kelvinSign ∉ t ∧ ∀ c ∈ a ++ b, c = ' ' := by
      constructor
      · exact fun hk ↦ hodd ⟨a, t, b, hcs, hab, ht, .inl hk⟩
      · intro c hc
        by_contra hne
        exact hodd ⟨a, t, b, hcs, hab, ht, .inr ⟨c, hc, hne⟩⟩
    refine ⟨a, t, b, hcs, fun c hc ↦ decide_eq_true (hplain.2 c hc), ?_⟩
    rw [← ht]
    refine List.map_congr_left fun c hc ↦ ?_
    rw [pyLower, if_neg fun hk ↦ hplain.1 ?_]
    rw [kelvinSign, ← hk, Char.ofNat_toNat]
    exact hc

/-! ## The two rules -/

/-- SQLite's reading of a text. -/
theorem sqlMode_iff (s : String) :
    sqlLower (sqlTrim s) = "msk144" ↔ Folds Char.toLower (· = ' ') s.toList := by
  have hf : ∀ c : Char, c.toLower ∈ "msk144".toList → decide (c = ' ') = false := fun c hc ↦ by
    rw [decide_eq_false_iff_not]
    rintro rfl
    exact absurd (toLower_mem hc) (by decide)
  rw [← folds_iff hf, sqlLower, sqlTrim, String.toList_ofList, List.rdropWhile, ← String.toList_inj,
    String.toList_ofList]

/-- A text that begins otherwise is not the mode. -/
theorem not_folds_of_head {cs : List Char} (h : ∀ c ∈ cs.head?, c ≠ ' ' ∧ c ≠ 'm' ∧ c ≠ 'M') :
    ¬ Folds Char.toLower (· = ' ') cs := by
  rintro ⟨a, t, b, rfl, hab, ht⟩
  obtain ⟨c, t, rfl⟩ : ∃ c t', t = c :: t' := by
    cases t with
    | nil => cases ht
    | cons c t' => exact ⟨c, t', rfl⟩
  cases a with
  | nil =>
    rw [List.map_cons, msk144_toList, List.cons.injEq] at ht
    have hc : c ∈ ['m', 'M', 's', 'S', 'k', 'K', '1', '4'] := toLower_mem (by simp [ht.1])
    have hm : c = 'm' ∨ c = 'M' := by
      have hall : ∀ c ∈ ['m', 'M', 's', 'S', 'k', 'K', '1', '4'], c.toLower = 'm' →
          c = 'm' ∨ c = 'M' := List.all_iff_forall_prop.mp (by decide)
      exact hall c hc ht.1
    have hne := h c rfl
    rcases hm with rfl | rfl
    · exact hne.2.1 rfl
    · exact hne.2.2 rfl
  | cons d a => exact (h d rfl).1 (of_decide_eq_true (hab d (by simp)))

theorem mem_repr_nat {m : ℕ} {c : Char} (hc : c ∈ m.repr.toList) : c.isDigit = true := by
  rw [Nat.toList_repr] at hc
  exact Nat.isDigit_of_mem_toDigits (by decide) (by decide) hc

/-- The characters of a number's text. -/
theorem mem_toString_int {n : ℤ} {c : Char} (hc : c ∈ (toString n).toList) :
    c.isDigit = true ∨ c = '-' := by
  rw [Int.toString_eq_repr, Int.repr_eq_if] at hc
  split at hc
  · exact .inl (mem_repr_nat hc)
  · rw [String.toList_append, List.mem_append] at hc
    rcases hc with hc | hc
    · exact .inr (by simpa using hc)
    · exact .inl (mem_repr_nat hc)

theorem ne_of_isDigit {c : Char} (h : c.isDigit = true ∨ c = '-' ∨ c = '/') :
    c ≠ ' ' ∧ c ≠ 'm' ∧ c ≠ 'M' := by
  refine ⟨?_, ?_, ?_⟩ <;> rintro rfl <;> revert h <;> decide

/-- SQLite takes no value but a text for the mode. -/
theorem sqlMode_of_not_str {j : Json} (hj : ∀ s, j ≠ .str s) :
    sqlLower (sqlTrim ((Payload.toSql j).asText.getD "")) ≠ "msk144" := by
  rw [ne_eq, sqlMode_iff]
  refine not_folds_of_head fun c hc ↦ ?_
  have hmem := List.mem_of_mem_head? hc
  cases j with
  | null => cases hc
  | bool b =>
    have hall : ∀ c ∈ ((Payload.toSql (.bool b)).asText.getD "").toList,
        c ≠ ' ' ∧ c ≠ 'm' ∧ c ≠ 'M' := List.all_iff_forall_prop.mp (by cases b <;> decide)
    exact hall c hmem
  | int n => exact ne_of_isDigit ((mem_toString_int hmem).imp_right .inl)
  | float m e =>
    refine ne_of_isDigit ?_
    rw [Payload.toSql, SqlValue.asText, Option.getD_some, String.toList_append,
      String.toList_append, List.mem_append, List.mem_append] at hmem
    rcases hmem with (hmem | hmem) | hmem
    · exact (mem_toString_int hmem).imp_right .inl
    · exact .inr (.inr (by simpa using hmem))
    · exact .inl (mem_repr_nat hmem)
  | str s => exact absurd rfl (hj s)
  | arr items =>
    rw [Payload.toSql, SqlValue.asText, Json.render, Option.getD_some, String.append_assoc,
      String.toList_append] at hc
    cases hc
    decide
  | obj members =>
    rw [Payload.toSql, SqlValue.asText, Json.render, Option.getD_some, String.append_assoc,
      String.toList_append] at hc
    cases hc
    decide

/-! ## The rows -/

/-- The payload's mode is a text that the two rules read differently. -/
def Misread (members : List (String × Json)) : Prop :=
  ∃ s, Json.get members "mode" = some (.str s) ∧ MisreadText s.toList

section row

variable {members : List (String × Json)} {r : Row}

/-- `infer_producer`, by the mode. -/
theorem inferProducer_eq (members : List (String × Json)) :
    inferProducer (.obj members) = "meteor-scatter" ∧
        (∃ s, Json.get members "mode" = some (.str s) ∧ Folds pyLower isStripped s.toList) ∨
      inferProducer (.obj members) = "psk-recorder" ∧
        ¬ ∃ s, Json.get members "mode" = some (.str s) ∧ Folds pyLower isStripped s.toList := by
  rw [inferProducer]
  split
  · rename_i hmode
    refine .inl ⟨rfl, ?_⟩
    split at hmode
    · rename_i s hs
      exact ⟨s, hs, (folds_iff isStripped_of_pyLower _).mp (Option.some.inj hmode)⟩
    · cases hmode
  · rename_i hmode
    refine .inr ⟨rfl, ?_⟩
    rintro ⟨s, hs, hfolds⟩
    refine hmode ?_
    rw [hs]
    exact congrArg some ((folds_iff isStripped_of_pyLower _).mpr hfolds)

/-- With one member of that name at most, SQLite reads the mode that Python does. -/
theorem jsonExtract_mode (hr : r.payloadJson = .ofJson (.obj members))
    (hone : (members.filter fun m ↦ m.1 = "mode").length ≤ 1) :
    r.payloadJson.jsonExtract "mode" =
      .ok (((Json.get members "mode").map Payload.toSql).getD .null) := by
  have hsame : members.find? (fun m ↦ m.1 = "mode") =
      (members.filter fun m ↦ m.1 = "mode").getLast? := by
    rw [← List.head?_filter]
    cases hmembers : members.filter fun m ↦ m.1 = "mode" with
    | nil => rfl
    | cons m ms =>
      rw [hmembers, List.length_cons] at hone
      rw [List.eq_nil_of_length_eq_zero (show ms.length = 0 by omega)]
      rfl
  have hextract : r.payloadJson.jsonExtract "mode" = .ok (((members.find? fun m ↦
      m.1 = "mode").map fun m ↦ Payload.toSql m.2).getD .null) := by
    rw [hr]
    rfl
  rw [hextract, Json.get, hsame, Option.map_map]
  rfl

/-- The SQL rule takes the row for meteor scatter exactly when Python does, unless it is misread. -/
theorem d12Mode_eq (hr : r.payloadJson = .ofJson (.obj members))
    (hone : (members.filter fun m ↦ m.1 = "mode").length ≤ 1) :
    ∃ mode, d12Mode r = .ok mode ∧
      (mode = "msk144" ↔ inferProducer (.obj members) = "meteor-scatter" ∧ ¬ Misread members) := by
  refine ⟨_, by rw [d12Mode, jsonExtract_mode hr hone]; rfl, ?_⟩
  have hinfer := inferProducer_eq members
  by_cases htext : ∃ s, Json.get members "mode" = some (.str s)
  · obtain ⟨s, hs⟩ := htext
    have hmode : ∀ P : String → Prop,
        (∃ t, Json.get members "mode" = some (.str t) ∧ P t) ↔ P s := by
      intro P
      rw [hs]
      constructor
      · rintro ⟨t, ht, hp⟩
        cases ht
        exact hp
      · exact fun hp ↦ ⟨s, rfl, hp⟩
    rw [hmode] at hinfer
    rw [hs]
    change sqlLower (sqlTrim s) = "msk144" ↔ _
    rw [sqlMode_iff, folds_toLower_iff, Misread, hmode]
    rcases hinfer with ⟨hp, hf⟩ | ⟨hp, hf⟩ <;> rw [hp] <;> simp [hf]
  · have hpsk : inferProducer (.obj members) = "psk-recorder" :=
      (hinfer.resolve_left fun h ↦ htext (h.2.imp fun _ hs ↦ hs.1)).1
    rw [hpsk]
    refine iff_of_false ?_ (by simp)
    cases hget : Json.get members "mode" with
    | none => decide
    | some j =>
      refine sqlMode_of_not_str fun s hs ↦ htext ⟨s, ?_⟩
      rw [hget, hs]

/-- The scope of one producer, without a receiver. -/
def Scope.of (producer : String) (hne : producer ≠ "") : Scope :=
  { producer, producer_ne := hne, radiodId_ne := by simp }

/-- The scope clause of a row that names no producer, or whose table has no column for one. -/
theorem passes_scope {sc : Scope} (hid : sc.radiodId = none) {hasProducer : Bool}
    (hnone : hasProducer = true → r.producer = "") {mode : String} (hmode : d12Mode r = .ok mode) :
    Passes (scopeClauses hasProducer (some sc)) r ↔
      sc.producer = "meteor-scatter" ∧ mode = "msk144" ∨
        sc.producer = "psk-recorder" ∧ mode ≠ "msk144" := by
  have hclause : ∀ {d12 : Clause} {v : Bool}, d12ByProducer sc.producer = some d12 →
      d12 r = .ok (some v) → (Passes (scopeClauses hasProducer (some sc)) r ↔ v = true) := by
    intro d12 v hd hv
    rw [scopeClauses.eq_def]
    dsimp only
    rw [hid, hd, passes_cons]
    cases hasProducer with
    | false => simp [hv, passes_nil]
    | true =>
      have hne : "" ≠ sc.producer := sc.producer_ne.symm
      have hrule : producerClause sc.producer d12 r = .ok (some v) := by
        rw [producerClause.eq_def, hnone rfl, if_neg hne, if_pos rfl, hv]
      simp [hrule, passes_nil]
  by_cases hms : sc.producer = "meteor-scatter"
  · have hd : d12ByProducer sc.producer =
        some fun r ↦ (d12Mode r).map fun m ↦ some (decide (m = "msk144")) := if_pos hms
    have hv : (d12Mode r).map (fun m ↦ some (decide (m = "msk144"))) =
        .ok (some (decide (mode = "msk144"))) := by
      rw [hmode]
      rfl
    rw [hclause hd hv, hms]
    simp
  · by_cases hpsk : sc.producer = "psk-recorder"
    · have hd : d12ByProducer sc.producer =
          some fun r ↦ (d12Mode r).map fun m ↦ some (decide (m ≠ "msk144")) :=
        (if_neg hms).trans (if_pos hpsk)
      have hv : (d12Mode r).map (fun m ↦ some (decide (m ≠ "msk144"))) =
          .ok (some (decide (mode ≠ "msk144"))) := by
        rw [hmode]
        rfl
      rw [hclause hd hv, hpsk]
      simp
    · have hd : d12ByProducer sc.producer = none := by
        rw [d12ByProducer, if_neg hms, if_neg hpsk]
      rw [scopeClauses.eq_def]
      dsimp only
      rw [hid, hd, passes_cons]
      refine iff_of_false ?_ (by simp [hms, hpsk])
      rintro ⟨hp, -⟩
      cases hasProducer with
      | false => simp [Clause.column] at hp
      | true =>
        have hp' : r.producer = sc.producer := by simpa [Clause.column] using hp
        exact sc.producer_ne (hp'.symm.trans (hnone rfl))

end row

/-- **The SQL rule against the writer's.**  For a `psk` row that names no producer, the clause of
every scope selects the row exactly when `infer_producer` names the scope's producer, and the two
known scopes between them select it once, if and only if its mode is not misread; and that second
part holds in any case. -/
theorem d12_agrees_iff (members : List (String × Json))
    (hone : (members.filter fun m ↦ m.1 = "mode").length ≤ 1) (r : Row)
    (hr : r.payloadJson = .ofJson (.obj members)) (hasProducer : Bool)
    (hnone : hasProducer = true → r.producer = "") :
    let selects (sc : Scope) := Passes (scopeClauses hasProducer (some sc)) r
    let once := Xor (selects (.of "psk-recorder" (by decide)))
      (selects (.of "meteor-scatter" (by decide)))
    (((∀ sc : Scope, sc.radiodId = none →
        (selects sc ↔ inferProducer (.obj members) = sc.producer)) ∧ once) ↔ ¬ Misread members) ∧
      once := by
  intro selects once
  obtain ⟨mode, hmode, hiff⟩ := d12Mode_eq hr hone
  have hsel : ∀ sc : Scope, sc.radiodId = none → (selects sc ↔
      sc.producer = "meteor-scatter" ∧ mode = "msk144" ∨
        sc.producer = "psk-recorder" ∧ mode ≠ "msk144") :=
    fun sc hid ↦ passes_scope hid hnone hmode
  have honce : once := by
    have hpsk := hsel (.of "psk-recorder" (by decide)) rfl
    have hms := hsel (.of "meteor-scatter" (by decide)) rfl
    by_cases hm : mode = "msk144"
    · exact .inr ⟨hms.mpr (.inl ⟨rfl, hm⟩), fun h ↦ by simpa [Scope.of, hm] using hpsk.mp h⟩
    · exact .inl ⟨hpsk.mpr (.inr ⟨rfl, hm⟩), fun h ↦ by simpa [Scope.of, hm] using hms.mp h⟩
  refine ⟨⟨fun hall hmis ↦ ?_, fun hread ↦ ⟨fun sc hid ↦ ?_, honce⟩⟩, honce⟩
  · -- Python reads the mode where SQLite does not.
    obtain ⟨s, hs, htext⟩ := hmis
    have hms : inferProducer (.obj members) = "meteor-scatter" := by
      rcases inferProducer_eq members with ⟨hp, -⟩ | ⟨-, hno⟩
      · exact hp
      · exact absurd ⟨s, hs, htext.folds⟩ hno
    have hpass := (hall.1 (.of "meteor-scatter" (by decide)) rfl).mpr hms
    rcases (hsel _ rfl).mp hpass with ⟨-, hm⟩ | ⟨hname, -⟩
    · exact (hiff.mp hm).2 ⟨s, hs, htext⟩
    · exact absurd hname (by simp [Scope.of])
  · rw [hsel sc hid]
    rcases inferProducer_eq members with ⟨hp, -⟩ | ⟨hp, -⟩
    · have hm : mode = "msk144" := hiff.mpr ⟨hp, hread⟩
      simp [hp, hm, eq_comm]
    · have hm : mode ≠ "msk144" := fun hm ↦ by
        rw [hp] at hiff
        exact absurd (hiff.mp hm).1 (by decide)
      simp [hp, hm, eq_comm]

/-- A `psk` row with a mode, which names no producer. -/
def modeRow (mode : String) : Row where
  id := 1
  targetDb := "psk"
  targetTable := "spots"
  schemaVersion := 1
  payloadJson := .ofJson (.obj [("mode", .str mode)])
  queuedAt := "2026-07-01 00:00:00.000"

theorem d12_agrees_iff_modeRow :
    let selects (sc : Scope) := Passes (scopeClauses true (some sc)) (modeRow " MSK144 ")
    let once := Xor (selects (.of "psk-recorder" (by decide)))
      (selects (.of "meteor-scatter" (by decide)))
    (((∀ sc : Scope, sc.radiodId = none →
        (selects sc ↔ inferProducer (.obj [("mode", .str " MSK144 ")]) = sc.producer)) ∧ once) ↔
      ¬ Misread [("mode", .str " MSK144 ")]) ∧ once :=
  d12_agrees_iff [("mode", .str " MSK144 ")] (by decide) (modeRow " MSK144 ") rfl true fun _ ↦ rfl

/-- A newline behind the mode: Python strips it, SQLite does not. -/
theorem newline_misread :
    ¬ ∀ (members : List (String × Json)) (r : Row), r.payloadJson = .ofJson (.obj members) →
      r.producer = "" → ∀ sc : Scope, sc.radiodId = none →
      (Passes (scopeClauses true (some sc)) r ↔ inferProducer (.obj members) = sc.producer) := by
  intro hevery
  have hiff := hevery [("mode", .str "msk144\n")] (modeRow "msk144\n") rfl rfl
    (.of "meteor-scatter" (by decide)) rfl
  have hpass := hiff.mpr (by decide)
  revert hpass
  decide

end HsUploader
