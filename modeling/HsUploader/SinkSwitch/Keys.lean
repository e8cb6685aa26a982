import Mathlib.Data.List.TakeDrop
import HsUploader.SinkSwitch.Tomllib

/-!
# What the parser makes of a key

A key that is written as a basic string reads back, and so does one that is bare from end to end.
`_BARE_KEY` also matches a bare text with a line break after it: such a key is broken, and what the
parser reads of it is the part before the break.
-/

set_option autoImplicit false

namespace HsUploader.SinkSwitch

/-! ## Strings -/

theorem hexChar_hex4 : ∀ n < 128, hexChar (hex4 n) = some (Char.ofNat n) := by decide +kernel

theorem parseBasicStr_escape (c : Char) (rest : Text) :
    parseBasicStr (escape c ++ rest) = (parseBasicStr rest).map (prepend c) := by
  rw [escape]
  split_ifs with h₁ h₂ h₃ h₄ h₅ h₆ h₇ h₈
  · subst h₁; simp [parseBasicStr, unescape]
  · subst h₂; simp [parseBasicStr, unescape]
  · subst h₃; simp [parseBasicStr, unescape]
  · subst h₄; simp [parseBasicStr, unescape]
  · subst h₅; simp [parseBasicStr, unescape]
  · subst h₆; simp [parseBasicStr, unescape]
  · subst h₇; simp [parseBasicStr, unescape]
  · have hn : c.toNat < 128 := by
      simp only [Bool.or_eq_true, decide_eq_true_eq] at h₈
      omega
    have hx : hexChar (hex4 c.toNat) = some c := by
      rw [hexChar_hex4 _ hn, Char.ofNat_toNat]
    rw [hex4] at hx ⊢
    simp [parseBasicStr, hx]
  · have hc : isIllegal c = false := by
      simp only [isIllegal, Bool.and_eq_false_iff]
      exact .inl (Bool.eq_false_iff.mpr h₈)
    rw [List.singleton_append, parseBasicStr.eq_def]
    simp [h₁, h₂, hc]

/-- A basic string reads back as the text it was written for. -/
theorem parseBasicStr_str (s rest : Text) :
    parseBasicStr (s.flatMap escape ++ '"' :: rest) = some (s, rest) := by
  induction s with
  | nil => simp [parseBasicStr.eq_def ('"' :: rest)]
  | cons c s ih =>
    rw [List.flatMap_cons, List.append_assoc, parseBasicStr_escape, ih]
    rfl

/-! ## Keys -/

/-- `_BARE_KEY` matches the key up to a line break at its end. -/
def brokenKey (k : Text) : Bool := bareKey k && k.getLast? = some '\n'

/-- The text can follow a key: it does not go on with a bare character. -/
def Stops (rest : Text) : Prop := ∀ c ∈ rest.head?, isBare c = false

theorem span_isBare {k rest : Text} (hk : ∀ c ∈ k, isBare c) (hrest : Stops rest) :
    (k ++ rest).span isBare = (k, rest) := by
  rw [List.span_eq_takeWhile_dropWhile]
  have ht : rest.takeWhile isBare = [] := by
    cases rest with
    | nil => rfl
    | cons c rest => simp [hrest c rfl]
  have hd : rest.dropWhile isBare = rest := by
    cases rest with
    | nil => rfl
    | cons c rest => simp [hrest c rfl]
  rw [List.takeWhile_append_of_pos hk, List.dropWhile_append_of_pos hk, ht, hd, List.append_nil]

/-- A run of bare characters is read up to its end. -/
theorem parseKeyPart_bare {k rest : Text} (hne : k ≠ []) (hk : ∀ c ∈ k, isBare c)
    (hrest : Stops rest) : parseKeyPart (k ++ rest) = some (k, rest) := by
  obtain ⟨c, cs, rfl⟩ := List.exists_cons_of_ne_nil hne
  rw [List.cons_append, parseKeyPart, if_pos (hk c List.mem_cons_self)]
  exact congrArg some (span_isBare hk hrest)

theorem parseKeyPart_str (k rest : Text) : parseKeyPart (str k ++ rest) = some (k, rest) := by
  simp only [str, List.cons_append, List.append_assoc, List.nil_append, parseKeyPart]
  exact parseBasicStr_str k rest

/-- The body of a key that `_BARE_KEY` matches. -/
theorem bareKey_body {k : Text} (h : bareKey k) :
    ∃ body, body ≠ [] ∧ (∀ c ∈ body, isBare c) ∧
      k = if k.getLast? = some '\n' then body ++ ['\n'] else body := by
  simp only [bareKey, Bool.and_eq_true, decide_eq_true_eq, List.all_eq_true] at h
  refine ⟨_, h.1, h.2, ?_⟩
  split
  · rename_i hl
    obtain ⟨body, rfl⟩ := List.getLast?_eq_some_iff.mp hl
    simp
  · rfl

/-- The text of a key that is not empty. -/
def keyText (k : Text) : Text := if bareKey k then k else str k

theorem key_eq {k t : Text} (h : key k = .ok t) : t = keyText k := by
  rw [key] at h
  rw [keyText]
  split_ifs at h ⊢ <;> cases h <;> rfl

/-- A key that is not broken reads back. -/
theorem parseKeyPart_keyText {k rest : Text} (hk : brokenKey k = false) (hrest : Stops rest) :
    parseKeyPart (keyText k ++ rest) = some (k, rest) := by
  rw [keyText]
  split_ifs with hbare
  · obtain ⟨body, hbody, hall, heq⟩ := bareKey_body hbare
    have hlast : k.getLast? ≠ some '\n' := by
      simpa [brokenKey, hbare] using hk
    rw [if_neg hlast] at heq
    subst heq
    exact parseKeyPart_bare hbody hall hrest
  · exact parseKeyPart_str k rest

/-- A broken key is written as another key and a line break. -/
theorem keyText_of_broken {k : Text} (hk : brokenKey k) :
    ∃ body, brokenKey body = false ∧ keyText k = keyText body ++ ['\n'] := by
  simp only [brokenKey, Bool.and_eq_true, decide_eq_true_eq] at hk
  obtain ⟨body, hbody, hall, heq⟩ := bareKey_body hk.1
  rw [if_pos hk.2] at heq
  have hlast : body.getLast? ≠ some '\n' := by
    intro h
    exact absurd (hall _ (List.mem_of_getLast? h)) (by decide)
  have hbare : bareKey body := by
    simp [bareKey, hlast, hbody]
    simpa using hall
  refine ⟨body, ?_, ?_⟩
  · simp [brokenKey, hlast]
  · rw [keyText, if_pos hk.1, keyText, if_pos hbare]
    exact heq

/-- A key's text starts with a bare character or a quote. -/
theorem keyText_head (k : Text) : ∃ c cs, keyText k = c :: cs ∧ (isBare c ∨ c = '"') := by
  rw [keyText]
  split_ifs with hbare
  · obtain ⟨body, hbody, hall, heq⟩ := bareKey_body hbare
    obtain ⟨c, cs, rfl⟩ := List.exists_cons_of_ne_nil hbody
    split at heq
    · exact ⟨c, cs ++ ['\n'], heq, .inl (hall c List.mem_cons_self)⟩
    · exact ⟨c, cs, heq, .inl (hall c List.mem_cons_self)⟩
  · exact ⟨'"', _, rfl, .inr rfl⟩

theorem isWs_of_head {c : Char} (h : isBare c ∨ c = '"') : isWs c = false := by
  rcases h with h | rfl
  · by_contra hws
    simp only [isWs, Bool.not_eq_false, Bool.or_eq_true, decide_eq_true_eq] at hws
    rcases hws with rfl | rfl <;> exact absurd h (by decide)
  · decide

theorem skipWs_cons {c : Char} (h : isWs c = false) (rest : Text) :
    skipWs (c :: rest) = c :: rest := by
  simp [skipWs, h]

theorem skipWs_keyText (k rest : Text) : skipWs (keyText k ++ rest) = keyText k ++ rest := by
  obtain ⟨c, cs, h, hc⟩ := keyText_head k
  rw [h, List.cons_append, skipWs_cons (isWs_of_head hc)]

/-! ## Dotted keys -/

/-- The parts of a dotted key after the first. -/
def dottedRest (ks : List Text) : Text := ks.flatMap fun k ↦ '.' :: keyText k

theorem dotted_cons (k : Text) (ks : List Text) :
    dotted ((k :: ks).map keyText) = keyText k ++ dottedRest ks := by
  induction ks generalizing k with
  | nil => simp [dotted, dottedRest, List.intercalate]
  | cons k' ks ih =>
    have h := ih k'
    simp only [dotted, List.map_cons, List.intercalate_cons_cons] at h ⊢
    rw [h]
    simp [dottedRest]

theorem length_le_dottedRest (ks : List Text) : ks.length ≤ (dottedRest ks).length := by
  induction ks with
  | nil => simp
  | cons k ks ih =>
    simp only [dottedRest, List.flatMap_cons, List.length_append, List.length_cons] at ih ⊢
    omega

/-- The text can follow a dotted key: neither a bare character nor a further part comes next. -/
structure Ends (rest : Text) : Prop where
  stops : Stops rest
  noPart : (skipWs rest).head? ≠ some '.'

theorem stops_dottedRest (ks : List Text) {rest : Text} (h : Stops rest) :
    Stops (dottedRest ks ++ rest) := by
  cases ks with
  | nil => exact h
  | cons k ks =>
    intro c hc
    cases hc
    decide

theorem parseKeyRest_end {n : ℕ} {text : Text} (h : text.head? ≠ some '.') :
    parseKeyRest n text = some ([], text) := by
  unfold parseKeyRest
  split
  · exact absurd rfl h
  · rfl

theorem parseKeyRest_dotted {ks : List Text} (hks : ∀ k ∈ ks, brokenKey k = false) {rest : Text}
    (hrest : Ends rest) {n : ℕ} (hn : ks.length ≤ n) :
    parseKeyRest n (skipWs (dottedRest ks ++ rest)) = some (ks, skipWs rest) := by
  induction ks generalizing n with
  | nil => exact parseKeyRest_end hrest.noPart
  | cons k ks ih =>
    obtain ⟨n, rfl⟩ : ∃ m, n = m + 1 := ⟨n - 1, by simp at hn; omega⟩
    have htext : dottedRest (k :: ks) ++ rest = '.' :: (keyText k ++ (dottedRest ks ++ rest)) := by
      simp [dottedRest]
    rw [htext, skipWs_cons (by decide), parseKeyRest, skipWs_keyText,
      parseKeyPart_keyText (hks k List.mem_cons_self) (stops_dottedRest ks hrest.stops)]
    have := ih (fun k hk ↦ hks k (List.mem_cons_of_mem _ hk)) (n := n) (by simpa using hn)
    simp [this]

/-- A dotted key whose parts are not broken reads back. -/
theorem parseKey_dotted {path : List Text} (hne : path ≠ [])
    (hpath : ∀ k ∈ path, brokenKey k = false) {rest : Text} (hrest : Ends rest) :
    parseKey (dotted (path.map keyText) ++ rest) = some (path, skipWs rest) := by
  obtain ⟨k, ks, rfl⟩ := List.exists_cons_of_ne_nil hne
  have hlen : ks.length ≤ (dottedRest ks ++ rest).length := by
    have := length_le_dottedRest ks
    rw [List.length_append]
    omega
  have hks := parseKeyRest_dotted (fun k hk ↦ hpath k (List.mem_cons_of_mem _ hk)) hrest hlen
  rw [dotted_cons, List.append_assoc, parseKey,
    parseKeyPart_keyText (hpath k List.mem_cons_self) (stops_dottedRest ks hrest.stops)]
  rw [List.length_append] at hks
  simp [hks]

/-- Up to its first broken part a dotted key is a dotted key and a line break. -/
theorem dottedRest_broken {ks : List Text} (h : ∃ k ∈ ks, brokenKey k) :
    ∃ front tail, (∀ k ∈ front, brokenKey k = false) ∧
      dottedRest ks = dottedRest front ++ '\n' :: tail := by
  induction ks with
  | nil => simp at h
  | cons k ks ih =>
    by_cases hk : brokenKey k
    · obtain ⟨body, hbody, htext⟩ := keyText_of_broken hk
      exact ⟨[body], dottedRest ks, by simpa using hbody, by simp [dottedRest, htext]⟩
    · obtain ⟨front, tail, hfront, htext⟩ := ih (by simpa [hk] using h)
      refine ⟨k :: front, tail, by simpa [hk] using hfront, ?_⟩
      simp only [dottedRest, List.flatMap_cons, List.append_assoc] at htext ⊢
      rw [htext]

theorem dotted_broken {path : List Text} (h : ∃ k ∈ path, brokenKey k) :
    ∃ front tail, front ≠ [] ∧ (∀ k ∈ front, brokenKey k = false) ∧
      dotted (path.map keyText) = dotted (front.map keyText) ++ '\n' :: tail := by
  obtain ⟨k, ks, rfl⟩ := List.exists_cons_of_ne_nil (by rintro rfl; simp at h : path ≠ [])
  by_cases hk : brokenKey k
  · obtain ⟨body, hbody, htext⟩ := keyText_of_broken hk
    refine ⟨[body], dottedRest ks, by simp, by simpa using hbody, ?_⟩
    rw [dotted_cons, dotted_cons, htext]
    simp [dottedRest]
  · have hks : ∃ k ∈ ks, brokenKey k := by simpa [hk] using h
    obtain ⟨front, tail, hfront, htext⟩ := dottedRest_broken hks
    refine ⟨k :: front, tail, by simp, by simpa [hk] using hfront, ?_⟩
    rw [dotted_cons, dotted_cons, htext, List.append_assoc]

theorem ends_lineBreak (tail : Text) : Ends ('\n' :: tail) :=
  ⟨fun c hc ↦ by cases hc; decide, by simp [skipWs, isWs]⟩

theorem ends_bracket (tail : Text) : Ends (']' :: tail) :=
  ⟨fun c hc ↦ by cases hc; decide, by simp [skipWs, isWs]⟩

/-- A dotted key with a broken part is read up to the line break in it. -/
theorem parseKey_broken {path : List Text} (h : ∃ k ∈ path, brokenKey k) (rest : Text) :
    ∃ front tail, parseKey (dotted (path.map keyText) ++ rest) = some (front, '\n' :: tail) := by
  obtain ⟨front, tail, hne, hfront, htext⟩ := dotted_broken h
  refine ⟨front, tail ++ rest, ?_⟩
  rw [htext, List.append_assoc, List.cons_append, parseKey_dotted hne hfront (ends_lineBreak _)]
  rfl

end HsUploader.SinkSwitch
