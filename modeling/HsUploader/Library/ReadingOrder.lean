import Mathlib.Order.Lattice

/-!
# The order a reader reads by

A reader keeps a cursor, which admits the positions past it, and answers whether one cursor comes
after another.  The answer is the order it reads by when a cursor comes after another exactly if
something is admitted under the earlier one only (`ReadingOrder`).  Where both go by one key, it is
(`ReadingOrder.of_key`).

## What is here

* `ReadingOrder` — for readings of a cursor, the answer `after`, and the filter `admits`.
* `ReadingOrder.of_key` — both go by one key in a linear order that some position lies between.

What is asked is no more than a paging reader needs to move its cursor forward.
-/

set_option autoImplicit false

variable {γ π κ ε : Type}

/-- Of the cursors that can be read, `after` answers the order in which `admits` narrows. -/
structure ReadingOrder (reads : γ → Prop) (after : γ → γ → Except ε Bool) (admits : γ → π → Prop) :
    Prop where
  after_iff : ∀ new stored, reads new → reads stored →
    (after new stored = .ok true ↔ ∃ p, admits stored p ∧ ¬ admits new p)
  asymm : ∀ new stored, reads new → reads stored →
    after new stored = .ok true → after stored new = .ok false
  narrows : ∀ new stored, reads new → reads stored → after new stored = .ok true →
    ∀ p, admits new p → admits stored p
  same : ∀ new stored, reads new → reads stored →
    (after new stored = .ok false ∧ after stored new = .ok false ↔
      ∀ p, admits new p ↔ admits stored p)

/-- A reader that compares cursors by a key, and admits the positions whose key is larger. -/
theorem ReadingOrder.of_key [LinearOrder κ] {reads : γ → Prop} {after : γ → γ → Except ε Bool}
    {admits : γ → π → Prop} (key : γ → κ) (pos : π → Option κ)
    (hafter : ∀ new stored, reads new → reads stored →
      after new stored = .ok (decide (key stored < key new)))
    (hadmits : ∀ c p, reads c → (admits c p ↔ ∃ k, pos p = some k ∧ key c < k))
    (hpos : ∀ c, reads c → ∃ p, pos p = some (key c)) : ReadingOrder reads after admits := by
  have hnarrows : ∀ c d, reads c → reads d → key d ≤ key c → ∀ p, admits c p → admits d p := by
    intro c d hc hd hle p hp
    obtain ⟨k, hk, hlt⟩ := (hadmits c p hc).mp hp
    exact (hadmits d p hd).mpr ⟨k, hk, hle.trans_lt hlt⟩
  -- the position of the later cursor itself is what the earlier one still admits
  have hbetween : ∀ c d, reads c → reads d → key d < key c → ∃ p, admits d p ∧ ¬ admits c p := by
    intro c d hc hd hlt
    obtain ⟨p, hp⟩ := hpos c hc
    refine ⟨p, (hadmits d p hd).mpr ⟨key c, hp, hlt⟩, fun hpc ↦ ?_⟩
    obtain ⟨k, hk, hck⟩ := (hadmits c p hc).mp hpc
    rw [hp] at hk
    cases hk
    exact lt_irrefl _ hck
  refine ⟨fun new stored hn hs ↦ ?_, fun new stored hn hs ↦ ?_, fun new stored hn hs ↦ ?_,
    fun new stored hn hs ↦ ?_⟩
  · rw [hafter new stored hn hs, Except.ok.injEq, decide_eq_true_eq]
    refine ⟨hbetween new stored hn hs, ?_⟩
    rintro ⟨p, hps, hpn⟩
    by_contra hle
    exact hpn (hnarrows stored new hs hn (not_lt.mp hle) p hps)
  · rw [hafter new stored hn hs, hafter stored new hs hn, Except.ok.injEq, Except.ok.injEq,
      decide_eq_true_eq, decide_eq_false_iff_not, not_lt]
    exact le_of_lt
  · rw [hafter new stored hn hs, Except.ok.injEq, decide_eq_true_eq]
    exact fun hlt ↦ hnarrows new stored hn hs hlt.le
  · rw [hafter new stored hn hs, hafter stored new hs hn, Except.ok.injEq, Except.ok.injEq,
      decide_eq_false_iff_not, decide_eq_false_iff_not, not_lt, not_lt]
    constructor
    · rintro ⟨hle, hge⟩ p
      exact ⟨hnarrows new stored hn hs hge p, hnarrows stored new hs hn hle p⟩
    · intro h
      constructor
      · by_contra hlt
        obtain ⟨p, hps, hpn⟩ := hbetween new stored hn hs (not_le.mp hlt)
        exact hpn ((h p).mpr hps)
      · by_contra hlt
        obtain ⟨p, hpn, hps⟩ := hbetween stored new hs hn (not_le.mp hlt)
        exact hps ((h p).mp hpn)
