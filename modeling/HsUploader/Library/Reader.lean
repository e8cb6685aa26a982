import Mathlib.Control.Traversable.Basic
import HsUploader.Library.BigEndian

/-!
# Readers

A reader takes what it wants from the front of a list and hands on the rest.  `Reads p bs a` says
that `p` takes just `bs` from any list that begins with it and makes `a` of it; from the parts of a
reader it follows for the whole, so a format is read back by following the reader's own text.

## What is here

* `Reader` and `Reads` — a reader, and what it takes and makes; `Reads.bind` puts two together.
* `take` and `number` — so many items, and a number of so many bytes.
* `many` — a reader as often as enough is left for it, in the order of the list.
* `many_eq` — items written one after the other are read as they were written.
-/

set_option autoImplicit false

namespace HsUploader

variable {α β γ ι : Type}

/-- A reader of a list of `β`. -/
abbrev Reader (β α : Type) : Type := StateT (List β) Option α

namespace Reader

/-- The reader takes `bs` from the front and makes `a` of it. -/
def Reads (p : Reader β α) (bs : List β) (a : α) : Prop :=
  ∀ rest, p.run (bs ++ rest) = some (a, rest)

/-- Exactly `n` items. -/
def take (n : ℕ) : Reader β (List β) :=
  fun bs ↦ if n ≤ bs.length then some (bs.take n, bs.drop n) else none

/-- A number of `width` bytes, the highest first. -/
def number (width : ℕ) : Reader UInt8 ℕ := do
  let bs ← take width
  pure (ofBigEndian bs)

/-- The reader as often as at least `least` items are there; what is left then is left out. -/
def manyLoop (least : ℕ) (p : Reader β α) : ℕ → List β → Option (List α)
  | 0, bs => if bs.length < least then some [] else none
  | fuel + 1, bs =>
    if bs.length < least then some []
    else do
      let (a, rest) ← p.run bs
      let as ← manyLoop least p fuel rest
      pure (a :: as)

/-- All that the reader reads of a list, of which it takes at least `least` items each time. -/
def many (least : ℕ) (p : Reader β α) (bs : List β) : Option (List α) :=
  manyLoop least p bs.length bs

theorem Reads.pure (a : α) : Reads (pure a : Reader β α) [] a := fun _ ↦ rfl

theorem Reads.bind {p : Reader β α} {f : α → Reader β γ} {bs cs : List β} {a : α} {c : γ}
    (hp : Reads p bs a) (hf : Reads (f a) cs c) : Reads (p >>= f) (bs ++ cs) c := by
  intro rest
  rw [StateT.run_bind, List.append_assoc, hp]
  exact hf rest

theorem Reads.bind_pure {p : Reader β α} {f : α → γ} {bs : List β} {a : α} (hp : Reads p bs a) :
    Reads (do let a ← p; Pure.pure (f a)) bs (f a) := by
  have h : Reads (do let a ← p; Pure.pure (f a)) (bs ++ []) (f a) :=
    hp.bind (f := fun a ↦ Pure.pure (f a)) (Reads.pure (f a))
  rwa [List.append_nil] at h

theorem Reads.of_eq {p : Reader β α} {bs cs : List β} {a : α} (hp : Reads p bs a) (h : bs = cs) :
    Reads p cs a := h ▸ hp

theorem reads_take {n : ℕ} {bs : List β} (h : bs.length = n) : Reads (take n) bs bs := by
  intro rest
  subst h
  simp [take, StateT.run]

theorem reads_number {width n : ℕ} (h : n < 256 ^ width) :
    Reads (number width) (bigEndian width n) n := by
  have := (reads_take (length_bigEndian width n)).bind_pure (f := ofBigEndian)
  rwa [ofBigEndian_bigEndian h] at this

theorem Reads.mapM_nil (f : ι → Reader β α) : Reads (List.mapM f []) [] [] := by
  rw [List.mapM_nil]
  exact Reads.pure []

theorem Reads.mapM_cons {f : ι → Reader β α} {x : ι} {xs : List ι} {bs cs : List β} {a : α}
    {as : List α} (h : Reads (f x) bs a) (hs : Reads (xs.mapM f) cs as) :
    Reads ((x :: xs).mapM f) (bs ++ cs) (a :: as) := by
  rw [List.mapM_cons]
  exact h.bind hs.bind_pure

theorem manyLoop_eq {least : ℕ} (hleast : 0 < least) {p : Reader β α} {enc : ι → List β}
    {dec : ι → α} {xs : List ι} (hp : ∀ x ∈ xs, Reads p (enc x) (dec x))
    (henc : ∀ x ∈ xs, least ≤ (enc x).length)
    {rest : List β} (hrest : rest.length < least) {fuel : ℕ}
    (hfuel : ((xs.map enc).flatten ++ rest).length ≤ fuel) :
    manyLoop least p fuel ((xs.map enc).flatten ++ rest) = some (xs.map dec) := by
  induction xs generalizing fuel with
  | nil =>
    cases fuel with
    | zero => rw [manyLoop, if_pos (by simpa using hrest)]; rfl
    | succ fuel => rw [manyLoop, if_pos (by simpa using hrest)]; rfl
  | cons x xs ih =>
    have hx := henc x List.mem_cons_self
    rw [List.map_cons, List.flatten_cons, List.append_assoc] at hfuel ⊢
    rw [List.length_append] at hfuel
    cases fuel with
    -- an item takes up an element at least
    | zero => exact absurd (Nat.lt_of_lt_of_le hleast hx) (by omega)
    | succ fuel =>
      have hlong : ¬ (enc x ++ ((xs.map enc).flatten ++ rest)).length < least := by
        rw [List.length_append]
        omega
      have hmore : manyLoop least p fuel ((xs.map enc).flatten ++ rest) = some (xs.map dec) :=
        ih (fun y hy ↦ hp y (List.mem_cons_of_mem _ hy))
          (fun y hy ↦ henc y (List.mem_cons_of_mem _ hy)) (by omega)
      rw [manyLoop, if_neg hlong, hp x List.mem_cons_self, Option.bind_eq_bind, Option.bind_some]
      dsimp only
      rw [hmore]
      rfl

/-- **Items one after the other are read as they were written**, and a rest that is too short to
be an item is not read as one. -/
theorem many_eq {least : ℕ} (hleast : 0 < least) {p : Reader β α} {enc : ι → List β} {dec : ι → α}
    {xs : List ι} (hp : ∀ x ∈ xs, Reads p (enc x) (dec x)) (henc : ∀ x ∈ xs, least ≤ (enc x).length)
    {rest : List β} (hrest : rest.length < least) :
    many least p ((xs.map enc).flatten ++ rest) = some (xs.map dec) :=
  manyLoop_eq hleast hp henc hrest (Nat.le_refl _)

end Reader

end HsUploader
