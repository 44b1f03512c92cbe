import Henji.Library.Mealy
import Henji.Library.Utf8Windows
import Mathlib.Algebra.Ring.Nat

/-!
# Decoding UTF-8 byte by byte

A decoder that never refuses: it reads one byte at a time and tells each character, or `none` where
the bytes are malformed. A byte that cannot go on a character ends it and is read again as the start
of the next one. Since the decoder is a machine over bytes, the cuts between chunks do not matter.

Results:
1. `read_encode`: the encoding of characters decodes to them.
2. `read_front`: a front of an encoding decodes to a front of the characters.
3. `tells_read`: any bytes decode to scalars, and these take all but the last bytes where none is
   malformed.
-/

namespace Henji

/-- `needed` bytes of `point` are missing, and the next of them lies between `lower` and `upper`. -/
structure PendingPoint where
  point : Nat
  needed : Nat
  lower : Nat
  upper : Nat
deriving DecidableEq, Repr

namespace PendingPoint

def ready : PendingPoint := ⟨0, 0, 0x80, 0xbf⟩

/-- The first byte of a character. -/
def first (n : Nat) : List (Option Nat) × PendingPoint :=
  if n < 0x80 then ([some n], ready)
  else if 0xc2 ≤ n ∧ n ≤ 0xdf then ([], ⟨n - 0xc0, 1, 0x80, 0xbf⟩)
  else if 0xe0 ≤ n ∧ n ≤ 0xef then
    ([], ⟨n - 0xe0, 2, if n = 0xe0 then 0xa0 else 0x80, if n = 0xed then 0x9f else 0xbf⟩)
  else if 0xf0 ≤ n ∧ n ≤ 0xf4 then
    ([], ⟨n - 0xf0, 3, if n = 0xf0 then 0x90 else 0x80, if n = 0xf4 then 0x8f else 0xbf⟩)
  else ([none], ready)

/-- One byte. -/
def step : Mealy PendingPoint UInt8 (Option Nat) := fun byte pending =>
  let n := byte.toNat
  if pending.needed = 0 then first n
  else if pending.lower ≤ n ∧ n ≤ pending.upper then
    let point := pending.point * 0x40 + (n - 0x80)
    if pending.needed = 1 then ([some point], ready)
    else ([], ⟨point, pending.needed - 1, 0x80, 0xbf⟩)
  else
    let (outputs, next) := first n
    (none :: outputs, next)

/-- The end of the bytes. -/
def flush (pending : PendingPoint) : List (Option Nat) :=
  if pending.needed = 0 then [] else [none]

/-- The characters that the bytes of a stream give so far. -/
def read (bytes : List UInt8) : List (Option Nat) × PendingPoint :=
  Mealy.run step bytes ready

/-- The characters of a whole stream. -/
def readAll (bytes : List UInt8) : List (Option Nat) :=
  (read bytes).1 ++ (read bytes).2.flush

end PendingPoint

/-- The characters with U+FFFD for each malformed part. -/
def replaced (outputs : List (Option Nat)) : List Nat :=
  outputs.map fun output => output.getD 0xfffd

namespace PendingPoint

theorem step_ready (byte : UInt8) : step byte ready = first byte.toNat := rfl

/-- The first byte of a longer character. -/
theorem step_lead {n : Nat} (hn : n < 256) :
    step (UInt8.ofNat n) ready = first n := by
  rw [step_ready, toNat_ofNat hn]

/-- A byte that goes on a character. -/
theorem step_next {point needed lower upper n : Nat} (hn : n < 256) (hneeded : needed ≠ 0)
    (hlower : lower ≤ n) (hupper : n ≤ upper) :
    step (UInt8.ofNat n) ⟨point, needed, lower, upper⟩ =
      if needed = 1 then ([some (point * 0x40 + (n - 0x80))], ready)
      else ([], ⟨point * 0x40 + (n - 0x80), needed - 1, 0x80, 0xbf⟩) := by
  unfold step
  dsimp only
  rw [toNat_ofNat hn, if_neg hneeded, if_pos ⟨hlower, hupper⟩]

theorem run_two {n : Nat} (hlow : 0x80 ≤ n) (hhigh : n < 0x800) :
    Mealy.run step [UInt8.ofNat (0xc0 + n / 0x40), UInt8.ofNat (0x80 + n % 0x40)] ready =
      ([some n], ready) := by
  have hfirst : step (UInt8.ofNat (0xc0 + n / 0x40)) ready = ([], ⟨n / 0x40, 1, 0x80, 0xbf⟩) := by
    rw [step_lead (by omega), first, if_neg (by omega), if_pos (by omega), Nat.add_sub_cancel_left]
  have hlast : step (UInt8.ofNat (0x80 + n % 0x40)) ⟨n / 0x40, 1, 0x80, 0xbf⟩ =
      ([some n], ready) := by
    rw [step_next (by omega) (by decide) (by omega) (by omega), if_pos rfl,
      show n / 0x40 * 0x40 + (0x80 + n % 0x40 - 0x80) = n from by omega]
  exact Mealy.run_cons_of step hfirst (Mealy.run_cons_of step hlast rfl)

theorem run_three {n : Nat} (hlow : 0x800 ≤ n) (hhigh : n < 0x10000) (h : isScalar n) :
    Mealy.run step [UInt8.ofNat (0xe0 + n / 0x1000), UInt8.ofNat (0x80 + n / 0x40 % 0x40),
      UInt8.ofNat (0x80 + n % 0x40)] ready = ([some n], ready) := by
  unfold isScalar at h
  have hfirst : step (UInt8.ofNat (0xe0 + n / 0x1000)) ready = ([], ⟨n / 0x1000, 2,
      if 0xe0 + n / 0x1000 = 0xe0 then 0xa0 else 0x80,
      if 0xe0 + n / 0x1000 = 0xed then 0x9f else 0xbf⟩) := by
    rw [step_lead (by omega), first, if_neg (by omega), if_neg (by omega), if_pos (by omega),
      Nat.add_sub_cancel_left]
  have hsecond : step (UInt8.ofNat (0x80 + n / 0x40 % 0x40)) ⟨n / 0x1000, 2,
      if 0xe0 + n / 0x1000 = 0xe0 then 0xa0 else 0x80,
      if 0xe0 + n / 0x1000 = 0xed then 0x9f else 0xbf⟩ = ([], ⟨n / 0x40, 1, 0x80, 0xbf⟩) := by
    rw [step_next (by omega) (by decide) (by split <;> omega) (by split <;> omega),
      if_neg (by decide),
      show n / 0x1000 * 0x40 + (0x80 + n / 0x40 % 0x40 - 0x80) = n / 0x40 from by omega]
  have hlast : step (UInt8.ofNat (0x80 + n % 0x40)) ⟨n / 0x40, 1, 0x80, 0xbf⟩ =
      ([some n], ready) := by
    rw [step_next (by omega) (by decide) (by omega) (by omega), if_pos rfl,
      show n / 0x40 * 0x40 + (0x80 + n % 0x40 - 0x80) = n from by omega]
  exact Mealy.run_cons_of step hfirst (Mealy.run_cons_of step hsecond
    (Mealy.run_cons_of step hlast rfl))

theorem run_four {n : Nat} (hlow : 0x10000 ≤ n) (hhigh : n < 0x110000) :
    Mealy.run step [UInt8.ofNat (0xf0 + n / 0x40000), UInt8.ofNat (0x80 + n / 0x1000 % 0x40),
      UInt8.ofNat (0x80 + n / 0x40 % 0x40), UInt8.ofNat (0x80 + n % 0x40)] ready =
        ([some n], ready) := by
  have hfirst : step (UInt8.ofNat (0xf0 + n / 0x40000)) ready = ([], ⟨n / 0x40000, 3,
      if 0xf0 + n / 0x40000 = 0xf0 then 0x90 else 0x80,
      if 0xf0 + n / 0x40000 = 0xf4 then 0x8f else 0xbf⟩) := by
    rw [step_lead (by omega), first, if_neg (by omega), if_neg (by omega), if_neg (by omega),
      if_pos (by omega), Nat.add_sub_cancel_left]
  have hsecond : step (UInt8.ofNat (0x80 + n / 0x1000 % 0x40)) ⟨n / 0x40000, 3,
      if 0xf0 + n / 0x40000 = 0xf0 then 0x90 else 0x80,
      if 0xf0 + n / 0x40000 = 0xf4 then 0x8f else 0xbf⟩ = ([], ⟨n / 0x1000, 2, 0x80, 0xbf⟩) := by
    rw [step_next (by omega) (by decide) (by split <;> omega) (by split <;> omega),
      if_neg (by decide),
      show n / 0x40000 * 0x40 + (0x80 + n / 0x1000 % 0x40 - 0x80) = n / 0x1000 from by omega]
  have hthird : step (UInt8.ofNat (0x80 + n / 0x40 % 0x40)) ⟨n / 0x1000, 2, 0x80, 0xbf⟩ =
      ([], ⟨n / 0x40, 1, 0x80, 0xbf⟩) := by
    rw [step_next (by omega) (by decide) (by omega) (by omega), if_neg (by decide),
      show n / 0x1000 * 0x40 + (0x80 + n / 0x40 % 0x40 - 0x80) = n / 0x40 from by omega]
  have hlast : step (UInt8.ofNat (0x80 + n % 0x40)) ⟨n / 0x40, 1, 0x80, 0xbf⟩ =
      ([some n], ready) := by
    rw [step_next (by omega) (by decide) (by omega) (by omega), if_pos rfl,
      show n / 0x40 * 0x40 + (0x80 + n % 0x40 - 0x80) = n from by omega]
  exact Mealy.run_cons_of step hfirst (Mealy.run_cons_of step hsecond
    (Mealy.run_cons_of step hthird (Mealy.run_cons_of step hlast rfl)))

/-- The encoding of a character is told as the character. -/
theorem run_encodePoint {n : Nat} (h : isScalar n) :
    Mealy.run step (encodePoint n) ready = ([some n], ready) := by
  unfold encodePoint
  split
  · next hone =>
    have hfirst : step (UInt8.ofNat n) ready = ([some n], ready) := by
      rw [step_lead (by omega), first, if_pos hone]
    exact Mealy.run_cons_of step hfirst rfl
  split
  · next hone htwo => exact run_two (Nat.le_of_not_lt hone) htwo
  split
  · next htwo hthree => exact run_three (Nat.le_of_not_lt htwo) hthree h
  · next hthree =>
    refine run_four (Nat.le_of_not_lt hthree) ?_
    unfold isScalar at h
    omega

/-- The encoding of characters decodes to them. -/
theorem read_encode {points : List Nat} (h : ∀ n ∈ points, isScalar n) :
    read (points.flatMap encodePoint) = (points.map some, ready) := by
  unfold read
  induction points with
  | nil => rfl
  | cons n points ih =>
    rw [List.flatMap_cons]
    exact Mealy.run_append_of step (run_encodePoint (h n List.mem_cons_self))
      (ih fun m hm => h m (List.mem_cons_of_mem _ hm))

/-! ## The bytes of a character -/

/-- An unfinished character of which `held` bytes were read. -/
inductive Holds : PendingPoint → Nat → Prop
  | ready : Holds ready 0
  | two {point : Nat} (hlow : 2 ≤ point) (hhigh : point < 0x20) : Holds ⟨point, 1, 0x80, 0xbf⟩ 1
  | three {point n : Nat} (hfirst : n = point + 0xe0) (hhigh : n < 0xf0) :
    Holds ⟨point, 2, if n = 0xe0 then 0xa0 else 0x80, if n = 0xed then 0x9f else 0xbf⟩ 1
  | threeLast {point : Nat} (hlow : 0x20 ≤ point) (hhigh : point < 0x400)
      (hscalar : point < 0x360 ∨ 0x380 ≤ point) : Holds ⟨point, 1, 0x80, 0xbf⟩ 2
  | four {point n : Nat} (hfirst : n = point + 0xf0) (hhigh : n < 0xf5) :
    Holds ⟨point, 3, if n = 0xf0 then 0x90 else 0x80, if n = 0xf4 then 0x8f else 0xbf⟩ 1
  | fourNext {point : Nat} (hlow : 0x10 ≤ point) (hhigh : point < 0x110) :
    Holds ⟨point, 2, 0x80, 0xbf⟩ 2
  | fourLast {point : Nat} (hlow : 0x400 ≤ point) (hhigh : point < 0x4400) :
    Holds ⟨point, 1, 0x80, 0xbf⟩ 3

/-- How many bytes an output stands for, where it is a character. -/
def size (output : Option Nat) : Nat := (encodePoint (output.getD 0)).length

/-- What `count` bytes tell: scalars, which take no more bytes than there were, and all of them but
the last `left` ones where no byte is malformed. -/
structure Tells (count : Nat) (told : List (Option Nat) × PendingPoint) (left : Nat) : Prop where
  holds : Holds told.2 left
  scalar : ∀ n, some n ∈ told.1 → isScalar n
  few : count ≤ 4 * told.1.length + left
  whole : none ∉ told.1 → (told.1.map size).sum + left = count

theorem Holds.le_three {pending : PendingPoint} {held : Nat} (h : Holds pending held) :
    held ≤ 3 := by
  cases h <;> decide

/-- A byte that ends a character in the middle and starts another one. -/
theorem tells_none {held n left : Nat} (hheld : held ≤ 3) (h : Tells 1 (first n) left) :
    Tells (held + 1) (none :: (first n).1, (first n).2) left where
  holds := h.holds
  scalar m hm := h.scalar m ((List.mem_cons.mp hm).resolve_left (Option.some_ne_none m))
  few := by
    have hfew := h.few
    rw [List.length_cons]
    omega
  whole hnone := absurd List.mem_cons_self hnone

/-- A byte that ends a character. -/
theorem tells_last {count point : Nat} (hscalar : isScalar point)
    (hlength : (encodePoint point).length = count) : Tells count ([some point], ready) 0 where
  holds := .ready
  scalar n hn := by
    rw [List.mem_singleton] at hn
    exact Option.some.inj hn ▸ hscalar
  few := by
    have hle := length_encodePoint_le point
    rw [List.length_singleton]
    omega
  whole _ := by
    rw [List.map_singleton, List.sum_singleton]
    exact hlength

/-- A byte that goes on a character. -/
theorem tells_nothing {count : Nat} {pending : PendingPoint} (h : Holds pending count) :
    Tells count ([], pending) count where
  holds := h
  scalar _ hn := absurd hn List.not_mem_nil
  few := Nat.le_add_left _ _
  whole _ := Nat.zero_add _

theorem tells_first {n : Nat} (hn : n < 256) : ∃ left, Tells 1 (first n) left := by
  unfold first
  split
  · next hone =>
    refine ⟨0, tells_last (.inl (by omega)) ?_⟩
    unfold encodePoint
    rw [if_pos hone]
    rfl
  split
  · exact ⟨1, tells_nothing (.two (by omega) (by omega))⟩
  split
  · exact ⟨1, tells_nothing (.three (by omega) (by omega))⟩
  split
  · exact ⟨1, tells_nothing (.four (by omega) (by omega))⟩
  · refine ⟨0, .ready, fun m hm => ?_, by decide, fun hnone => ?_⟩
    · cases List.mem_singleton.mp hm
    · exact absurd List.mem_cons_self hnone

/-- A byte that a character allows. -/
theorem tells_next {point needed lower upper held n : Nat} (hneeded : needed ≠ 0)
    (h : Holds ⟨point, needed, lower, upper⟩ held) (hlower : lower ≤ n) (hupper : n ≤ upper) :
    ∃ left, Tells (held + 1) (if needed = 1 then ([some (point * 0x40 + (n - 0x80))], ready)
      else ([], ⟨point * 0x40 + (n - 0x80), needed - 1, 0x80, 0xbf⟩)) left := by
  cases h with
  | ready => exact absurd rfl hneeded
  | two hlow hhigh =>
    refine ⟨0, tells_last (.inl (by omega)) ?_⟩
    unfold encodePoint
    rw [if_neg (by omega), if_pos (by omega)]
    rfl
  | three hfirst hhigh =>
    refine ⟨2, tells_nothing (.threeLast ?_ ?_ ?_)⟩
    · split at hlower <;> omega
    · split at hupper <;> omega
    · split at hupper <;> omega
  | threeLast hlow hhigh hscalar =>
    refine ⟨0, tells_last ?_ ?_⟩
    · unfold isScalar
      omega
    · unfold encodePoint
      rw [if_neg (by omega), if_neg (by omega), if_pos (by omega)]
      rfl
  | four hfirst hhigh =>
    refine ⟨2, tells_nothing (.fourNext ?_ ?_)⟩
    · split at hlower <;> omega
    · split at hupper <;> omega
  | fourNext hlow hhigh => exact ⟨3, tells_nothing (.fourLast (by omega) (by omega))⟩
  | fourLast hlow hhigh =>
    refine ⟨0, tells_last (.inr ⟨by omega, by omega⟩) ?_⟩
    unfold encodePoint
    rw [if_neg (by omega), if_neg (by omega), if_neg (by omega)]
    rfl

theorem tells_step {pending : PendingPoint} {held : Nat} (h : Holds pending held) (byte : UInt8) :
    ∃ left, Tells (held + 1) (step byte pending) left := by
  obtain ⟨point, needed, lower, upper⟩ := pending
  obtain ⟨left, hfirst⟩ := tells_first byte.toNat_lt
  unfold step
  dsimp only
  split
  · next hzero =>
    cases h <;> cases hzero
    exact ⟨left, hfirst⟩
  next hneeded =>
  split
  · next hbetween => exact tells_next hneeded h hbetween.1 hbetween.2
  · exact ⟨left, tells_none h.le_three hfirst⟩

theorem Tells.append {count more left rest : Nat} {told others : List (Option Nat)}
    {pending last : PendingPoint} (h : Tells count (told, pending) left)
    (h' : Tells (left + more) (others, last) rest) : Tells (count + more) (told ++ others, last) rest
    where
  holds := h'.holds
  scalar n hn := (List.mem_append.mp hn).elim (h.scalar n) (h'.scalar n)
  few := by
    have hfew := h.few
    have hfew' := h'.few
    simp only [List.length_append] at hfew hfew' ⊢
    omega
  whole hnone := by
    rw [List.mem_append, not_or] at hnone
    have hwhole := h.whole hnone.1
    have hwhole' := h'.whole hnone.2
    simp only [List.map_append, List.sum_append] at hwhole hwhole' ⊢
    omega

theorem tells_run {pending : PendingPoint} {held : Nat} (h : Holds pending held)
    (bytes : List UInt8) :
    ∃ left, Tells (held + bytes.length) (Mealy.run step bytes pending) left := by
  induction bytes generalizing pending held with
  | nil => exact ⟨held, tells_nothing h⟩
  | cons byte bytes ih =>
    obtain ⟨left, hstep⟩ := tells_step h byte
    obtain ⟨rest, hrest⟩ := ih hstep.holds
    rw [Mealy.run_cons, List.length_cons, Nat.add_comm bytes.length, ← Nat.add_assoc]
    exact ⟨rest, hstep.append hrest⟩

/-- What the bytes of a stream tell. -/
theorem tells_read (bytes : List UInt8) : ∃ left, Tells bytes.length (read bytes) left := by
  obtain ⟨left, h⟩ := tells_run .ready bytes
  exact ⟨left, Nat.zero_add bytes.length ▸ h⟩

theorem read_append (first second : List UInt8) : read (first ++ second) =
    ((read first).1 ++ (Mealy.run step second (read first).2).1,
      (Mealy.run step second (read first).2).2) :=
  Mealy.run_append step first second ready

/-- A front of an encoding decodes to a front of the characters. -/
theorem read_front {points : List Nat} (h : ∀ n ∈ points, isScalar n) {front : List UInt8}
    (hfront : front <+: points.flatMap encodePoint) :
    ∃ told, told <+: points ∧ (read front).1 = told.map some := by
  obtain ⟨rest, hrest⟩ := hfront
  have hwhole := congrArg Prod.fst (read_encode h)
  rw [← hrest, read_append] at hwhole
  dsimp only at hwhole
  obtain ⟨told, others, hsplit, htold, -⟩ := List.append_eq_map_iff.mp hwhole
  exact ⟨told, ⟨others, hsplit.symm⟩, htold.symm⟩

end PendingPoint

end Henji
