import Henji.Json
import Mathlib.Data.List.Basic

/-!
# UTF-8

Encoding and the fatal decoder are inverse to each other on scalar values, and an encoding can be
cut only between two code points.

Results:
1. `decodePoints_encode`, `encode_of_decodePoints`: decoding inverts encoding, and whatever decodes
   is the encoding of the points that come out.
2. `codePoints_append`, `units_codePoints`: the points of a well-formed text are the points of its
   parts and give the text back.
3. `isContinuation_encode`: a byte of an encoding starts no point where it is a continuation byte.
-/

namespace Henji

/-! ## Bytes -/

theorem isContinuation_ofNat : ∀ n : Fin 256,
    isContinuation (UInt8.ofNat n.1) = decide (0x80 ≤ n.1 ∧ n.1 < 0xc0) := by
  decide +kernel

theorem isContinuation_iff (b : UInt8) :
    isContinuation b = true ↔ 0x80 ≤ b.toNat ∧ b.toNat < 0xc0 := by
  have h := isContinuation_ofNat ⟨b.toNat, b.toNat_lt⟩
  rw [UInt8.ofNat_toNat] at h
  rw [h, decide_eq_true_iff]

theorem toNat_ofNat {n : Nat} (h : n < 256) : (UInt8.ofNat n).toNat = n :=
  Nat.mod_eq_of_lt h

theorem toNat_ofNat16 {n : Nat} (h : n < 65536) : (UInt16.ofNat n).toNat = n :=
  Nat.mod_eq_of_lt h

theorem isContinuation_of_lt {n : Nat} (h : n < 0x40) :
    isContinuation (UInt8.ofNat (0x80 + n)) = true := by
  rw [isContinuation_iff, toNat_ofNat (by omega)]
  omega

theorem low6_ofNat {n : Nat} (h : n < 0x40) : low6 (UInt8.ofNat (0x80 + n)) = n := by
  unfold low6
  rw [toNat_ofNat (by omega), Nat.add_sub_cancel_left]

/-! ## Points -/

/-- The code points that are not surrogates. -/
def isScalar (n : Nat) : Prop := n < 0xd800 ∨ (0xdfff < n ∧ n < 0x110000)

instance (n : Nat) : Decidable (isScalar n) := inferInstanceAs (Decidable (_ ∨ _))

theorem length_encodePoint_pos (n : Nat) : 0 < (encodePoint n).length := by
  unfold encodePoint
  split
  · exact Nat.zero_lt_one
  split
  · exact Nat.zero_lt_two
  split <;> exact Nat.succ_pos _

theorem length_encodePoint_le (n : Nat) : (encodePoint n).length ≤ 4 := by
  unfold encodePoint
  split
  · simp
  split
  · simp
  split <;> simp

/-! ## One step of the decoder -/

theorem decodePoints_one {a : UInt8} (rest : List UInt8) (ha : a < 0x80) :
    decodePoints (a :: rest) = (decodePoints rest).map (a.toNat :: ·) := by
  rw [decodePoints.eq_def]
  exact if_pos ha

theorem decodePoints_two {a b : UInt8} (rest : List UInt8) (ha : ¬ a < 0x80) (ha' : a < 0xe0) :
    decodePoints (a :: b :: rest) =
      if 0x80 ≤ (a.toNat - 0xc0) * 0x40 + low6 b ∧ isContinuation b then
        (decodePoints rest).map (((a.toNat - 0xc0) * 0x40 + low6 b) :: ·)
      else none := by
  rw [decodePoints.eq_def]
  dsimp only
  rw [if_neg ha, if_pos ha']

theorem decodePoints_three {a b c : UInt8} (rest : List UInt8) (ha : ¬ a < 0x80) (ha' : ¬ a < 0xe0)
    (ha'' : a < 0xf0) :
    decodePoints (a :: b :: c :: rest) =
      let three := ((a.toNat - 0xe0) * 0x40 + low6 b) * 0x40 + low6 c
      if 0x800 ≤ three ∧ ¬ (0xd800 ≤ three ∧ three ≤ 0xdfff) ∧ isContinuation b ∧
          isContinuation c then
        (decodePoints rest).map (three :: ·)
      else none := by
  rw [decodePoints.eq_def]
  dsimp only
  rw [if_neg ha, if_neg ha', if_pos ha'']

theorem decodePoints_four {a b c d : UInt8} (rest : List UInt8) (ha : ¬ a < 0x80)
    (ha' : ¬ a < 0xe0) (ha'' : ¬ a < 0xf0) :
    decodePoints (a :: b :: c :: d :: rest) =
      let four := (((a.toNat - 0xf0) * 0x40 + low6 b) * 0x40 + low6 c) * 0x40 + low6 d
      if 0x10000 ≤ four ∧ four ≤ 0x10ffff ∧ isContinuation b ∧ isContinuation c ∧
          isContinuation d then
        (decodePoints rest).map (four :: ·)
      else none := by
  rw [decodePoints.eq_def]
  dsimp only
  rw [if_neg ha, if_neg ha', if_neg ha'']

/-- The decoder reads back one encoded point and goes on. -/
theorem decodePoints_encodePoint {n : Nat} (h : isScalar n) (rest : List UInt8) :
    decodePoints (encodePoint n ++ rest) = (decodePoints rest).map (n :: ·) := by
  unfold isScalar at h
  have h80 : ∀ {k : Nat}, k < 256 → (UInt8.ofNat k < 0x80 ↔ k < 0x80) := fun hk => by
    rw [UInt8.lt_iff_toNat_lt, toNat_ofNat hk]
    rfl
  have he0 : ∀ {k : Nat}, k < 256 → (UInt8.ofNat k < 0xe0 ↔ k < 0xe0) := fun hk => by
    rw [UInt8.lt_iff_toNat_lt, toNat_ofNat hk]
    rfl
  have hf0 : ∀ {k : Nat}, k < 256 → (UInt8.ofNat k < 0xf0 ↔ k < 0xf0) := fun hk => by
    rw [UInt8.lt_iff_toNat_lt, toNat_ofNat hk]
    rfl
  unfold encodePoint
  split
  · next hn =>
    rw [List.singleton_append, decodePoints_one _ ((h80 (by omega)).mpr hn),
      toNat_ofNat (by omega)]
  split
  · next h1 h2 =>
    have hb : n % 0x40 < 0x40 := Nat.mod_lt _ (by omega)
    have hvalue : (0xc0 + n / 0x40 - 0xc0) * 0x40 + n % 0x40 = n := by omega
    refine (decodePoints_two rest (mt (h80 (by omega)).mp (by omega))
      ((he0 (by omega)).mpr (by omega))).trans ?_
    rw [toNat_ofNat (by omega), low6_ofNat hb, isContinuation_of_lt hb, hvalue]
    exact if_pos ⟨by omega, rfl⟩
  split
  · next h1 h2 h3 =>
    have hb : n / 0x40 % 0x40 < 0x40 := Nat.mod_lt _ (by omega)
    have hc : n % 0x40 < 0x40 := Nat.mod_lt _ (by omega)
    have hvalue : ((0xe0 + n / 0x1000 - 0xe0) * 0x40 + n / 0x40 % 0x40) * 0x40 + n % 0x40 = n := by
      omega
    refine (decodePoints_three rest (mt (h80 (by omega)).mp (by omega))
      (mt (he0 (by omega)).mp (by omega)) ((hf0 (by omega)).mpr (by omega))).trans ?_
    rw [toNat_ofNat (by omega), low6_ofNat hb, low6_ofNat hc, isContinuation_of_lt hb,
      isContinuation_of_lt hc, hvalue]
    exact if_pos ⟨by omega, by omega, rfl, rfl⟩
  · next h1 h2 h3 =>
    have hb : n / 0x1000 % 0x40 < 0x40 := Nat.mod_lt _ (by omega)
    have hc : n / 0x40 % 0x40 < 0x40 := Nat.mod_lt _ (by omega)
    have hd : n % 0x40 < 0x40 := Nat.mod_lt _ (by omega)
    have hvalue : (((0xf0 + n / 0x40000 - 0xf0) * 0x40 + n / 0x1000 % 0x40) * 0x40 +
        n / 0x40 % 0x40) * 0x40 + n % 0x40 = n := by omega
    refine (decodePoints_four rest (mt (h80 (by omega)).mp (by omega))
      (mt (he0 (by omega)).mp (by omega)) (mt (hf0 (by omega)).mp (by omega))).trans ?_
    rw [toNat_ofNat (by omega), low6_ofNat hb, low6_ofNat hc, low6_ofNat hd,
      isContinuation_of_lt hb, isContinuation_of_lt hc, isContinuation_of_lt hd, hvalue]
    exact if_pos ⟨by omega, by omega, rfl, rfl, rfl⟩

/-- The decoder reads back encoded points and goes on. -/
theorem decodePoints_encode {points : List Nat} (h : ∀ n ∈ points, isScalar n)
    (rest : List UInt8) :
    decodePoints (points.flatMap encodePoint ++ rest) = (decodePoints rest).map (points ++ ·) := by
  induction points with
  | nil =>
    rw [List.flatMap_nil, List.nil_append]
    exact Option.map_id'.symm ▸ rfl
  | cons n points ih =>
    rw [List.flatMap_cons, List.append_assoc, decodePoints_encodePoint (h n List.mem_cons_self),
      ih fun m hm => h m (List.mem_cons_of_mem _ hm)]
    cases decodePoints rest <;> rfl

theorem decodePoints_encodePoints {points : List Nat} (h : ∀ n ∈ points, isScalar n) :
    decodePoints (points.flatMap encodePoint) = some points := by
  have hdecode := decodePoints_encode h []
  rw [List.append_nil] at hdecode
  rw [hdecode, decodePoints, Option.map_some, List.append_nil]

/-! ## Whatever decodes is an encoding -/

theorem low6_lt {b : UInt8} (h : isContinuation b = true) : low6 b < 0x40 := by
  have hb := (isContinuation_iff b).mp h
  unfold low6
  omega

theorem ofNat_low6 {b : UInt8} (h : isContinuation b = true) :
    UInt8.ofNat (0x80 + low6 b) = b := by
  have hb := (isContinuation_iff b).mp h
  have hsum : 0x80 + low6 b = b.toNat := by
    unfold low6
    omega
  rw [hsum, UInt8.ofNat_toNat]

theorem encodePoint_two {a b : UInt8} (ha : a.toNat < 0xe0)
    (hlow : 0x80 ≤ (a.toNat - 0xc0) * 0x40 + low6 b) (hb : isContinuation b = true) :
    isScalar ((a.toNat - 0xc0) * 0x40 + low6 b) ∧
      encodePoint ((a.toNat - 0xc0) * 0x40 + low6 b) = [a, b] := by
  have hb' := low6_lt hb
  have hdiv : 0xc0 + ((a.toNat - 0xc0) * 0x40 + low6 b) / 0x40 = a.toNat := by omega
  have hmod : ((a.toNat - 0xc0) * 0x40 + low6 b) % 0x40 = low6 b := by omega
  refine ⟨.inl (by omega), ?_⟩
  unfold encodePoint
  rw [if_neg (by omega), if_pos (by omega), hdiv, hmod, UInt8.ofNat_toNat, ofNat_low6 hb]

theorem encodePoint_three {a b c : UInt8} (ha : a.toNat < 0xf0) (ha' : 0xe0 ≤ a.toNat)
    (hlow : 0x800 ≤ ((a.toNat - 0xe0) * 0x40 + low6 b) * 0x40 + low6 c)
    (hscalar : ¬ (0xd800 ≤ ((a.toNat - 0xe0) * 0x40 + low6 b) * 0x40 + low6 c ∧
      ((a.toNat - 0xe0) * 0x40 + low6 b) * 0x40 + low6 c ≤ 0xdfff))
    (hb : isContinuation b = true) (hc : isContinuation c = true) :
    isScalar (((a.toNat - 0xe0) * 0x40 + low6 b) * 0x40 + low6 c) ∧
      encodePoint (((a.toNat - 0xe0) * 0x40 + low6 b) * 0x40 + low6 c) = [a, b, c] := by
  have hb' := low6_lt hb
  have hc' := low6_lt hc
  have hdiv : 0xe0 + (((a.toNat - 0xe0) * 0x40 + low6 b) * 0x40 + low6 c) / 0x1000 = a.toNat := by
    omega
  have hmid : (((a.toNat - 0xe0) * 0x40 + low6 b) * 0x40 + low6 c) / 0x40 % 0x40 = low6 b := by
    omega
  have hmod : (((a.toNat - 0xe0) * 0x40 + low6 b) * 0x40 + low6 c) % 0x40 = low6 c := by omega
  refine ⟨?_, ?_⟩
  · unfold isScalar
    omega
  · unfold encodePoint
    rw [if_neg (by omega), if_neg (by omega), if_pos (by omega), hdiv, hmid, hmod,
      UInt8.ofNat_toNat, ofNat_low6 hb, ofNat_low6 hc]

theorem encodePoint_four {a b c d : UInt8} (ha : 0xf0 ≤ a.toNat)
    (hlow : 0x10000 ≤ (((a.toNat - 0xf0) * 0x40 + low6 b) * 0x40 + low6 c) * 0x40 + low6 d)
    (hhigh : (((a.toNat - 0xf0) * 0x40 + low6 b) * 0x40 + low6 c) * 0x40 + low6 d ≤ 0x10ffff)
    (hb : isContinuation b = true) (hc : isContinuation c = true)
    (hd : isContinuation d = true) :
    isScalar ((((a.toNat - 0xf0) * 0x40 + low6 b) * 0x40 + low6 c) * 0x40 + low6 d) ∧
      encodePoint ((((a.toNat - 0xf0) * 0x40 + low6 b) * 0x40 + low6 c) * 0x40 + low6 d) =
        [a, b, c, d] := by
  have hb' := low6_lt hb
  have hc' := low6_lt hc
  have hd' := low6_lt hd
  have hdiv : 0xf0 + ((((a.toNat - 0xf0) * 0x40 + low6 b) * 0x40 + low6 c) * 0x40 + low6 d) /
      0x40000 = a.toNat := by omega
  have hfirst : ((((a.toNat - 0xf0) * 0x40 + low6 b) * 0x40 + low6 c) * 0x40 + low6 d) / 0x1000 %
      0x40 = low6 b := by omega
  have hsecond : ((((a.toNat - 0xf0) * 0x40 + low6 b) * 0x40 + low6 c) * 0x40 + low6 d) / 0x40 %
      0x40 = low6 c := by omega
  have hmod : ((((a.toNat - 0xf0) * 0x40 + low6 b) * 0x40 + low6 c) * 0x40 + low6 d) % 0x40 =
      low6 d := by omega
  refine ⟨.inr ⟨by omega, by omega⟩, ?_⟩
  unfold encodePoint
  rw [if_neg (by omega), if_neg (by omega), if_neg (by omega), hdiv, hfirst, hsecond, hmod,
    UInt8.ofNat_toNat, ofNat_low6 hb, ofNat_low6 hc, ofNat_low6 hd]

/-- One point is read, and the rest decodes. -/
theorem decodePoints_cons {a : UInt8} {rest : List UInt8} {points : List Nat}
    (h : decodePoints (a :: rest) = some points) :
    ∃ n tail points', isScalar n ∧ a :: rest = encodePoint n ++ tail ∧
      decodePoints tail = some points' ∧ points = n :: points' := by
  by_cases h80 : a < 0x80
  · rw [decodePoints_one rest h80] at h
    obtain ⟨points', hrest, rfl⟩ := Option.map_eq_some_iff.mp h
    have ha : a.toNat < 0x80 := UInt8.lt_iff_toNat_lt.mp h80
    refine ⟨a.toNat, rest, points', .inl (by omega), ?_, hrest, rfl⟩
    unfold encodePoint
    rw [if_pos ha, UInt8.ofNat_toNat]
    rfl
  cases rest with
  | nil =>
    rw [decodePoints.eq_def] at h
    dsimp only at h
    rw [if_neg h80] at h
    cases h
  | cons b rest =>
    by_cases he0 : a < 0xe0
    · rw [decodePoints_two rest h80 he0] at h
      split at h
      · next hcond =>
        obtain ⟨points', hrest, rfl⟩ := Option.map_eq_some_iff.mp h
        obtain ⟨hscalar, hencode⟩ := encodePoint_two (UInt8.lt_iff_toNat_lt.mp he0) hcond.1 hcond.2
        exact ⟨_, rest, points', hscalar, by rw [hencode]; rfl, hrest, rfl⟩
      · cases h
    have ha : 0xe0 ≤ a.toNat := Nat.le_of_not_lt fun h => he0 (UInt8.lt_iff_toNat_lt.mpr h)
    cases rest with
    | nil =>
      rw [decodePoints.eq_def] at h
      dsimp only at h
      rw [if_neg h80, if_neg he0] at h
      cases h
    | cons c rest =>
      by_cases hf0 : a < 0xf0
      · rw [decodePoints_three rest h80 he0 hf0] at h
        dsimp only at h
        split at h
        · next hcond =>
          obtain ⟨points', hrest, rfl⟩ := Option.map_eq_some_iff.mp h
          obtain ⟨hscalar, hencode⟩ := encodePoint_three (UInt8.lt_iff_toNat_lt.mp hf0) ha hcond.1
            hcond.2.1 hcond.2.2.1 hcond.2.2.2
          exact ⟨_, rest, points', hscalar, by rw [hencode]; rfl, hrest, rfl⟩
        · cases h
      have ha : 0xf0 ≤ a.toNat := Nat.le_of_not_lt fun h => hf0 (UInt8.lt_iff_toNat_lt.mpr h)
      cases rest with
      | nil =>
        rw [decodePoints.eq_def] at h
        dsimp only at h
        rw [if_neg h80, if_neg he0, if_neg hf0] at h
        cases h
      | cons d rest =>
        rw [decodePoints_four rest h80 he0 hf0] at h
        dsimp only at h
        split at h
        · next hcond =>
          obtain ⟨points', hrest, rfl⟩ := Option.map_eq_some_iff.mp h
          obtain ⟨hscalar, hencode⟩ := encodePoint_four ha hcond.1 hcond.2.1 hcond.2.2.1
            hcond.2.2.2.1 hcond.2.2.2.2
          exact ⟨_, rest, points', hscalar, by rw [hencode]; rfl, hrest, rfl⟩
        · cases h

/-- Whatever decodes is the encoding of the points that come out. -/
theorem encode_of_decodePoints {points : List Nat} {bytes : List UInt8}
    (h : decodePoints bytes = some points) :
    (∀ n ∈ points, isScalar n) ∧ points.flatMap encodePoint = bytes := by
  induction points generalizing bytes with
  | nil =>
    cases bytes with
    | nil => exact ⟨fun n hn => absurd hn List.not_mem_nil, rfl⟩
    | cons a rest =>
      obtain ⟨n, tail, points', -, -, -, hpoints⟩ := decodePoints_cons h
      cases hpoints
  | cons n points ih =>
    cases bytes with
    | nil =>
      rw [decodePoints] at h
      cases h
    | cons a rest =>
      obtain ⟨m, tail, points', hscalar, hbytes, htail, hpoints⟩ := decodePoints_cons h
      cases hpoints
      obtain ⟨hall, hencode⟩ := ih htail
      refine ⟨?_, ?_⟩
      · rintro k hk
        obtain rfl | hk := List.mem_cons.mp hk
        · exact hscalar
        · exact hall k hk
      · rw [List.flatMap_cons, hencode, hbytes]

/-! ## Where an encoding may be cut -/

theorem isContinuation_first (n : Nat) : ∃ a rest, encodePoint n = a :: rest ∧
    (isScalar n → isContinuation a = false) ∧ ∀ b ∈ rest, isContinuation b = true := by
  have hnot : ∀ {k : Nat}, k < 256 → (k < 0x80 ∨ 0xc0 ≤ k) →
      isContinuation (UInt8.ofNat k) = false := by
    intro k hk hrange
    rw [Bool.eq_false_iff, Ne, isContinuation_iff, toNat_ofNat hk]
    omega
  have hmod : ∀ k : Nat, isContinuation (UInt8.ofNat (0x80 + k % 0x40)) = true := fun k =>
    isContinuation_of_lt (Nat.mod_lt _ (by omega))
  unfold encodePoint isScalar
  split
  · next h => exact ⟨_, [], rfl, fun _ => hnot (by omega) (.inl h), fun b hb => by cases hb⟩
  split
  · exact ⟨_, _, rfl, fun _ => hnot (by omega) (.inr (by omega)),
      List.forall_mem_singleton.mpr (hmod _)⟩
  split
  · exact ⟨_, _, rfl, fun _ => hnot (by omega) (.inr (by omega)),
      List.forall_mem_cons.mpr ⟨hmod _, List.forall_mem_singleton.mpr (hmod _)⟩⟩
  · exact ⟨_, _, rfl, fun h => hnot (by omega) (.inr (by omega)),
      List.forall_mem_cons.mpr ⟨hmod _, List.forall_mem_cons.mpr ⟨hmod _,
        List.forall_mem_singleton.mpr (hmod _)⟩⟩⟩

/-- A cut of an encoding whose next byte is no continuation byte is a cut between points. -/
theorem cut_encode {points : List Nat} (hpoints : ∀ n ∈ points, isScalar n) {length : Nat}
    (hcut : ∀ b, (points.flatMap encodePoint)[length]? = some b → isContinuation b = false) :
    ∃ front back, points = front ++ back ∧
      (points.flatMap encodePoint).take length = front.flatMap encodePoint := by
  induction points generalizing length with
  | nil => exact ⟨[], [], rfl, by simp⟩
  | cons n points ih =>
    obtain ⟨a, tail, hencode, -, htail⟩ := isContinuation_first n
    rw [List.flatMap_cons] at hcut ⊢
    by_cases hlength : (encodePoint n).length ≤ length
    · have hrest : ∀ b, (points.flatMap encodePoint)[length - (encodePoint n).length]? = some b →
          isContinuation b = false := fun b hb => hcut b (by
        rw [List.getElem?_append_right hlength]
        exact hb)
      obtain ⟨front, back, hsplit, htake⟩ :=
        ih (fun m hm => hpoints m (List.mem_cons_of_mem _ hm)) hrest
      refine ⟨n :: front, back, by rw [hsplit]; rfl, ?_⟩
      rw [List.take_append, List.take_of_length_le hlength, htake, List.flatMap_cons]
    · cases length with
      | zero => exact ⟨[], n :: points, rfl, by simp⟩
      | succ length =>
        -- the byte at the cut lies inside the encoding of `n`
        have hlt : length < tail.length := by
          rw [hencode, List.length_cons] at hlength
          omega
        have hbyte : (encodePoint n ++ points.flatMap encodePoint)[length + 1]? =
            some tail[length] := by
          rw [hencode, List.cons_append, List.getElem?_cons_succ, List.getElem?_append_left hlt,
            List.getElem?_eq_getElem hlt]
        exact absurd (htail _ (List.getElem_mem hlt)) (by rw [hcut _ hbyte]; exact Bool.false_ne_true)

/-- The first byte of an encoding starts a point. -/
theorem isContinuation_encode {points : List Nat} (hpoints : ∀ n ∈ points, isScalar n) {b : UInt8}
    (h : (points.flatMap encodePoint).head? = some b) : isContinuation b = false := by
  cases points with
  | nil => cases h
  | cons n points =>
    obtain ⟨a, tail, hencode, hfirst, -⟩ := isContinuation_first n
    rw [List.flatMap_cons, hencode] at h
    cases h
    exact hfirst (hpoints n List.mem_cons_self)

/-! ## Text -/

theorem isHighSurrogate_iff (u : UInt16) :
    isHighSurrogate u = true ↔ 0xd800 ≤ u.toNat ∧ u.toNat ≤ 0xdbff := by
  unfold isHighSurrogate
  rw [decide_eq_true_iff, UInt16.le_iff_toNat_le, UInt16.le_iff_toNat_le]
  rfl

theorem isLowSurrogate_iff (u : UInt16) :
    isLowSurrogate u = true ↔ 0xdc00 ≤ u.toNat ∧ u.toNat ≤ 0xdfff := by
  unfold isLowSurrogate
  rw [decide_eq_true_iff, UInt16.le_iff_toNat_le, UInt16.le_iff_toNat_le]
  rfl

theorem isScalar_unit {u : UInt16} (hhigh : isHighSurrogate u = false)
    (hlow : isLowSurrogate u = false) : isScalar u.toNat := by
  have hhigh' := mt (isHighSurrogate_iff u).mpr (by rw [hhigh]; exact Bool.false_ne_true)
  have hlow' := mt (isLowSurrogate_iff u).mpr (by rw [hlow]; exact Bool.false_ne_true)
  have hlt := u.toNat_lt
  unfold isScalar
  omega

theorem isScalar_pairPoint {u v : UInt16} (hu : isHighSurrogate u = true)
    (hv : isLowSurrogate v = true) : isScalar (pairPoint u v) := by
  have hu' := (isHighSurrogate_iff u).mp hu
  have hv' := (isLowSurrogate_iff v).mp hv
  unfold isScalar pairPoint
  omega

/-- Every code point of a text is a scalar value. -/
theorem isScalar_codePoints (text : JsText) : ∀ n ∈ codePoints text, isScalar n := by
  have hreplaced : isScalar 0xfffd := by decide
  induction text using codePoints.induct with
  | case1 => exact fun n hn => absurd hn List.not_mem_nil
  | case2 u h =>
    rw [codePoints, if_pos h]
    exact List.forall_mem_singleton.mpr hreplaced
  | case3 u h =>
    rw [codePoints, if_neg h]
    simp only [Bool.or_eq_true, not_or, Bool.not_eq_true] at h
    exact List.forall_mem_singleton.mpr (isScalar_unit h.1 h.2)
  | case4 u v rest h ih =>
    rw [codePoints, if_pos h]
    rw [Bool.and_eq_true] at h
    exact List.forall_mem_cons.mpr ⟨isScalar_pairPoint h.1 h.2, ih⟩
  | case5 u v rest h h' ih =>
    rw [codePoints, if_neg h, if_pos h']
    exact List.forall_mem_cons.mpr ⟨hreplaced, ih⟩
  | case6 u v rest h h' ih =>
    rw [codePoints, if_neg h, if_neg h']
    simp only [Bool.or_eq_true, not_or, Bool.not_eq_true] at h'
    exact List.forall_mem_cons.mpr ⟨isScalar_unit h'.1 h'.2, ih⟩

theorem pointUnits_unit (u : UInt16) : pointUnits u.toNat = [u] := by
  unfold pointUnits
  rw [if_pos u.toNat_lt, UInt16.ofNat_toNat]

theorem pointUnits_pairPoint {u v : UInt16} (hu : isHighSurrogate u = true)
    (hv : isLowSurrogate v = true) : pointUnits (pairPoint u v) = [u, v] := by
  have hu' := (isHighSurrogate_iff u).mp hu
  have hv' := (isLowSurrogate_iff v).mp hv
  have hhigh : 0xd800 + (pairPoint u v - 0x10000) / 0x400 = u.toNat := by
    unfold pairPoint
    omega
  have hlow : 0xdc00 + (pairPoint u v - 0x10000) % 0x400 = v.toNat := by
    unfold pairPoint
    omega
  unfold pointUnits
  rw [if_neg (by unfold pairPoint; omega), hhigh, hlow, UInt16.ofNat_toNat, UInt16.ofNat_toNat]

/-- One character of a well-formed text. -/
theorem wellFormed_cons {u : UInt16} {text : JsText} (h : hasWellFormedUnicode (u :: text) = true) :
    (isHighSurrogate u = false ∧ isLowSurrogate u = false ∧ hasWellFormedUnicode text = true ∧
      ∀ after, codePoints (u :: (text ++ after)) = u.toNat :: codePoints (text ++ after)) ∨
    ∃ v rest, text = v :: rest ∧ isHighSurrogate u = true ∧ isLowSurrogate v = true ∧
      hasWellFormedUnicode rest = true := by
  cases text with
  | nil =>
    simp only [hasWellFormedUnicode, Bool.not_eq_true', Bool.or_eq_false_iff] at h
    refine .inl ⟨h.1, h.2, rfl, fun after => ?_⟩
    cases after with
    | nil => simp [codePoints, h.1, h.2]
    | cons v after => simp [codePoints, h.1, h.2]
  | cons v rest =>
    rw [hasWellFormedUnicode] at h
    cases hu : isHighSurrogate u with
    | true =>
      rw [hu, if_pos rfl, Bool.and_eq_true] at h
      exact .inr ⟨v, rest, rfl, rfl, h.1, h.2⟩
    | false =>
      rw [hu, if_neg Bool.false_ne_true, Bool.and_eq_true, Bool.not_eq_true'] at h
      exact .inl ⟨rfl, h.1, h.2, fun after => by simp [codePoints, hu, h.1]⟩

/-- The code points of a text that starts with a well-formed one. -/
theorem codePoints_append {first : JsText} (h : hasWellFormedUnicode first = true)
    (second : JsText) : codePoints (first ++ second) = codePoints first ++ codePoints second := by
  induction first using hasWellFormedUnicode.induct with
  | case1 => rfl
  | case2 u =>
    obtain ⟨-, -, -, hcons⟩ | ⟨v, rest, hrest, -⟩ := wellFormed_cons h
    · have hone := hcons []
      have hmany := hcons second
      simp only [List.nil_append, List.append_nil] at hone hmany
      rw [hone, List.singleton_append, hmany]
      rfl
    · cases hrest
  | case3 u v rest hu ih =>
    rw [hasWellFormedUnicode, if_pos hu, Bool.and_eq_true] at h
    have hpair : ∀ after, codePoints (u :: v :: after) = pairPoint u v :: codePoints after :=
      fun after => by rw [codePoints, if_pos (by rw [hu, h.1]; rfl)]
    rw [List.cons_append, List.cons_append, hpair, hpair, ih h.2]
    rfl
  | case4 u v rest hu ih =>
    obtain ⟨-, -, hrest, hcons⟩ | ⟨_, _, hrest, hu', -⟩ := wellFormed_cons h
    · have hone := hcons []
      have hmany := hcons second
      rw [List.append_nil] at hone
      rw [hone, List.cons_append, hmany, ih hrest]
      rfl
    · exact absurd hu' hu

/-- The units of the code points of a well-formed text are the text. -/
theorem units_codePoints {text : JsText} (h : hasWellFormedUnicode text = true) :
    (codePoints text).flatMap pointUnits = text := by
  induction text using hasWellFormedUnicode.induct with
  | case1 => rfl
  | case2 u =>
    obtain ⟨-, -, -, hcons⟩ | ⟨v, rest, hrest, -⟩ := wellFormed_cons h
    · have hone := hcons []
      simp only [List.append_nil] at hone
      rw [hone, List.flatMap_cons, pointUnits_unit]
      rfl
    · cases hrest
  | case3 u v rest hu ih =>
    rw [hasWellFormedUnicode, if_pos hu, Bool.and_eq_true] at h
    rw [codePoints, if_pos (by rw [hu, h.1]; rfl), List.flatMap_cons, ih h.2,
      pointUnits_pairPoint hu h.1]
    rfl
  | case4 u v rest hu ih =>
    obtain ⟨-, -, hrest, hcons⟩ | ⟨_, _, hrest, hu', -⟩ := wellFormed_cons h
    · have hone := hcons []
      rw [List.append_nil] at hone
      rw [hone, List.flatMap_cons, ih hrest, pointUnits_unit]
      rfl
    · exact absurd hu' hu

theorem encodeUtf8_append {first : JsText} (h : hasWellFormedUnicode first = true)
    (second : JsText) : encodeUtf8 (first ++ second) = encodeUtf8 first ++ encodeUtf8 second := by
  unfold encodeUtf8
  rw [codePoints_append h, List.flatMap_append]

theorem codePoints_ne_nil {text : JsText} (h : text ≠ []) : codePoints text ≠ [] := by
  cases text with
  | nil => exact absurd rfl h
  | cons u text =>
    cases text with
    | nil =>
      rw [codePoints]
      split <;> exact List.cons_ne_nil _ _
    | cons v text =>
      rw [codePoints]
      split
      · exact List.cons_ne_nil _ _
      split <;> exact List.cons_ne_nil _ _

theorem length_encodeUtf8_pos {text : JsText} (h : text ≠ []) : 0 < (encodeUtf8 text).length := by
  obtain ⟨n, points, hpoints⟩ := List.exists_cons_of_ne_nil (codePoints_ne_nil h)
  unfold encodeUtf8
  rw [hpoints, List.flatMap_cons, List.length_append]
  exact Nat.lt_of_lt_of_le (length_encodePoint_pos n) (Nat.le_add_right _ _)

/-- The units of a scalar value are one character of a well-formed text. -/
theorem units_scalar {n : Nat} (h : isScalar n) (rest : JsText) :
    codePoints (pointUnits n ++ rest) = n :: codePoints rest ∧
      (hasWellFormedUnicode rest = true → hasWellFormedUnicode (pointUnits n ++ rest) = true) := by
  unfold isScalar at h
  unfold pointUnits
  split
  · next hn =>
    have hvalue : (UInt16.ofNat n).toNat = n := toNat_ofNat16 hn
    have hhigh : isHighSurrogate (UInt16.ofNat n) = false := by
      rw [Bool.eq_false_iff, Ne, isHighSurrogate_iff, hvalue]
      omega
    have hlow : isLowSurrogate (UInt16.ofNat n) = false := by
      rw [Bool.eq_false_iff, Ne, isLowSurrogate_iff, hvalue]
      omega
    cases rest with
    | nil => simp [codePoints, hasWellFormedUnicode, hhigh, hlow, hvalue]
    | cons v rest => simp [codePoints, hasWellFormedUnicode, hhigh, hlow, hvalue]
  · next hn =>
    have hfirst : (UInt16.ofNat (0xd800 + (n - 0x10000) / 0x400)).toNat =
        0xd800 + (n - 0x10000) / 0x400 := toNat_ofNat16 (by omega)
    have hsecond : (UInt16.ofNat (0xdc00 + (n - 0x10000) % 0x400)).toNat =
        0xdc00 + (n - 0x10000) % 0x400 := toNat_ofNat16 (by omega)
    have hhigh : isHighSurrogate (UInt16.ofNat (0xd800 + (n - 0x10000) / 0x400)) = true := by
      rw [isHighSurrogate_iff, hfirst]
      omega
    have hlow : isLowSurrogate (UInt16.ofNat (0xdc00 + (n - 0x10000) % 0x400)) = true := by
      rw [isLowSurrogate_iff, hsecond]
      omega
    have hpoint : pairPoint (UInt16.ofNat (0xd800 + (n - 0x10000) / 0x400))
        (UInt16.ofNat (0xdc00 + (n - 0x10000) % 0x400)) = n := by
      unfold pairPoint
      rw [hfirst, hsecond]
      omega
    refine ⟨?_, fun hrest => ?_⟩
    · rw [List.cons_append, List.cons_append, List.nil_append, codePoints,
        if_pos (by rw [hhigh, hlow]; rfl), hpoint]
    · rw [List.cons_append, List.cons_append, List.nil_append, hasWellFormedUnicode, if_pos hhigh,
        hlow, hrest]
      rfl

theorem codePoints_units {points : List Nat} (h : ∀ n ∈ points, isScalar n) :
    codePoints (points.flatMap pointUnits) = points ∧
      hasWellFormedUnicode (points.flatMap pointUnits) = true := by
  induction points with
  | nil => exact ⟨rfl, rfl⟩
  | cons n points ih =>
    obtain ⟨hpoints, hwell⟩ := ih fun m hm => h m (List.mem_cons_of_mem _ hm)
    obtain ⟨hunits, hkeeps⟩ := units_scalar (h n List.mem_cons_self) (points.flatMap pointUnits)
    rw [List.flatMap_cons]
    exact ⟨hunits.trans (congrArg _ hpoints), hkeeps hwell⟩

theorem hasWellFormedUnicode_append {first second : JsText}
    (h : hasWellFormedUnicode first = true) (h' : hasWellFormedUnicode second = true) :
    hasWellFormedUnicode (first ++ second) = true := by
  have hwell := (codePoints_units (isScalar_codePoints (first ++ second))).2
  rwa [codePoints_append h, List.flatMap_append, units_codePoints h, units_codePoints h'] at hwell

theorem encodeUtf8_units {points : List Nat} (h : ∀ n ∈ points, isScalar n) :
    encodeUtf8 (points.flatMap pointUnits) = points.flatMap encodePoint := by
  unfold encodeUtf8
  rw [(codePoints_units h).1]

/-- Two encodings that one begins the other begin the other as points. -/
theorem prefix_of_encode {front points : List Nat} (hfront : ∀ n ∈ front, isScalar n)
    (hpoints : ∀ n ∈ points, isScalar n)
    (h : front.flatMap encodePoint <+: points.flatMap encodePoint) : front <+: points := by
  obtain ⟨rest, hrest⟩ := h
  have hdecode := decodePoints_encode hfront rest
  rw [hrest, decodePoints_encodePoints hpoints] at hdecode
  obtain ⟨tail, -, htail⟩ := Option.map_eq_some_iff.mp hdecode.symm
  exact ⟨tail, htail⟩

end Henji
