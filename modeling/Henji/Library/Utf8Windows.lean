import Henji.Library.Utf8

/-!
# Windows of a text

Reading an encoded text in windows of a bounded number of bytes: each window is the longest front of
whole characters that fits, and the decoder drops a byte order mark at the start of a window.

Results:
1. `prefix_fitting`: no longer front fits.
2. `flatten_map_dropMark`: windows come back whole exactly if none starts with a mark.
3. `flatten_splitWindows_of_fits`: windows in which every character fits cover the text.
-/

namespace Henji

/-! ## Windows of characters -/

/-- The longest front whose encoding fits in `limit` bytes. -/
def fitting : Nat → List Nat → List Nat
  | _, [] => []
  | limit, n :: points =>
    if (encodePoint n).length ≤ limit then n :: fitting (limit - (encodePoint n).length) points
    else []

/-- The windows that the limits cut from a text. -/
def splitWindows : List Nat → List Nat → List (List Nat)
  | [], _ => []
  | limit :: limits, points =>
    let window := fitting limit points
    if window.length = points.length then [window]
    else window :: splitWindows limits (points.drop window.length)

/-- What the decoder leaves of a window. -/
def dropMark : List Nat → List Nat
  | 0xfeff :: points => points
  | points => points

theorem fitting_isFront (limit : Nat) (points : List Nat) : fitting limit points <+: points := by
  induction points generalizing limit with
  | nil => exact List.prefix_rfl
  | cons n points ih =>
    unfold fitting
    split
    · exact List.cons_prefix_cons.mpr ⟨rfl, ih _⟩
    · exact List.nil_prefix

theorem length_fitting_le (limit : Nat) (points : List Nat) :
    ((fitting limit points).flatMap encodePoint).length ≤ limit := by
  induction points generalizing limit with
  | nil => exact Nat.zero_le _
  | cons n points ih =>
    unfold fitting
    split
    · have hrest := ih (limit - (encodePoint n).length)
      rw [List.flatMap_cons, List.length_append]
      omega
    · exact Nat.zero_le _

theorem fits_of_mem_fitting {limit n : Nat} {points : List Nat} (h : n ∈ fitting limit points) :
    (encodePoint n).length ≤ limit := by
  obtain ⟨before, after, hpoints⟩ := List.append_of_mem h
  have hlimit := length_fitting_le limit points
  rw [hpoints, List.flatMap_append, List.flatMap_cons, List.length_append,
    List.length_append] at hlimit
  omega

theorem fitting_append_drop (limit : Nat) (points : List Nat) :
    fitting limit points ++ points.drop (fitting limit points).length = points := by
  conv_rhs => rw [← List.take_append_drop (fitting limit points).length points]
  rw [← List.prefix_iff_eq_take.mp (fitting_isFront limit points)]

/-- No longer front fits. -/
theorem prefix_fitting {limit : Nat} {front points : List Nat} (h : front <+: points)
    (hlimit : (front.flatMap encodePoint).length ≤ limit) : front <+: fitting limit points := by
  induction points generalizing limit front with
  | nil => exact h
  | cons n points ih =>
    cases front with
    | nil => exact List.nil_prefix
    | cons m front =>
      obtain ⟨rfl, hfront⟩ := List.cons_prefix_cons.mp h
      rw [List.flatMap_cons, List.length_append] at hlimit
      unfold fitting
      rw [if_pos (Nat.le_trans (Nat.le_add_right _ _) hlimit)]
      exact List.cons_prefix_cons.mpr ⟨rfl, ih hfront (by omega)⟩

theorem fitting_of_le {limit : Nat} {points : List Nat}
    (h : (points.flatMap encodePoint).length ≤ limit) : fitting limit points = points :=
  (fitting_isFront limit points).eq_of_length_le (prefix_fitting List.prefix_rfl h).length_le

theorem fitting_ne_nil_of_fits {limit : Nat} {points : List Nat}
    (h : ∀ n ∈ points, (encodePoint n).length ≤ limit) (hpoints : points ≠ []) :
    fitting limit points ≠ [] := by
  obtain ⟨n, points, rfl⟩ := List.exists_cons_of_ne_nil hpoints
  unfold fitting
  rw [if_pos (h n List.mem_cons_self)]
  exact List.cons_ne_nil _ _

theorem fitting_ne_nil {limit : Nat} {points : List Nat} (h : 4 ≤ limit) (hpoints : points ≠ []) :
    fitting limit points ≠ [] :=
  fitting_ne_nil_of_fits (fun n _ => Nat.le_trans (length_encodePoint_le n) h) hpoints

theorem encode_isFront {front points : List Nat} (h : front <+: points) :
    front.flatMap encodePoint <+: points.flatMap encodePoint := by
  obtain ⟨rest, rfl⟩ := h
  rw [List.flatMap_append]
  exact List.prefix_append _ _

/-- A front of an encoding decodes where it is the encoding of a front. -/
theorem points_of_decodes {points : List Nat} (hpoints : ∀ n ∈ points, isScalar n) {length : Nat}
    (h : (decodeUtf8 ((points.flatMap encodePoint).take length)).isSome = true) :
    ∃ front, front <+: points ∧
      front.flatMap encodePoint = (points.flatMap encodePoint).take length := by
  unfold decodeUtf8 at h
  rw [Option.isSome_map] at h
  obtain ⟨front, hfront⟩ := Option.isSome_iff_exists.mp h
  obtain ⟨hscalar, hencode⟩ := encode_of_decodePoints hfront
  exact ⟨front, prefix_of_encode hscalar hpoints (hencode ▸ List.take_prefix _ _), hencode⟩

theorem decodeUtf8_encode {points : List Nat} (hpoints : ∀ n ∈ points, isScalar n) :
    decodeUtf8 (points.flatMap encodePoint) = some ((dropMark points).flatMap pointUnits) := by
  unfold decodeUtf8
  rw [decodePoints_encodePoints hpoints]
  rfl

theorem encode_eq_nil {points : List Nat} : points.flatMap encodePoint = [] ↔ points = [] := by
  refine ⟨fun h => ?_, fun h => h ▸ rfl⟩
  cases points with
  | nil => rfl
  | cons n points =>
    rw [List.flatMap_cons, List.append_eq_nil_iff] at h
    have hpos := length_encodePoint_pos n
    rw [h.1] at hpos
    cases hpos

theorem eq_of_encode_length {front points : List Nat} (h : front <+: points)
    (hlength : (front.flatMap encodePoint).length = (points.flatMap encodePoint).length) :
    front = points := by
  obtain ⟨rest, rfl⟩ := h
  rw [List.flatMap_append, List.length_append] at hlength
  have hrest : rest.flatMap encodePoint = [] := List.length_eq_zero_iff.mp (by omega)
  rw [encode_eq_nil.mp hrest, List.append_nil]

theorem dropMark_suffix (points : List Nat) : dropMark points <:+ points := by
  unfold dropMark
  split
  · exact List.suffix_cons _ _
  · exact List.suffix_rfl

theorem length_encode_dropMark_le (points : List Nat) :
    ((dropMark points).flatMap encodePoint).length ≤ (points.flatMap encodePoint).length := by
  obtain ⟨front, hfront⟩ := dropMark_suffix points
  have hlength := congrArg (fun points => (points.flatMap encodePoint).length) hfront
  simp only [List.flatMap_append, List.length_append] at hlength
  omega

/-- A mark takes three bytes. -/
theorem length_encode_le_dropMark (points : List Nat) :
    (points.flatMap encodePoint).length ≤ ((dropMark points).flatMap encodePoint).length + 3 := by
  unfold dropMark
  split
  · rw [List.flatMap_cons, List.length_append, Nat.add_comm]
    exact Nat.le_refl _
  · exact Nat.le_add_right _ _

/-! ## Marks -/

/-- Windows come back whole where none starts with a mark. -/
theorem flatten_map_dropMark (windows : List (List Nat)) :
    (windows.map dropMark).flatten = windows.flatten ↔
      ∀ window ∈ windows, window.head? ≠ some 0xfeff := by
  have hle : ∀ window : List Nat, (dropMark window).length ≤ window.length := fun window =>
    (dropMark_suffix window).length_le
  have hshort : ∀ windows : List (List Nat),
      (windows.map dropMark).flatten.length ≤ windows.flatten.length := by
    intro windows
    induction windows with
    | nil => exact Nat.le_refl 0
    | cons window windows ih =>
      rw [List.map_cons, List.flatten_cons, List.flatten_cons, List.length_append,
        List.length_append]
      exact Nat.add_le_add (hle window) ih
  have hmark : ∀ window : List Nat, window.head? = some 0xfeff →
      (dropMark window).length < window.length := by
    intro window hhead
    obtain ⟨points, rfl⟩ := List.head?_eq_some_iff.mp hhead
    exact Nat.lt_succ_self _
  have hnone : ∀ window : List Nat, window.head? ≠ some 0xfeff → dropMark window = window := by
    intro window hhead
    unfold dropMark
    split
    · exact absurd rfl hhead
    · rfl
  induction windows with
  | nil => exact ⟨fun _ _ hmem => absurd hmem List.not_mem_nil, fun _ => rfl⟩
  | cons window windows ih =>
    rw [List.map_cons, List.flatten_cons, List.flatten_cons, List.forall_mem_cons]
    constructor
    · intro heq
      have hlength := congrArg List.length heq
      rw [List.length_append, List.length_append] at hlength
      have hrest := hshort windows
      have hhead : window.head? ≠ some 0xfeff := fun hhead => by
        have := hmark window hhead
        omega
      rw [hnone window hhead] at heq
      exact ⟨hhead, ih.mp (List.append_cancel_left heq)⟩
    · rintro ⟨hhead, hwindows⟩
      rw [hnone window hhead, ih.mpr hwindows]

/-- Enough windows in which every character fits cover a text. -/
theorem flatten_splitWindows_of_fits {limits points : List Nat}
    (hfits : ∀ limit ∈ limits, ∀ n ∈ points, (encodePoint n).length ≤ limit)
    (hmany : points.length < limits.length) : (splitWindows limits points).flatten = points := by
  induction limits generalizing points with
  | nil => exact absurd hmany (Nat.not_lt_zero _)
  | cons limit limits ih =>
    have hfitting := fitting_isFront limit points
    unfold splitWindows
    dsimp only
    split
    · next hdone => rw [List.flatten_singleton, hfitting.eq_of_length hdone]
    · next hmore =>
      have hne : points ≠ [] := by
        rintro rfl
        exact hmore rfl
      have hpos := List.length_pos_iff.mpr
        (fitting_ne_nil_of_fits (hfits limit List.mem_cons_self) hne)
      have hshort : (points.drop (fitting limit points).length).length < limits.length := by
        rw [List.length_drop]
        rw [List.length_cons] at hmany
        have := List.length_pos_iff.mpr hne
        omega
      have hrest := ih (fun other hmem n hn => hfits other (List.mem_cons_of_mem _ hmem) n
        (List.mem_of_mem_drop hn)) hshort
      rw [List.flatten_cons, hrest]
      exact fitting_append_drop limit points

theorem flatten_splitWindows {limits points : List Nat} (hlimits : ∀ limit ∈ limits, 4 ≤ limit)
    (hmany : points.length < limits.length) : (splitWindows limits points).flatten = points :=
  flatten_splitWindows_of_fits
    (fun limit hmem n _ => Nat.le_trans (length_encodePoint_le n) (hlimits limit hmem)) hmany

end Henji
