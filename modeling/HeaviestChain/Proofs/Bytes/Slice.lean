import Mathlib.Tactic.SplitIfs

/-!
Buffers written slice by slice. If slices tile a whole, each place of it lying in exactly one of
them, they leave the whole behind whatever buffer of its length they are copied over and whatever
the order. Bytes that are laid one behind another tile what they add up to.
-/

namespace HeaviestChain

/-- Bytes with the place of the first of them in a buffer. -/
structure Slice where
  start : Nat
  bytes : List UInt8

namespace Slice

/-- The place behind the last byte. -/
def stop (s : Slice) : Nat := s.start + s.bytes.length

/-- Whether a place lies in a slice. -/
def Covers (s : Slice) (place : Nat) : Prop := s.start ≤ place ∧ place < s.stop

instance (s : Slice) (place : Nat) : Decidable (s.Covers place) :=
  inferInstanceAs (Decidable (_ ∧ _))

/-- The buffer with a slice copied over what it held there. -/
def copy (buffer : List UInt8) (s : Slice) : List UInt8 :=
  buffer.take s.start ++ s.bytes ++ buffer.drop s.stop

/-- Whether a whole has the bytes of a slice at their place. -/
def In (s : Slice) (whole : List UInt8) : Prop :=
  ∃ before after, whole = before ++ s.bytes ++ after ∧ before.length = s.start

/-- Whether slices are the parts of a whole, without a gap and without an overlap. -/
structure Tiles (slices : List Slice) (whole : List UInt8) : Prop where
  parts : ∀ s ∈ slices, s.In whole
  once : ∀ place < whole.length, (slices.countP fun s => s.Covers place) = 1

/-- The slices of byte strings laid one behind another, from a place on. -/
def inTurn : Nat → List (List UInt8) → List Slice
  | _, [] => []
  | start, bytes :: rest => ⟨start, bytes⟩ :: inTurn (start + bytes.length) rest

variable {s : Slice} {slices order : List Slice} {whole buffer : List UInt8}

theorem covers_iff {place : Nat} :
    s.Covers place ↔ s.start ≤ place ∧ place - s.start < s.bytes.length := by
  rw [Covers, stop]
  omega

theorem In.stop_le (part : s.In whole) : s.stop ≤ whole.length := by
  obtain ⟨before, after, rfl, length⟩ := part
  simp only [List.length_append, stop]
  omega

theorem In.take_drop (part : s.In whole) :
    (whole.drop s.start).take s.bytes.length = s.bytes := by
  obtain ⟨before, after, rfl, length⟩ := part
  rw [← length, List.append_assoc, List.drop_left, List.take_left]

theorem In.getElem? (part : s.In whole) {place : Nat} (covers : s.Covers place) :
    whole[place]? = s.bytes[place - s.start]? := by
  obtain ⟨low, inside⟩ := covers_iff.1 covers
  have read := congrArg (fun bytes => bytes[place - s.start]?) part.take_drop
  rwa [List.getElem?_take_of_lt inside, List.getElem?_drop, Nat.add_sub_cancel' low] at read

theorem length_copy (fits : s.stop ≤ buffer.length) : (copy buffer s).length = buffer.length := by
  rw [stop] at fits
  simp only [copy, stop, List.length_append, List.length_take, List.length_drop]
  omega

/-- A copy changes the places of the slice and no other. -/
theorem getElem?_copy (fits : s.stop ≤ buffer.length) (place : Nat) :
    (copy buffer s)[place]? =
      if s.Covers place then s.bytes[place - s.start]? else buffer[place]? := by
  have front : (buffer.take s.start).length = s.start := by
    rw [stop] at fits
    rw [List.length_take]
    omega
  rw [copy, List.append_assoc]
  by_cases low : s.start ≤ place
  · rw [List.getElem?_append_right (front.symm ▸ low), front]
    by_cases inside : place - s.start < s.bytes.length
    · rw [List.getElem?_append_left inside, if_pos (covers_iff.2 ⟨low, inside⟩)]
    · have back : s.stop + (place - s.start - s.bytes.length) = place := by
        rw [stop]
        omega
      rw [List.getElem?_append_right (Nat.le_of_not_lt inside), List.getElem?_drop, back,
        if_neg fun covers => inside (covers_iff.1 covers).2]
  · have before : place < (buffer.take s.start).length := by omega
    rw [List.getElem?_append_left before, List.getElem?_take_of_lt (Nat.lt_of_not_le low),
      if_neg fun covers => low covers.1]

/-- Parts of a whole, copied over a buffer of its length, leave the whole in the places that they
cover and the buffer in the others. -/
theorem getElem?_foldl_copy (parts : ∀ s ∈ order, s.In whole)
    (same : buffer.length = whole.length) (place : Nat) :
    (order.foldl copy buffer)[place]? =
      if ∃ s ∈ order, s.Covers place then whole[place]? else buffer[place]? := by
  induction order generalizing buffer with
  | nil => simp
  | cons s order ih =>
    obtain ⟨part, parts⟩ := List.forall_mem_cons.1 parts
    have fits : s.stop ≤ buffer.length := same ▸ part.stop_le
    rw [List.foldl_cons, ih parts ((length_copy fits).trans same), getElem?_copy fits]
    by_cases covers : s.Covers place
    · rw [← part.getElem? covers]
      simp [covers]
    · simp [covers]

/-- Slices that tile a whole leave it behind, whatever they are copied over and in any order. -/
theorem Tiles.foldl_copy (tiles : Tiles slices whole) (perm : order.Perm slices)
    (same : buffer.length = whole.length) : order.foldl copy buffer = whole := by
  have parts : ∀ s ∈ order, s.In whole := fun s m => tiles.parts s (perm.mem_iff.1 m)
  apply List.ext_getElem?
  intro place
  rw [getElem?_foldl_copy parts same]
  by_cases inside : place < whole.length
  · have some : 0 < slices.countP fun s => s.Covers place := by
      rw [tiles.once place inside]
      exact Nat.one_pos
    obtain ⟨s, m, covers⟩ := List.countP_pos_iff.1 some
    rw [if_pos ⟨s, perm.mem_iff.2 m, by simpa using covers⟩]
  · have behind : whole.length ≤ place := Nat.le_of_not_lt inside
    rw [List.getElem?_eq_none behind, List.getElem?_eq_none (same ▸ behind), ite_self]

theorem in_of_mem_inTurn (before : List UInt8) {pieces : List (List UInt8)}
    (m : s ∈ inTurn before.length pieces) : s.In (before ++ pieces.flatten) := by
  induction pieces generalizing before with
  | nil => cases m
  | cons bytes rest ih =>
    rw [inTurn, ← List.length_append] at m
    rw [List.flatten_cons, ← List.append_assoc]
    rcases List.mem_cons.1 m with rfl | m
    · exact ⟨before, rest.flatten, rfl, rfl⟩
    · exact ih (before ++ bytes) m

theorem countP_inTurn (start : Nat) (pieces : List (List UInt8)) (place : Nat) :
    ((inTurn start pieces).countP fun s => s.Covers place) =
      if start ≤ place ∧ place < start + pieces.flatten.length then 1 else 0 := by
  induction pieces generalizing start with
  | nil =>
    rw [if_neg]
    · rfl
    · simp
  | cons bytes rest ih =>
    rw [inTurn, List.countP_cons, ih, List.flatten_cons, List.length_append]
    have here : (decide ((⟨start, bytes⟩ : Slice).Covers place) = true) ↔
        start ≤ place ∧ place < start + bytes.length := decide_eq_true_iff
    simp only [here]
    split_ifs <;> omega

theorem tiles_inTurn (pieces : List (List UInt8)) : Tiles (inTurn 0 pieces) pieces.flatten where
  parts _ m := in_of_mem_inTurn [] m
  once place inside := by
    rw [countP_inTurn, if_pos]
    exact ⟨Nat.zero_le place, by rwa [Nat.zero_add]⟩

end Slice

end HeaviestChain
