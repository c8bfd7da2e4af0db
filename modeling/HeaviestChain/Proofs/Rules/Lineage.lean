import HeaviestChain.Proofs.Params.Sound
import HeaviestChain.Proofs.Tree.Work
import HeaviestChain.Proofs.Walk.Ancestry
import HeaviestChain.Rules.Difficulty
import HeaviestChain.Rules.MedianTime

/-!
What the rules require of a child, read off the branch of its parent alone. Over a grown catalog the
walks of the rules come to these values.
-/

namespace HeaviestChain

theorem Target.ofNat_toNat (t : Target) : ofNat t.toNat = t :=
  Target.ext (toNat_ofNat_of_lt t.toNat_lt)

/-- An interval counts as four times as long as it should be, at most. -/
theorem boundedSpan_le (expected : Nat) (first last : UInt32) :
    boundedSpan expected first last ≤ expected * 4 := by
  unfold boundedSpan
  omega

/-- A target scaled by such a time fits the bits that hold the product. -/
theorem Target.mul_boundedSpan_lt (t : Target) (expected first last : UInt32) :
    t.toNat * boundedSpan expected.toNat first last < Work.bound := by
  refine Nat.mul_lt_mul_of_lt_of_lt t.toNat_lt ?_
  have most := boundedSpan_le expected.toNat first last
  have small : expected.toNat < UInt32.size := expected.toNat_lt
  have wide : UInt32.size * 4 < Target.bound := by decide
  omega

theorem median_singleton (time : UInt32) : median [time] = time := by
  simp [median]

namespace Params

/-- The target after an interval: the target of its last header, scaled by the time the interval
took over the time it should take, and no easier than the limit. -/
def nextTarget (p : Params) (last : Target) (start stop : UInt32) : Target :=
  .ofNat (min p.limit.toNat
    (last.toNat * boundedSpan p.timespan.toNat start stop / p.timespan.toNat))

/-- The bits that a child of the first record of a branch must carry at a time. -/
def dueBits (p : Params) (branch : List Record) (time : UInt32) : Option UInt32 :=
  match branch with
  | [] => none
  | parent :: _ =>
    if parent.height ≠ 0 ∧ (parent.height.toNat + 1) % p.interval.toNat = 0 then
      if p.fixedDifficulty then some parent.header.bits
      else
        branch[p.interval.toNat - 1]?.map fun first =>
          (p.nextTarget parent.header.claimed first.header.time parent.header.time).toCompact
    else
      match p.minDifficulty with
      | .disabled => some parent.header.bits
      | .afterGap gap =>
        if parent.header.time.toNat + gap.toNat < time.toNat then some p.limitBits
        else (branch.find? p.decidesTarget).map fun r => r.header.bits

/-- The median time of the latest records of a branch. -/
def medianPast (p : Params) (branch : List Record) : UInt32 :=
  median ((branch.take p.medianSpan.toNat).map fun r => r.header.time)

variable {p : Params}

theorem retarget_eq (timed : p.timespan ≠ 0) (last : Target) (start stop : UInt32) :
    p.retarget last start stop = .ok (p.nextTarget last start stop) := by
  have fits := last.mul_boundedSpan_lt p.timespan start stop
  unfold retarget
  rw [if_neg (Nat.not_le.2 fits), if_neg timed, nextTarget]
  by_cases above :
      p.limit.toNat < last.toNat * boundedSpan p.timespan.toNat start stop / p.timespan.toNat
  · rw [Nat.min_eq_left (Nat.le_of_lt above), Target.ofNat_toNat]
    exact if_pos above
  · rw [Nat.min_eq_right (Nat.le_of_not_lt above)]
    exact if_neg above

theorem closesInterval_eq (sound : p.Sound) (height : UInt32) :
    p.closesInterval height =
      .ok (decide (height ≠ 0 ∧ (height.toNat + 1) % p.interval.toNat = 0)) := by
  have long := sound.bounds.1
  have some : p.interval ≠ 0 := by
    intro none
    rw [none] at long
    cases long
  unfold closesInterval
  by_cases low : height = 0
  · simp [low]
  · simp [low, some]

end Params

section Grown

open Catalog

variable {p : Params} {g : Record} {c : Catalog} {parent : Record}

theorem Params.run_nextIntervalBits (grown : Grown g c) (sound : p.Sound) (m : parent ∈ c)
    (room : parent.height.toNat + 1 < UInt32.size)
    (closes : (parent.height.toNat + 1) % p.interval.toNat = 0) (stored : Nat) :
    ∃ first, (c.branch parent)[p.interval.toNat - 1]? = some first ∧
      (p.nextIntervalBits stored parent).run c.find? =
        .ok (p.nextTarget parent.header.claimed first.header.time
          parent.header.time).toCompact := by
  obtain ⟨long, timed, -⟩ := sound.bounds
  have whole : p.interval.toNat ≤ parent.height.toNat + 1 :=
    Nat.le_of_dvd (Nat.succ_pos _) (Nat.dvd_of_mod_eq_zero closes)
  have low : parent.height.toNat + 1 - p.interval.toNat ≤ parent.height.toNat := by omega
  obtain ⟨first, e, found⟩ := Walk.run_descend grown m low stored
  have steps : parent.height.toNat - (parent.height.toNat + 1 - p.interval.toNat) =
      p.interval.toNat - 1 := by omega
  rw [steps] at e
  obtain ⟨t, claims⟩ := grown.target_eq_ok m
  have decoded : Target.ofCompact parent.header.bits = .ok t := claims
  refine ⟨first, e, ?_⟩
  rw [nextIntervalBits, if_neg (by omega), if_neg (Nat.not_lt.2 whole), Walk.run_bind, found]
  simp only [Except.bind, decoded, retarget_eq timed, Header.claimed_of_target claims]
  rfl

theorem Params.run_fallbackBits (grown : Grown g c) (m : parent ∈ c) (stored : Nat)
    (gap time : UInt32) :
    ∃ last, (c.branch parent).find? p.decidesTarget = some last ∧
      (p.fallbackBits stored gap parent time).run c.find? =
        .ok (if parent.header.time.toNat + gap.toNat < time.toNat then p.limitBits
          else last.header.bits) := by
  have decides : p.decidesTarget g = true := by
    simp [decidesTarget, grown.height_first]
  have found : ((c.branch parent).find? p.decidesTarget).isSome :=
    List.find?_isSome.2 ⟨g, grown.first_mem_branch m, decides⟩
  obtain ⟨last, e⟩ := Option.isSome_iff_exists.1 found
  have enough : parent.height.toNat ≤ Walk.reach stored parent := Nat.le_add_left _ _
  obtain ⟨passed, run, -⟩ := Walk.run_climb_of_find? grown m enough e
  refine ⟨last, e, ?_⟩
  unfold fallbackBits
  split
  · rfl
  · rw [Walk.run_bind, run]
    rfl

/-- At the end of an interval the bits stay or are those of the next target. -/
theorem Params.dueBits_of_closes (closes : parent.height ≠ 0 ∧
    (parent.height.toNat + 1) % p.interval.toNat = 0) (time : UInt32) :
    p.dueBits (c.branch parent) time =
      if p.fixedDifficulty then some parent.header.bits
      else (c.branch parent)[p.interval.toNat - 1]?.map fun first =>
        (p.nextTarget parent.header.claimed first.header.time parent.header.time).toCompact := by
  obtain ⟨rest, split⟩ := c.branch_eq_cons parent
  rw [split, dueBits, if_pos closes]

/-- The target that a child must carry is there, and is read off the branch of its parent. -/
theorem Params.run_requiredBits (grown : Grown g c) (sound : p.Sound) (m : parent ∈ c)
    (room : parent.height.toNat + 1 < UInt32.size) (stored : Nat) (time : UInt32) :
    ∃ bits, p.dueBits (c.branch parent) time = some bits ∧
      (p.requiredBits stored parent time).run c.find? = .ok bits := by
  obtain ⟨rest, split⟩ := c.branch_eq_cons parent
  unfold requiredBits
  simp only [closesInterval_eq sound, Walk.ofTrap, Walk.run_bind, Walk.run_done, Except.bind]
  by_cases closes : parent.height ≠ 0 ∧ (parent.height.toNat + 1) % p.interval.toNat = 0
  · rw [dueBits_of_closes closes, decide_eq_true closes]
    by_cases fixed : p.fixedDifficulty
    · exact ⟨_, by rw [if_pos fixed], by rw [if_pos rfl, if_pos fixed, Walk.run_done]⟩
    · obtain ⟨first, e, run⟩ := run_nextIntervalBits grown sound m room closes.2 stored
      exact ⟨_, by rw [if_neg fixed, e]; rfl, by rw [if_pos rfl, if_neg fixed, run]⟩
  · rw [decide_eq_false closes, if_neg Bool.false_ne_true]
    cases rule : p.minDifficulty with
    | disabled =>
      refine ⟨parent.header.bits, ?_, rfl⟩
      rw [split, dueBits, if_neg closes, rule]
    | afterGap gap =>
      obtain ⟨last, e, run⟩ := run_fallbackBits grown m stored gap time
      refine ⟨_, ?_, run⟩
      have due : p.dueBits (c.branch parent) time =
          if parent.header.time.toNat + gap.toNat < time.toNat then some p.limitBits
          else ((c.branch parent).find? p.decidesTarget).map fun r => r.header.bits := by
        rw [split, dueBits, if_neg closes, rule]
      rw [due, e]
      split <;> rfl

theorem Params.run_medianTime (grown : Grown g c) (sound : p.Sound) (m : parent ∈ c)
    (stored : Nat) :
    (p.medianTime stored parent).run c.find? =
      if wordCapacity ≤ p.medianSpan.toNat then .error (.trap .capacity)
      else .ok (p.medianPast (c.branch parent)) := by
  have some : p.medianSpan.toNat ≠ 0 := by
    intro none
    obtain ⟨-, -, -, -, span, -⟩ := sound.bounds
    exact span (UInt64.toNat_inj.1 none)
  unfold medianTime
  split
  · rfl
  · have held : 0 < (((c.branch parent).take p.medianSpan.toNat).map
        fun r => r.header.time).length := by
      obtain ⟨rest, split⟩ := c.branch_eq_cons parent
      rw [split, List.length_map, List.length_take, List.length_cons]
      omega
    rw [Walk.run_bind, Walk.run_latest grown m, if_neg some]
    simp only [Except.bind, if_pos (Nat.div_lt_self held Nat.one_lt_two), Walk.run_done]
    rfl

end Grown

end HeaviestChain
