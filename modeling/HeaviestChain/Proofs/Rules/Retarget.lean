import HeaviestChain.Proofs.Rules.Lineage
import HeaviestChain.Proofs.Target.Rounding

/-!
The target of the next interval. It is never above the easiest target, but scaled down it can come
to zero, which no compact word names. It does so exactly if the last target, times the time that
counts for its interval, is below the time that the interval should take.
-/

namespace HeaviestChain

open Target

theorem div_four_le_boundedSpan (expected : Nat) (first last : UInt32) :
    expected / 4 ≤ boundedSpan expected first last := by
  unfold boundedSpan
  omega

/-- An interval whose last header is not later than its first counts as a quarter of its time. -/
theorem boundedSpan_of_le (expected : Nat) {first last : UInt32} (back : last ≤ first) :
    boundedSpan expected first last = expected / 4 := by
  have le := UInt32.le_iff_toNat_le.1 back
  unfold boundedSpan
  omega

theorem Target.ofCompact_toCompact_of_zero {t : Target} (none : t.toNat = 0) :
    ofCompact t.toCompact = .error (.zero 0) := by
  obtain rfl : t = Target.zero := Target.ext none
  decide

namespace Params

/-- Whether the time that an interval took leaves a target for the next one. -/
def Sustains (p : Params) (last : Target) (start stop : UInt32) : Prop :=
  p.timespan.toNat ≤ last.toNat * boundedSpan p.timespan.toNat start stop

/-- Whether a target follows an interval, and what its compact form names: a target no easier than
the limit if the interval leaves one, and none otherwise. -/
structure Retargets (p : Params) (last : Target) (start stop : UInt32) (next : Target) : Prop where
  result : p.retarget last start stop = .ok next
  limited : next.toNat ≤ p.limit.toNat
  sustained : 1 ≤ next.toNat ↔ p.Sustains last start stop
  named : p.Sustains last start stop →
    ∃ t, ofCompact next.toCompact = .ok t ∧ 1 ≤ t.toNat ∧ t.toNat ≤ p.limit.toNat
  vanished : ¬p.Sustains last start stop →
    next.toNat = 0 ∧ ofCompact next.toCompact = .error (.zero 0)

variable {p : Params} {last : Target} {start stop : UInt32}

theorem Sound.ofCompact_limitBits (sound : p.Sound) : ofCompact p.limitBits = .ok p.limit := by
  obtain ⟨-, -, -, -, -, none⟩ := sound.bounds
  unfold targetFlaw? at none
  split at none
  · cases none
  · rename_i t names
    rw [limit, names]

theorem Sound.limit_pos (sound : p.Sound) : 1 ≤ p.limit.toNat :=
  (ofCompact_eq_ok.1 sound.ofCompact_limitBits).2.1

theorem Sound.timespan_pos (sound : p.Sound) : 0 < p.timespan.toNat := by
  obtain ⟨-, timed, -⟩ := sound.bounds
  exact Nat.pos_of_ne_zero fun none => timed (UInt32.toNat_inj.1 none)

theorem toNat_nextTarget (p : Params) (last : Target) (start stop : UInt32) :
    (p.nextTarget last start stop).toNat = min p.limit.toNat
      (last.toNat * boundedSpan p.timespan.toNat start stop / p.timespan.toNat) :=
  toNat_ofNat_of_lt (Nat.lt_of_le_of_lt (Nat.min_le_left _ _) p.limit.toNat_lt)

theorem nextTarget_pos_iff (sound : p.Sound) :
    1 ≤ (p.nextTarget last start stop).toNat ↔ p.Sustains last start stop := by
  rw [toNat_nextTarget, Nat.le_min, Nat.le_div_iff_mul_le sound.timespan_pos, Nat.one_mul]
  exact and_iff_right sound.limit_pos

theorem retargets_nextTarget (sound : p.Sound) (last : Target) (start stop : UInt32) :
    p.Retargets last start stop (p.nextTarget last start stop) := by
  have limited : (p.nextTarget last start stop).toNat ≤ p.limit.toNat := by
    rw [toNat_nextTarget]
    exact Nat.min_le_left _ _
  refine ⟨retarget_eq sound.bounds.2.1 last start stop, limited, nextTarget_pos_iff sound, ?_, ?_⟩
  · intro sustains
    have some := (nextTarget_pos_iff sound).2 sustains
    obtain ⟨t, rounds⟩ := exists_roundsTo some
    obtain ⟨-, pos, -⟩ := ofCompact_eq_ok.1 rounds.decoded
    exact ⟨t, rounds.decoded, pos, rounds.below.trans limited⟩
  · intro spent
    have none : (p.nextTarget last start stop).toNat = 0 := by
      have := mt (nextTarget_pos_iff sound).1 spent
      omega
    exact ⟨none, ofCompact_toCompact_of_zero none⟩

/-- Every time that an interval may take leaves a target exactly if a quarter of its time does. -/
theorem sustains_always_iff :
    (∀ start stop, p.Sustains last start stop) ↔
      p.timespan.toNat ≤ last.toNat * (p.timespan.toNat / 4) := by
  constructor
  · intro always
    have back := always 0 0
    rwa [Sustains, boundedSpan_of_le _ (UInt32.le_refl 0)] at back
  · intro quarter start stop
    exact quarter.trans (Nat.mul_le_mul_left _ (div_four_le_boundedSpan _ _ _))

section Grown

open Catalog

variable {g parent : Record} {c : Catalog}

/-- Behind a record that closes its interval the target is scaled by the time from the first record
of the interval on. -/
theorem exists_first_of_closes (grown : Grown g c) (sound : p.Sound) (m : parent ∈ c)
    (closes : parent.height ≠ 0 ∧ (parent.height.toNat + 1) % p.interval.toNat = 0) :
    ∃ first, (c.branch parent)[p.interval.toNat - 1]? = some first ∧
      c.ancestor? parent (parent.height.toNat + 1 - p.interval.toNat) = some first := by
  have long := sound.bounds.1
  have whole : p.interval.toNat ≤ parent.height.toNat + 1 :=
    Nat.le_of_dvd (Nat.succ_pos _) (Nat.dvd_of_mod_eq_zero closes.2)
  have inside : p.interval.toNat - 1 < (c.branch parent).length := by
    rw [grown.length_branch m]
    omega
  have e := List.getElem?_eq_getElem inside
  have place := grown.height_of_getElem? m e
  refine ⟨_, e, ?_⟩
  rw [← grown.ancestor?_of_getElem? m e]
  congr 1
  omega

end Grown

end Params

end HeaviestChain
