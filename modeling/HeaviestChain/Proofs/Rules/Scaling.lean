import HeaviestChain.Proofs.Rules.Retarget

/-!
How far an interval moves the target. The next target is at most four times the last one and, up to
rounding, at least a quarter of it, it is no easier than the limit, and it follows the last target
and the time that the interval took.
-/

namespace HeaviestChain

open Target

theorem boundedSpan_mono {expected : Nat} {first last first' last' : UInt32}
    (longer : (last.toNat : Int) - first.toNat ≤ (last'.toNat : Int) - first'.toNat) :
    boundedSpan expected first last ≤ boundedSpan expected first' last' := by
  unfold boundedSpan
  omega

/-- An interval that took the time it should take counts as that. -/
theorem boundedSpan_of_eq {expected : Nat} {first last : UInt32}
    (even : (last.toNat : Int) - first.toNat = expected) :
    boundedSpan expected first last = expected := by
  unfold boundedSpan
  omega

namespace Params

/-- The last target times the time that counts for its interval, over the time that the interval
should take. -/
def scaled (p : Params) (last : Target) (start stop : UInt32) : Nat :=
  last.toNat * boundedSpan p.timespan.toNat start stop / p.timespan.toNat

/-- Whether `next` follows an interval that started and stopped at these times: it is the scaled
target, exactly, or the limit if that is less. Four times the expected time fits 64 bits with a sign
and the product fits the bits of a sum of work. -/
structure Scales (p : Params) (last : Target) (start stop : UInt32) (next : Target) : Prop where
  result : p.retarget last start stop = .ok next
  longest : (p.timespan.toNat : Int) * 4 ≤ Int64.maxValue.toInt
  product : last.toNat * boundedSpan p.timespan.toNat start stop < Work.bound
  exact : next.toNat = min p.limit.toNat (p.scaled last start stop)
  narrowed : p.scaled last start stop ≤ p.limit.toNat → next = ofNat (p.scaled last start stop)
  least : last.toNat * (p.timespan.toNat / 4) / p.timespan.toNat ≤ next.toNat
  limited : next.toNat ≤ p.limit.toNat
  most : next.toNat ≤ 4 * last.toNat
  even : (stop.toNat : Int) - start.toNat = p.timespan.toNat → next = last
  named : 1 ≤ next.toNat →
    ∃ t, ofCompact next.toCompact = .ok t ∧ t.toNat ≤ next.toNat ∧ t.toNat ≤ p.limit.toNat
  capped : p.limit.toNat ≤ p.scaled last start stop → next.toCompact = p.limitBits

variable {p : Params} {last last' : Target} {start stop start' stop' : UInt32}

/-- Sound parameters hold the easiest target in the compact form that it has. -/
theorem Sound.toCompact_limit (sound : p.Sound) : p.limit.toCompact = p.limitBits := by
  obtain ⟨-, -, -, -, -, none⟩ := sound.bounds
  have names := sound.ofCompact_limitBits
  unfold targetFlaw? at none
  rw [names] at none
  by_contra loose
  simp [loose] at none

/-- The scaled target follows the last one and the time that the interval took. -/
theorem scaled_mono (le : last.toNat ≤ last'.toNat)
    (longer : (stop.toNat : Int) - start.toNat ≤ (stop'.toNat : Int) - start'.toNat) :
    p.scaled last start stop ≤ p.scaled last' start' stop' :=
  Nat.div_le_div_right (Nat.mul_le_mul le (boundedSpan_mono longer))

theorem quarter_le_scaled :
    last.toNat * (p.timespan.toNat / 4) / p.timespan.toNat ≤ p.scaled last start stop :=
  Nat.div_le_div_right (Nat.mul_le_mul_left _ (div_four_le_boundedSpan _ _ _))

theorem quarter_le (p : Params) (last : Target) :
    last.toNat * (p.timespan.toNat / 4) / p.timespan.toNat ≤ last.toNat := by
  apply Nat.div_le_of_le_mul
  rw [Nat.mul_comm]
  exact Nat.mul_le_mul_right _ (Nat.div_le_self _ _)

theorem scaled_le : p.scaled last start stop ≤ 4 * last.toNat := by
  apply Nat.div_le_of_le_mul
  calc last.toNat * boundedSpan p.timespan.toNat start stop
      ≤ last.toNat * (p.timespan.toNat * 4) := Nat.mul_le_mul_left _ (boundedSpan_le _ _ _)
    _ = p.timespan.toNat * (4 * last.toNat) := by rw [Nat.mul_left_comm, Nat.mul_comm 4]

theorem scaled_of_even (sound : p.Sound)
    (even : (stop.toNat : Int) - start.toNat = p.timespan.toNat) :
    p.scaled last start stop = last.toNat := by
  rw [scaled, boundedSpan_of_eq even]
  exact Nat.mul_div_cancel _ sound.timespan_pos

theorem scales_nextTarget (sound : p.Sound) (below : last.toNat ≤ p.limit.toNat)
    (start stop : UInt32) : p.Scales last start stop (p.nextTarget last start stop) := by
  have value : (p.nextTarget last start stop).toNat =
      min p.limit.toNat (p.scaled last start stop) := toNat_nextTarget p last start stop
  have limited : (p.nextTarget last start stop).toNat ≤ p.limit.toNat :=
    value ▸ Nat.min_le_left _ _
  refine ⟨retarget_eq sound.bounds.2.1 last start stop, ?_, last.mul_boundedSpan_lt _ _ _, value,
    ?_, ?_, limited, ?_, ?_, ?_, ?_⟩
  · have short : p.timespan.toNat < UInt32.size := p.timespan.toNat_lt
    have wide : (UInt32.size : Int) * 4 ≤ Int64.maxValue.toInt := by decide
    omega
  · intro least
    exact congrArg ofNat (Nat.min_eq_right least)
  · rw [value, Nat.le_min]
    exact ⟨(p.quarter_le last).trans below, quarter_le_scaled⟩
  · rw [value]
    exact (Nat.min_le_right _ _).trans scaled_le
  · intro even
    apply Target.ext
    rw [value, scaled_of_even sound even, Nat.min_eq_right below]
  · intro some
    obtain ⟨t, rounds⟩ := exists_roundsTo some
    exact ⟨t, rounds.decoded, rounds.below, rounds.below.trans limited⟩
  · intro above
    have same : p.nextTarget last start stop = p.limit :=
      Target.ext (value.trans (Nat.min_eq_left above))
    rw [same, sound.toCompact_limit]

/-- No easier target or longer interval makes the next target harder. -/
theorem Scales.mono {next next' : Target} (scales : p.Scales last start stop next)
    (scales' : p.Scales last' start' stop' next') (le : last.toNat ≤ last'.toNat)
    (longer : (stop.toNat : Int) - start.toNat ≤ (stop'.toNat : Int) - start'.toNat) :
    next.toNat ≤ next'.toNat := by
  rw [scales.exact, scales'.exact]
  exact min_le_min_left _ (scaled_mono le longer)

/-- A target no easier than the limit is followed by one that is scaled without loss, within the
limit and four times the last target and above a quarter of it, and it grows with the last target
and with the time that the interval took. -/
theorem target_scaled (sound : p.Sound) :
    (∀ last start stop, last.toNat ≤ p.limit.toNat → ∃ next, p.Scales last start stop next) ∧
      ∀ last last' start stop start' stop' next next', last.toNat ≤ last'.toNat →
        last'.toNat ≤ p.limit.toNat →
        (stop.toNat : Int) - start.toNat ≤ (stop'.toNat : Int) - start'.toNat →
        p.retarget last start stop = .ok next → p.retarget last' start' stop' = .ok next' →
        next.toNat ≤ next'.toNat := by
  refine ⟨fun last start stop below => ⟨_, scales_nextTarget sound below start stop⟩, ?_⟩
  intro last last' start stop start' stop' next next' le below longer found found'
  have scales := scales_nextTarget sound (le.trans below) start stop
  have scales' := scales_nextTarget sound below start' stop'
  obtain rfl := Except.ok.inj (scales.result.symm.trans found)
  obtain rfl := Except.ok.inj (scales'.result.symm.trans found')
  exact scales.mono scales' le longer

/-- So it is for two intervals of the public network, the first so short that a quarter of its time
counts and the second so long that the limit is met. -/
theorem target_scaled_main :
    main.Sound ∧ ∃ last next next', ofCompact 0x1c05a3f4 = .ok last ∧
      last.toNat ≤ main.limit.toNat ∧
      main.Scales last 1279008237 1279297671 next ∧ next.toCompact = 0x1c0168fd ∧
      main.Scales main.limit 1231006505 1233061996 next' ∧ next'.toCompact = 0x1d00ffff ∧
      next.toNat ≤ next'.toNat := by
  have sound : main.Sound := by decide
  have names : ofCompact 0x1c05a3f4 = .ok ⟨0x05a3f4 <<< 200, by decide⟩ := by decide
  have below : 0x05a3f4 <<< 200 ≤ main.limit.toNat := by decide
  obtain ⟨follows, grows⟩ := target_scaled sound
  obtain ⟨next, scales⟩ := follows ⟨_, by decide⟩ 1279008237 1279297671 below
  obtain ⟨next', scales'⟩ := follows main.limit 1231006505 1233061996 (Nat.le_refl _)
  have found := retarget_eq (p := main) (by decide) ⟨0x05a3f4 <<< 200, by decide⟩ 1279008237
    1279297671
  obtain rfl := Except.ok.inj (found.symm.trans scales.result)
  refine ⟨sound, _, _, next', names, below, scales, by decide, scales', ?_, ?_⟩
  · exact scales'.capped (by decide)
  · exact grows ⟨_, by decide⟩ _ _ _ _ _ _ _ below (Nat.le_refl _) (by decide) scales.result
      scales'.result

end Params

end HeaviestChain
