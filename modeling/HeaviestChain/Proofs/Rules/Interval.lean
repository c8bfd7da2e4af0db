import HeaviestChain.Proofs.Rules.Lineage
import HeaviestChain.Proofs.Walk.Fork

/-!
Difficulty along a branch. The target of a child is read off its parent, or off the last record that
did not fall back. Within an interval both come to the target of the record that starts it.
-/

namespace HeaviestChain

open Catalog

namespace Params

/-- Whether a child at a time falls back to the easiest target, for a long gap behind its parent. -/
def fallsBack (p : Params) (parent : Record) (time : UInt32) : Bool :=
  match p.minDifficulty with
  | .disabled => false
  | .afterGap gap => parent.header.time.toNat + gap.toNat < time.toNat

/-- The bits of a child that does not fall back, within the interval of its parent. -/
def promptBits (p : Params) (branch : List Record) : Option UInt32 :=
  match p.minDifficulty with
  | .disabled => branch.head?.map fun r => r.header.bits
  | .afterGap _ => (branch.find? p.decidesTarget).map fun r => r.header.bits

/-- The height at which the interval of a height starts. -/
def intervalStart (p : Params) (height : UInt32) : Nat :=
  p.interval.toNat * (height.toNat / p.interval.toNat)

/-- Whether the bits of a child change where they may. Within an interval the child has the easiest
target if it falls back, and otherwise that of the interval's start. At the start of an interval the
last target stays, or is scaled by the time that the interval before it took. -/
structure Scheduled (p : Params) (c : Catalog) (parent r : Record) : Prop where
  within : r.height.toNat % p.interval.toNat ≠ 0 →
    ∃ start, c.ancestor? r (p.intervalStart r.height) = some start ∧
      r.header.bits =
        if p.fallsBack parent r.header.time then p.limitBits else start.header.bits
  fixed : r.height.toNat % p.interval.toNat = 0 → p.fixedDifficulty = true →
    r.header.bits = parent.header.bits
  retargeted : r.height.toNat % p.interval.toNat = 0 → p.fixedDifficulty = false →
    p.interval.toNat ≤ r.height.toNat ∧
      ∃ first target next, c.ancestor? r (r.height.toNat - p.interval.toNat) = some first ∧
        Target.ofCompact parent.header.bits = .ok target ∧
        p.retarget target first.header.time parent.header.time = .ok next ∧
        r.header.bits = next.toCompact

/-- Whether every child of a catalog carries the bits that are due. -/
def Regular (p : Params) (c : Catalog) : Prop :=
  ∀ parent r, r ∈ c → c.Links parent r →
    p.dueBits (c.branch parent) r.header.time = some r.header.bits

variable {p : Params} {c : Catalog} {g parent r : Record}

theorem intervalStart_of_mod_eq_zero (starts : r.height.toNat % p.interval.toNat = 0) :
    p.intervalStart r.height = r.height.toNat :=
  Nat.mul_div_cancel' (Nat.dvd_of_mod_eq_zero starts)

theorem intervalStart_of_child (l : c.Links parent r)
    (within : r.height.toNat % p.interval.toNat ≠ 0) :
    p.intervalStart r.height = p.intervalStart parent.height := by
  have up := l.height
  have same : r.height.toNat / p.interval.toNat = parent.height.toNat / p.interval.toNat := by
    rw [up] at within ⊢
    exact Nat.succ_div_of_not_dvd (fun divides => within (Nat.mod_eq_zero_of_dvd divides))
  rw [intervalStart, intervalStart, same]

theorem intervalStart_lt (within : r.height.toNat % p.interval.toNat ≠ 0) :
    p.intervalStart r.height < r.height.toNat := by
  have split := Nat.div_add_mod r.height.toNat p.interval.toNat
  rw [intervalStart]
  omega

theorem dueBits_of_within (l : c.Links parent r)
    (within : r.height.toNat % p.interval.toNat ≠ 0) (time : UInt32) :
    p.dueBits (c.branch parent) time =
      if p.fallsBack parent time then some p.limitBits else p.promptBits (c.branch parent) := by
  obtain ⟨rest, split⟩ := c.branch_eq_cons parent
  have unclosed : ¬(parent.height ≠ 0 ∧ (parent.height.toNat + 1) % p.interval.toNat = 0) := by
    rintro ⟨-, closes⟩
    rw [← l.height] at closes
    exact within closes
  rw [split, dueBits, if_neg unclosed, fallsBack, promptBits]
  cases p.minDifficulty with
  | disabled => rfl
  | afterGap gap => simp only [decide_eq_true_eq]

theorem dueBits_of_starts (sound : p.Sound) (l : c.Links parent r)
    (starts : r.height.toNat % p.interval.toNat = 0) (time : UInt32) :
    p.dueBits (c.branch parent) time =
      if p.fixedDifficulty then some parent.header.bits
      else (c.branch parent)[p.interval.toNat - 1]?.map fun first =>
        (p.nextTarget parent.header.claimed first.header.time parent.header.time).toCompact := by
  have long := sound.bounds.1
  rw [l.height] at starts
  have closes : parent.height ≠ 0 ∧ (parent.height.toNat + 1) % p.interval.toNat = 0 := by
    refine ⟨?_, starts⟩
    intro low
    -- the first record closes no interval, as intervals are longer than one header
    rw [low] at starts
    have one : (0 : UInt32).toNat + 1 = 1 := rfl
    rw [one, Nat.mod_eq_of_lt long] at starts
    cases starts
  exact dueBits_of_closes closes time

/-- Within an interval the bits of a child are the easiest target or the prompt bits behind it. -/
theorem bits_of_within (regular : p.Regular c) (m : r ∈ c) (l : c.Links parent r)
    (within : r.height.toNat % p.interval.toNat ≠ 0) {bits : UInt32}
    (prompt : p.promptBits (c.branch parent) = some bits) :
    r.header.bits = if p.fallsBack parent r.header.time then p.limitBits else bits := by
  have due := regular parent r m l
  rw [dueBits_of_within l within, prompt] at due
  by_cases falls : p.fallsBack parent r.header.time
  · rw [if_pos falls] at due ⊢
    exact (Option.some.inj due).symm
  · rw [if_neg falls] at due ⊢
    exact (Option.some.inj due).symm

/-- A child within an interval leaves the prompt bits as they are, whether or not it falls back. -/
theorem promptBits_of_within (regular : p.Regular c) (m : r ∈ c) (l : c.Links parent r)
    (within : r.height.toNat % p.interval.toNat ≠ 0) {bits : UInt32}
    (prompt : p.promptBits (c.branch parent) = some bits) :
    p.promptBits (c.branch r) = some bits := by
  have own := bits_of_within regular m l within prompt
  rw [l.branch]
  cases rule : p.minDifficulty with
  | disabled =>
    have stays : p.fallsBack parent r.header.time = false := by rw [fallsBack, rule]
    rw [stays, if_neg Bool.false_ne_true] at own
    rw [promptBits, rule, ← own]
    rfl
  | afterGap gap =>
    rw [promptBits, rule] at prompt ⊢
    by_cases decides : p.decidesTarget r
    · have apart : r.header.bits ≠ p.limitBits := by
        have high : r.height ≠ 0 := by
          intro low
          rw [low] at within
          exact within (Nat.zero_mod _)
        simpa [decidesTarget, high, within] using decides
      have stays : ¬p.fallsBack parent r.header.time := by
        intro falls
        rw [if_pos falls] at own
        exact apart own
      rw [if_neg stays] at own
      simp only [List.find?_cons_of_pos decides, Option.map_some, own]
    · simp only [List.find?_cons_of_neg decides]
      exact prompt

/-- Whatever fell back since, the prompt bits are those of the start of the interval. -/
theorem exists_intervalStart (grown : Grown g c) (regular : p.Regular c) (m : r ∈ c) :
    ∃ start, c.ancestor? r (p.intervalStart r.height) = some start ∧
      p.promptBits (c.branch r) = some start.header.bits := by
  have starting (r : Record) (starts : r.height.toNat % p.interval.toNat = 0) :
      ∃ start, c.ancestor? r (p.intervalStart r.height) = some start ∧
        p.promptBits (c.branch r) = some start.header.bits := by
    obtain ⟨rest, split⟩ := c.branch_eq_cons r
    refine ⟨r, by rw [intervalStart_of_mod_eq_zero starts, c.ancestor?_self], ?_⟩
    have decides : p.decidesTarget r := by simp [decidesTarget, starts]
    rw [split, promptBits]
    cases p.minDifficulty with
    | disabled => rfl
    | afterGap gap => simp only [List.find?_cons_of_pos decides, Option.map_some]
  induction r, m using grown.induct with
  | first =>
    apply starting
    rw [grown.height_first]
    exact Nat.zero_mod _
  | child parent r _ mr l ih =>
    by_cases starts : r.height.toNat % p.interval.toNat = 0
    · exact starting r starts
    · obtain ⟨start, found, prompt⟩ := ih
      refine ⟨start, ?_, promptBits_of_within regular mr l starts prompt⟩
      rw [l.ancestor?_eq (intervalStart_lt starts), intervalStart_of_child l starts]
      exact found

theorem scheduled_of_regular (grown : Grown g c) (sound : p.Sound) (regular : p.Regular c)
    (m : r ∈ c) (l : c.Links parent r) : p.Scheduled c parent r where
  within within := by
    obtain ⟨start, found, prompt⟩ := exists_intervalStart grown regular l.mem
    refine ⟨start, ?_, bits_of_within regular m l within prompt⟩
    rw [l.ancestor?_eq (intervalStart_lt within), intervalStart_of_child l within]
    exact found
  fixed starts fixed := by
    have due := regular parent r m l
    rw [dueBits_of_starts sound l starts, if_pos fixed] at due
    exact (Option.some.inj due).symm
  retargeted starts moving := by
    obtain ⟨long, timed, -⟩ := sound.bounds
    have due := regular parent r m l
    rw [dueBits_of_starts sound l starts, if_neg (by simp [moving])] at due
    obtain ⟨first, e, bits⟩ := Option.map_eq_some_iff.1 due
    have up := l.height
    have place := grown.height_of_getElem? l.mem e
    have whole : p.interval.toNat ≤ r.height.toNat :=
      Nat.le_of_dvd (by omega) (Nat.dvd_of_mod_eq_zero starts)
    have low : r.height.toNat - p.interval.toNat = first.height.toNat := by omega
    obtain ⟨target, claims⟩ := grown.target_eq_ok l.mem
    refine ⟨whole, first, target, p.nextTarget target first.header.time parent.header.time, ?_,
      claims, retarget_eq timed _ _ _, ?_⟩
    · rw [low, l.ancestor?_eq (by omega)]
      exact grown.ancestor?_of_getElem? l.mem e
    · rw [← bits, Header.claimed_of_target claims]

end Params

end HeaviestChain
