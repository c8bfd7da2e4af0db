import HeaviestChain.Proofs.Rules.Lineage

/-!
The median as an order statistic: it is at least a bound exactly if no more than half of the times
are below the bound. So a time above the median never lowers it, whether the window grows or slides
and gives up an old time.
-/

namespace HeaviestChain

/-- In ascending order the members below a bound stand in front. -/
theorem getElem_lt_iff_lt_countP {times : List UInt32} (sorted : times.Pairwise (· ≤ ·))
    (bound : UInt32) {i : Nat} (inside : i < times.length) :
    times[i] < bound ↔ i < times.countP fun time => time < bound := by
  induction times generalizing i with
  | nil => cases inside
  | cons first times ih =>
    obtain ⟨least, sorted⟩ := List.pairwise_cons.1 sorted
    by_cases below : first < bound
    · rw [List.countP_cons_of_pos (by simpa using below)]
      cases i with
      | zero => simpa using below
      | succ i =>
        have inside : i < times.length := Nat.lt_of_succ_lt_succ inside
        rw [List.getElem_cons_succ, ih sorted inside, Nat.succ_lt_succ_iff]
    · -- nothing behind the first member is below the bound either
      have high (time : UInt32) (m : time ∈ first :: times) : ¬time < bound := by
        rcases List.mem_cons.1 m with rfl | later
        · exact below
        · intro low
          exact below (UInt32.lt_of_le_of_lt (least time later) low)
      have none : (first :: times).countP (fun time => time < bound) = 0 :=
        List.countP_eq_zero.2 (by simpa using high)
      rw [none]
      exact iff_of_false (high _ (List.getElem_mem inside)) (Nat.not_lt_zero i)

/-- A bound is above the median exactly if more than half of the times are below it. -/
theorem median_lt_iff {times : List UInt32} (some : times ≠ []) (bound : UInt32) :
    median times < bound ↔ times.length / 2 < times.countP fun time => time < bound := by
  have perm := List.mergeSort_perm times fun a b => decide (a ≤ b)
  have sorted : (times.mergeSort fun a b => a ≤ b).Pairwise (· ≤ ·) := by
    refine (List.pairwise_mergeSort ?_ ?_ times).imp (by simp)
    · intro a b c ab bc
      simp only [decide_eq_true_eq] at ab bc ⊢
      exact UInt32.le_trans ab bc
    · intro a b
      simpa using UInt32.le_total a b
  have long : 0 < times.length := List.length_pos_iff.2 some
  have inside : times.length / 2 < (times.mergeSort fun a b => a ≤ b).length := by
    rw [perm.length_eq]
    omega
  have middle : median times = (times.mergeSort fun a b => a ≤ b)[times.length / 2] :=
    (List.getElem_eq_getD 0).symm
  rw [middle, getElem_lt_iff_lt_countP sorted bound inside, perm.countP_eq]

/-- A median is no lower than another one if no more of its times are below that one. -/
theorem median_le_median {old new : List UInt32} (someOld : old ≠ []) (someNew : new ≠ [])
    (longer : old.length ≤ new.length)
    (below : new.countP (fun time => time < median old) ≤ old.countP fun time => time < median old) :
    median old ≤ median new := by
  have half : ¬old.length / 2 < old.countP fun time => time < median old := by
    intro more
    exact UInt32.lt_irrefl _ ((median_lt_iff someOld _).2 more)
  rw [← UInt32.not_lt, median_lt_iff someNew]
  omega

namespace Params

variable {p : Params} {branch : List Record} {r : Record}

/-- A record whose time is above the median time of its past does not lower it. -/
theorem medianPast_le_cons (span : p.medianSpan ≠ 0) (some : branch ≠ [])
    (late : p.medianPast branch < r.header.time) :
    p.medianPast branch ≤ p.medianPast (r :: branch) := by
  have wide : p.medianSpan.toNat ≠ 0 := fun none => span (UInt64.toNat_inj.1 none)
  obtain ⟨n, size⟩ := Nat.exists_eq_add_one_of_ne_zero wide
  -- the window gains a time above the median and may lose one
  have gained : ((r :: branch).take (n + 1)).map (fun r => r.header.time) =
      r.header.time :: (branch.take n).map fun r => r.header.time := rfl
  have fewer : ((branch.take n).map fun r => r.header.time).Sublist
      ((branch.take (n + 1)).map fun r => r.header.time) :=
    (List.take_sublist_take_left (Nat.le_succ n)).map _
  rw [medianPast, size] at late
  rw [medianPast, medianPast, size]
  apply median_le_median
  · simp [some]
  · simp
  · simp only [List.length_map, List.length_take, List.length_cons]
    omega
  · rw [gained, List.countP_cons_of_neg (by simpa using UInt32.le_of_lt late)]
    exact fewer.countP_le

end Params

open Catalog

/-- Whether the time of every child of a catalog is above the median time of its past. -/
def Params.Timely (p : Params) (c : Catalog) : Prop :=
  ∀ parent r, r ∈ c → c.Links parent r → p.medianPast (c.branch parent) < r.header.time

namespace Params.Timely

variable {p : Params} {c : Catalog} {g parent r s : Record}

theorem medianPast_le_child (timely : p.Timely c) (sound : p.Sound) (m : r ∈ c)
    (l : c.Links parent r) : p.medianPast (c.branch parent) ≤ p.medianPast (c.branch r) := by
  obtain ⟨-, -, -, -, span, -⟩ := sound.bounds
  obtain ⟨rest, split⟩ := c.branch_eq_cons parent
  rw [l.branch]
  exact medianPast_le_cons span (by simp [split]) (timely parent r m l)

/-- Along a branch the median time never goes down. -/
theorem medianPast_le (timely : p.Timely c) (sound : p.Sound) (grown : Grown g c) (m : r ∈ c)
    (on : s ∈ c.branch r) : p.medianPast (c.branch s) ≤ p.medianPast (c.branch r) := by
  induction r, m using grown.induct with
  | first =>
    rw [grown.branch_first] at on
    rw [List.mem_singleton.1 on]
    exact UInt32.le_refl _
  | child parent r _ m l ih =>
    rw [l.branch] at on
    rcases List.mem_cons.1 on with rfl | older
    · exact UInt32.le_refl _
    · exact UInt32.le_trans (ih older) (timely.medianPast_le_child sound m l)

theorem medianPast_lt (timely : p.Timely c) (sound : p.Sound) (grown : Grown g c) (m : r ∈ c)
    (l : c.Links parent r) (on : s ∈ c.branch parent) :
    p.medianPast (c.branch s) < r.header.time :=
  UInt32.lt_of_le_of_lt (timely.medianPast_le sound grown l.mem on) (timely parent r m l)

end Params.Timely

end HeaviestChain
