import HeaviestChain.Proofs.Tree.Branch

/-!
The work of a record in a grown catalog is the sum of the work of the targets along its branch. A
height fits 32 bits and the work of a target 257, so that the sum never comes near 512 bits.
-/

namespace HeaviestChain

namespace Target

/-- Every target takes some work. -/
theorem work_pos (t : Target) : 0 < t.work :=
  Nat.div_pos (Nat.succ_le_of_lt t.toNat_lt) (Nat.succ_pos _)

theorem work_le_bound (t : Target) : t.work ≤ bound := Nat.div_le_self _ _

end Target

/-- The target that a header claims, zero if its bits name none. -/
def Header.claimed (h : Header) : Target :=
  match h.target with
  | .ok t => t
  | .error _ => .zero

theorem Header.claimed_of_target {h : Header} {t : Target} (e : h.target = .ok t) :
    h.claimed = t := by
  rw [claimed, e]

namespace Record

/-- The work of the target that a record's header claims. -/
def ownWork (r : Record) : Nat := Target.bound / (r.header.claimed.toNat + 1)

theorem ownWork_of_target {r : Record} {t : Target} (e : r.header.target = .ok t) :
    r.ownWork = t.work := by
  rw [ownWork, Header.claimed_of_target e]
  rfl

/-- The work of the targets that the headers of a list claim, in all. -/
def totalWork : List Record → Nat
  | [] => 0
  | r :: rest => r.ownWork + totalWork rest

end Record

namespace Catalog

/-- The work of as many targets as there are heights fits the sum's bits. -/
theorem heights_mul_bound_lt (r : Record) : (r.height.toNat + 1) * Target.bound < Work.bound := by
  have few : r.height.toNat + 1 < Target.bound := by
    have high : r.height.toNat < UInt32.size := r.height.toNat_lt
    have wide : UInt32.size < Target.bound := by decide
    omega
  exact Nat.mul_lt_mul_of_pos_right few Target.bound_pos

namespace Grown

variable {g r : Record} {c : Catalog}

/-- Every filed header claims a target. -/
theorem target_eq_ok (grown : Grown g c) (m : r ∈ c) : ∃ t, r.header.target = .ok t := by
  induction r, m using grown.induct with
  | first =>
    obtain ⟨t, e, -⟩ := Record.genesis_eq_ok.1 grown.genesis
    exact ⟨t, e⟩
  | child p r _ _ l _ =>
    obtain ⟨-, t, e, -⟩ := Record.extend_eq_ok.1 l.extend
    exact ⟨t, e⟩

theorem work_first (grown : Grown g c) : g.work.toNat = g.ownWork := by
  obtain ⟨t, e, same⟩ := Record.genesis_eq_ok.1 grown.genesis
  have small : t.work < Work.bound := by
    have h := t.work_le_bound
    have wide : Target.bound < Work.bound := by decide
    omega
  have work : g.work = Work.ofNat t.work := by rw [same]
  rw [work, Work.toNat_ofNat_of_lt small, Record.ownWork_of_target e]

theorem work_le (grown : Grown g c) (m : r ∈ c) :
    r.work.toNat ≤ (r.height.toNat + 1) * Target.bound := by
  induction r, m using grown.induct with
  | first =>
    have own : g.ownWork ≤ Target.bound := g.header.claimed.work_le_bound
    rw [grown.work_first, grown.height_first]
    simpa using own
  | child p r _ _ l ih =>
    obtain ⟨-, t, -, same⟩ := Record.extend_eq_ok.1 l.extend
    have work : r.work = p.work.add t.work := by rw [same]
    have capped : r.work.toNat ≤ p.work.toNat + t.work := by
      rw [work]
      exact Nat.min_le_left _ _
    have own := t.work_le_bound
    rw [l.height, Nat.add_mul (p.height.toNat + 1) 1, Nat.one_mul]
    omega

/-- A child has the work of its parent and its own. -/
theorem work_child (grown : Grown g c) {p : Record} (l : c.Links p r) :
    r.work.toNat = p.work.toNat + r.ownWork := by
  obtain ⟨-, t, e, same⟩ := Record.extend_eq_ok.1 l.extend
  have work : r.work = p.work.add t.work := by rw [same]
  have below := grown.work_le l.mem
  have own := t.work_le_bound
  have room := heights_mul_bound_lt r
  rw [l.height, Nat.add_mul (p.height.toNat + 1) 1, Nat.one_mul] at room
  rw [work, Work.toNat_add_of_lt (by omega), Record.ownWork_of_target e]

/-- The work of a record is the sum along its branch, without saturation. -/
theorem work_eq_totalWork (grown : Grown g c) (m : r ∈ c) :
    r.work.toNat = Record.totalWork (c.branch r) := by
  induction r, m using grown.induct with
  | first =>
    rw [grown.branch_first, grown.work_first]
    rfl
  | child p r _ _ l ih => rw [l.branch, Record.totalWork, ← ih, grown.work_child l, Nat.add_comm]

/-- Work grows from parents to children. -/
theorem outweighs_parent (grown : Grown g c) {p : Record} (l : c.Links p r) : r.Outweighs p := by
  have own : 0 < r.ownWork := r.header.claimed.work_pos
  have sum := grown.work_child l
  show p.work.toNat < r.work.toNat
  omega

/-- A record outweighs all that it descends from. -/
theorem outweighs_of_mem_branch (grown : Grown g c) (m : r ∈ c) {s : Record}
    (on : s ∈ c.branch r) (apart : s ≠ r) : r.Outweighs s := by
  induction r, m using grown.induct with
  | first =>
    rw [grown.branch_first] at on
    exact absurd (List.mem_singleton.1 on) apart
  | child p r _ _ l ih =>
    have more := grown.outweighs_parent l
    rw [l.branch] at on
    rcases List.mem_cons.1 on with same | on
    · exact absurd same apart
    · by_cases same : s = p
      · rw [same]
        exact more
      · exact Nat.lt_trans (ih on same) more

end Grown

end Catalog

end HeaviestChain
