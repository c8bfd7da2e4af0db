import HeaviestChain.Proofs.Tree.Branch
import Mathlib.Logic.Relation

/-!
Paths back to the first record. In a grown catalog the hashes that headers name lead from every
record to the first one, and a branch is what lies on the path. The path has one record for each
height, so that two paths that meet go on together.
-/

namespace HeaviestChain.Catalog

/-- Whether one record is found under the hash that another names. There is no way on from the first
record, whatever hash it names. -/
structure Precedes (c : Catalog) (g r p : Record) : Prop where
  later : r ≠ g
  found : c.find? r.header.previous = some p

/-- Whether a record is on the path from another one back to the first. -/
def Path (c : Catalog) (g : Record) : Record → Record → Prop :=
  Relation.ReflTransGen (c.Precedes g)

variable {g p r s : Record} {c : Catalog}

theorem path_first : c.Path g g s ↔ s = g := by
  constructor
  · intro path
    rcases path.cases_head with same | ⟨_, step, _⟩
    · exact same.symm
    · exact absurd rfl step.later
  · rintro rfl
    exact .refl

/-- A path goes from a child to its parent. -/
theorem Links.path_iff (l : c.Links p r) (later : r ≠ g) :
    c.Path g r s ↔ s = r ∨ c.Path g p s := by
  constructor
  · intro path
    rcases path.cases_head with same | ⟨q, step, rest⟩
    · exact .inl same.symm
    · obtain rfl : p = q := Option.some.inj (l.found.symm.trans step.found)
      exact .inr rest
  · rintro (rfl | rest)
    · exact .refl
    · exact .head ⟨later, l.found⟩ rest

namespace Grown

theorem ne_first (grown : Grown g c) (l : c.Links p r) : r ≠ g := l.ne_of_genesis grown.genesis

/-- The records on a path are those of the branch. -/
theorem path_iff (grown : Grown g c) (m : r ∈ c) : c.Path g r s ↔ s ∈ c.branch r := by
  induction r, m using grown.induct with
  | first => rw [path_first, grown.branch_first, List.mem_singleton]
  | child p r _ _ l ih => rw [l.path_iff (grown.ne_first l), l.branch, List.mem_cons, ih]

/-- The branch of a record contains the branches of its records. -/
theorem mem_branch_trans (grown : Grown g c) (m : r ∈ c) {a : Record} (on : s ∈ c.branch r)
    (behind : a ∈ c.branch s) : a ∈ c.branch r := by
  have ms := grown.mem_of_mem_branch m s on
  rw [← grown.path_iff m] at on ⊢
  rw [← grown.path_iff ms] at behind
  exact on.trans behind

/-- The ancestor at a height is the one record of the branch that is so high. -/
theorem ancestor?_eq_some_iff (grown : Grown g c) (m : r ∈ c) {height : Nat} :
    c.ancestor? r height = some s ↔ s ∈ c.branch r ∧ s.height.toNat = height := by
  constructor
  · intro e
    exact ⟨List.mem_of_find?_eq_some e, by simpa using List.find?_some e⟩
  · rintro ⟨on, rfl⟩
    obtain ⟨n, e⟩ := List.mem_iff_getElem?.1 on
    exact grown.ancestor?_of_getElem? m e

/-- A branch has a record for each height up to its newest. -/
theorem exists_ancestor (grown : Grown g c) (m : r ∈ c) {height : Nat}
    (low : height ≤ r.height.toNat) : ∃ s, c.ancestor? r height = some s := by
  have long := grown.length_branch m
  have inside : r.height.toNat - height < (c.branch r).length := by omega
  have e := List.getElem?_eq_getElem inside
  have place := grown.height_of_getElem? m e
  have here : (c.branch r)[r.height.toNat - height].height.toNat = height := by omega
  exact ⟨_, here ▸ grown.ancestor?_of_getElem? m e⟩

theorem ancestor?_eq_none (grown : Grown g c) (m : r ∈ c) {height : Nat}
    (high : r.height.toNat < height) : c.ancestor? r height = none := by
  rw [Option.eq_none_iff_forall_ne_some]
  intro s e
  obtain ⟨on, here⟩ := (grown.ancestor?_eq_some_iff m).1 e
  have low := grown.height_le_of_mem_branch m on
  omega

/-- From its height down, a record of a branch has the ancestors of the whole branch. -/
theorem ancestor?_of_mem_branch (grown : Grown g c) (m : r ∈ c) (on : s ∈ c.branch r)
    {height : Nat} (low : height ≤ s.height.toNat) :
    c.ancestor? r height = c.ancestor? s height := by
  have ms := grown.mem_of_mem_branch m s on
  obtain ⟨a, found⟩ := grown.exists_ancestor ms low
  obtain ⟨behind, here⟩ := (grown.ancestor?_eq_some_iff ms).1 found
  rw [found, grown.ancestor?_eq_some_iff m]
  exact ⟨grown.mem_branch_trans m on behind, here⟩

theorem ancestor?_zero (grown : Grown g c) (m : r ∈ c) : c.ancestor? r 0 = some g := by
  rw [grown.ancestor?_eq_some_iff m]
  exact ⟨grown.first_mem_branch m, by rw [grown.height_first]; rfl⟩

/-- Above the first record each record of a branch follows the one below it. -/
theorem exists_linked_ancestors (grown : Grown g c) (m : r ∈ c) {height : Nat}
    (high : height + 1 ≤ r.height.toNat) :
    ∃ p s, c.ancestor? r (height + 1) = some s ∧ c.ancestor? r height = some p ∧
      c.Links p s := by
  obtain ⟨s, found⟩ := grown.exists_ancestor m high
  obtain ⟨on, here⟩ := (grown.ancestor?_eq_some_iff m).1 found
  have later : s ≠ g := by
    rintro rfl
    rw [grown.height_first] at here
    cases here
  obtain ⟨p, l⟩ := grown.parent (grown.mem_of_mem_branch m s on) later
  have up := l.height
  have behind : p ∈ c.branch s := by
    obtain ⟨rest, split⟩ := c.branch_eq_cons p
    rw [l.branch, split]
    exact List.mem_cons_of_mem _ List.mem_cons_self
  refine ⟨p, s, found, ?_, l⟩
  rw [grown.ancestor?_eq_some_iff m]
  exact ⟨grown.mem_branch_trans m on behind, by omega⟩

end Grown

end HeaviestChain.Catalog
