import HeaviestChain.Proofs.Tree.Path
import HeaviestChain.Proofs.Walk.Path

/-!
Walks to the parents through a grown catalog. They never run out of steps or parents, and what they
find is read off the branch of the record that they start from.
-/

namespace HeaviestChain.Walk

open Catalog

variable {g : Record} {c : Catalog}

theorem run_parentOf {p r : Record} (l : c.Links p r) : (parentOf r).run c.find? = .ok p :=
  run_parentOf_of_find l.found

/-- A branch is a path. -/
theorem leads_branch (grown : Grown g c) {r : Record} (m : r ∈ c) :
    Leads c.find? r (c.branch r) := by
  induction r, m using grown.induct with
  | first =>
    rw [grown.branch_first]
    exact .low grown.height_first
  | child p r _ _ l ih =>
    rw [l.branch]
    exact .next l.found l.height ih

theorem climb_of_stop {stop : Record → Bool} {r : Record} (here : stop r = true) (steps : Nat) :
    climb stop steps r = done ([], r) := by
  cases steps <;> simp [climb, here]

/-- A climb passes the records of the branch in front of the first where it may stop. -/
theorem run_climb (grown : Grown g c) {stop : Record → Bool} {passed older : List Record}
    {r last : Record} {steps : Nat} (m : r ∈ c) (enough : r.height.toNat ≤ steps)
    (e : c.branch r = passed ++ last :: older) (on : ∀ s ∈ passed, stop s = false)
    (here : stop last = true) : (climb stop steps r).run c.find? = .ok (passed, last) := by
  induction passed generalizing r steps with
  | nil =>
    obtain ⟨rest, front⟩ := c.branch_eq_cons r
    rw [front] at e
    obtain rfl : r = last := (List.cons.inj e).1
    rw [climb_of_stop here, run_done]
  | cons x passed ih =>
    have later : r ≠ g := by
      rintro rfl
      simp [grown.branch_first] at e
    obtain ⟨p, l⟩ := grown.parent m later
    have up := l.height
    rw [l.branch] at e
    obtain ⟨rfl, rest⟩ := List.cons.inj e
    have go : stop r = false := on r List.mem_cons_self
    cases steps with
    | zero => omega
    | succ steps =>
      have lower : p.height.toNat ≤ steps := by omega
      have tail := ih l.mem lower rest fun s h => on s (List.mem_cons_of_mem _ h)
      simp only [climb, go, Bool.false_eq_true, if_false, run_bind, run_parentOf l, tail,
        Except.bind, run_done]

/-- A climb ends in the first record of the branch where it may stop. -/
theorem run_climb_of_find? (grown : Grown g c) {stop : Record → Bool} {r last : Record}
    {steps : Nat} (m : r ∈ c) (enough : r.height.toNat ≤ steps)
    (e : (c.branch r).find? stop = some last) :
    ∃ passed, (climb stop steps r).run c.find? = .ok (passed, last) ∧
      c.branch r = passed ++ c.branch last := by
  obtain ⟨here, passed, older, split, on⟩ := List.find?_eq_some_iff_append.1 e
  refine ⟨passed, run_climb grown m enough split ?_ here, ?_⟩
  · intro s h
    simpa using on s h
  · rw [grown.branch_of_append m split]
    exact split

/-- The ancestor at a height is found by counting down the branch. -/
theorem run_descend (grown : Grown g c) {r : Record} {height : Nat} (m : r ∈ c)
    (low : height ≤ r.height.toNat) (stored : Nat) :
    ∃ s, (c.branch r)[r.height.toNat - height]? = some s ∧
      (descend stored r height).run c.find? = .ok s := by
  have long := grown.length_branch m
  have inside : r.height.toNat - height < (c.branch r).length := by omega
  refine ⟨(c.branch r)[r.height.toNat - height], List.getElem?_eq_getElem inside, ?_⟩
  have found := grown.find?_height_le m low
  rw [List.getElem?_eq_getElem inside] at found
  have enough : r.height.toNat ≤ reach stored r := Nat.le_add_left _ _
  obtain ⟨passed, e, -⟩ := run_climb_of_find? grown m enough found
  rw [descend, run_bind, e]
  rfl

theorem run_ancestor (grown : Grown g c) {r : Record} (m : r ∈ c) (stored : Nat)
    (height : UInt32) :
    (ancestor stored r height).run c.find? =
      .ok (if r.height < height then none
        else (c.branch r)[r.height.toNat - height.toNat]?) := by
  unfold ancestor
  by_cases above : r.height < height
  · simp [above]
  · have low : height.toNat ≤ r.height.toNat := UInt32.le_iff_toNat_le.1 (UInt32.not_lt.1 above)
    obtain ⟨s, e, found⟩ := run_descend grown m low stored
    rw [if_neg above, if_neg above, e]
    show ((descend stored r height.toNat).andThen fun s => done (some s)).run c.find? = _
    rw [run_andThen, found]
    rfl

/-- A walk to an ancestor finds the record that the branch has at the height, if it has one. -/
theorem run_ancestor_eq (grown : Grown g c) {r : Record} (m : r ∈ c) (stored : Nat)
    (height : UInt32) :
    (ancestor stored r height).run c.find? = .ok (c.ancestor? r height.toNat) := by
  rw [run_ancestor grown m]
  by_cases above : r.height < height
  · rw [if_pos above, grown.ancestor?_eq_none m (UInt32.lt_iff_toNat_lt.1 above)]
  · have low : height.toNat ≤ r.height.toNat := UInt32.le_iff_toNat_le.1 (UInt32.not_lt.1 above)
    obtain ⟨s, e, -⟩ := run_descend grown m low stored
    have place := grown.height_of_getElem? m e
    have here : s.height.toNat = height.toNat := by omega
    rw [if_neg above, e, ← here, grown.ancestor?_of_getElem? m e]

/-- The latest records of a branch are its front. -/
theorem run_latest (grown : Grown g c) {r : Record} (m : r ∈ c) (stored count : Nat) :
    (latest stored count r).run c.find? =
      .ok (if count = 0 then c.branch r else (c.branch r).take count) :=
  ((leads_branch grown m).latest stored count).1

end HeaviestChain.Walk
