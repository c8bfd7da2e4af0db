import HeaviestChain.Proofs.Walk.Ancestry
import HeaviestChain.Walk.Fork

/-!
The way between two records of a grown catalog: it is always found, and it splits both branches in
front of the branch of the record where they meet.
-/

namespace HeaviestChain

open Catalog

variable {g : Record} {c : Catalog}

/-- Whether a fork leads from `old` to `new`: it names all of both branches in front of its base,
and behind the base comes all that they share. -/
structure Catalog.Joins (c : Catalog) (old new : Record) (f : Fork) : Prop where
  base_mem : f.base ∈ c
  left : c.branch old = f.left ++ c.branch f.base
  entered : c.branch new = f.entered.reverse ++ c.branch f.base
  shared : ∀ r ∈ c.branch old, r ∈ c.branch new → r ∈ c.branch f.base

namespace Catalog.Grown

/-- What is on a branch and no higher than one of its records is on the branch of that record. -/
theorem mem_branch_of_height_le (grown : Grown g c) {r s x : Record} {newer : List Record}
    (m : r ∈ c) (ms : s ∈ c) (e : c.branch r = newer ++ c.branch s) (h : x ∈ c.branch r)
    (low : x.height.toNat ≤ s.height.toNat) : x ∈ c.branch s := by
  rw [e] at h
  rcases List.mem_append.1 h with h | h
  · obtain ⟨before, behind, rfl⟩ := List.append_of_mem h
    have split : c.branch r = before ++ x :: (behind ++ c.branch s) := by simp [e]
    have mx : x ∈ c := grown.mem_of_mem_branch m x (by simp [split])
    have long := grown.length_branch mx
    rw [grown.branch_of_append m split, List.length_cons, List.length_append,
      grown.length_branch ms] at long
    omega
  · exact h

end Catalog.Grown

namespace Walk

/-- A climb down to a height ends there, or where it began if that is lower. -/
theorem run_climb_height (grown : Grown g c) {r : Record} (m : r ∈ c) (stored : Nat)
    (height : UInt32) :
    ∃ passed s, (climb (fun s => s.height ≤ height) (reach stored r) r).run c.find? =
        .ok (passed, s) ∧
      s ∈ c ∧ c.branch r = passed ++ c.branch s ∧
      s.height.toNat = min r.height.toNat height.toNat := by
  have enough : r.height.toNat ≤ reach stored r := Nat.le_add_left _ _
  have same : (fun s : Record => decide (s.height ≤ height)) =
      fun s => decide (s.height.toNat ≤ height.toNat) := by
    funext s
    simp [UInt32.le_iff_toNat_le]
  have found : ∃ s, (c.branch r).find? (fun s => decide (s.height ≤ height)) = some s ∧
      s.height.toNat = min r.height.toNat height.toNat := by
    by_cases low : r.height.toNat ≤ height.toNat
    · obtain ⟨rest, split⟩ := c.branch_eq_cons r
      exact ⟨r, by simp [same, split, low], by omega⟩
    · have above : height.toNat ≤ r.height.toNat := by omega
      have inside : r.height.toNat - height.toNat < (c.branch r).length := by
        rw [grown.length_branch m]
        omega
      have e := List.getElem?_eq_getElem inside
      have h := grown.height_of_getElem? m e
      exact ⟨_, by rw [same, grown.find?_height_le m above, e], by omega⟩
  obtain ⟨s, e, h⟩ := found
  obtain ⟨passed, run, split⟩ := run_climb_of_find? grown m enough e
  have ms : s ∈ c := grown.mem_of_mem_branch m s (List.mem_of_find?_eq_some e)
  exact ⟨passed, s, run, ms, split, h⟩

theorem run_parentOnFork {p r : Record} (l : c.Links p r) :
    (parentOnFork r).run c.find? = .ok p := by
  have high : r.height ≠ 0 := by
    intro low
    have h := l.height
    rw [low] at h
    cases h
  rw [parentOnFork, if_neg high, run_parentOf l]

theorem meet_of_hash_eq {a b : Record} (met : a.hash = b.hash) (steps : Nat) :
    meet steps a b = done ([], [], a) := by
  cases steps <;> exact if_pos met

theorem meet_succ {a b : Record} (apart : a.hash ≠ b.hash) (steps : Nat) :
    meet (steps + 1) a b = (do
      let a' ← parentOnFork a
      let b' ← parentOnFork b
      let (left, entered, base) ← meet steps a' b'
      done (a :: left, b :: entered, base)) := if_neg apart

/-- Two branches of one height meet, at the latest in the first record. -/
theorem run_meet (grown : Grown g c) {steps : Nat} {a b : Record} (ha : a ∈ c) (hb : b ∈ c)
    (level : a.height.toNat = b.height.toNat) (enough : a.height.toNat ≤ steps) :
    ∃ left entered base, (meet steps a b).run c.find? = .ok (left, entered, base) ∧
      base ∈ c ∧ c.branch a = left ++ c.branch base ∧ c.branch b = entered ++ c.branch base ∧
      ∀ r ∈ c.branch a, r ∈ c.branch b → r ∈ c.branch base := by
  induction steps generalizing a b with
  | zero =>
    have lowa : a.height = 0 := UInt32.toNat_inj.1 (Nat.le_zero.1 enough)
    have lowb : b.height = 0 := UInt32.toNat_inj.1 (level ▸ Nat.le_zero.1 enough)
    obtain rfl : a = b := (grown.eq_first ha lowa).trans (grown.eq_first hb lowb).symm
    refine ⟨[], [], a, ?_, ha, rfl, rfl, fun _ h _ => h⟩
    rw [meet_of_hash_eq rfl, run_done]
  | succ steps ih =>
    by_cases met : a.hash = b.hash
    · obtain rfl := eq_of_hash_eq ha hb met
      refine ⟨[], [], a, ?_, ha, rfl, rfl, fun _ h _ => h⟩
      rw [meet_of_hash_eq rfl, run_done]
    · -- below the first record two records of one height would both be it
      have latera : a ≠ g := by
        rintro rfl
        have low : b.height = 0 :=
          UInt32.toNat_inj.1 (level.symm.trans (by rw [grown.height_first]))
        exact met (by rw [grown.eq_first hb low])
      have laterb : b ≠ g := by
        rintro rfl
        have low : a.height = 0 := UInt32.toNat_inj.1 (level.trans (by rw [grown.height_first]))
        exact met (by rw [grown.eq_first ha low])
      obtain ⟨p, la⟩ := grown.parent ha latera
      obtain ⟨q, lb⟩ := grown.parent hb laterb
      have up := la.height
      have uq := lb.height
      obtain ⟨left, entered, base, e, mb, ea, eb, shared⟩ :=
        ih la.mem lb.mem (by omega) (by omega)
      refine ⟨a :: left, b :: entered, base, ?_, mb, ?_, ?_, ?_⟩
      · rw [meet_succ met]
        simp only [run_bind, run_parentOnFork la, run_parentOnFork lb, e, Except.bind, run_done]
      · rw [la.branch, ea, List.cons_append]
      · rw [lb.branch, eb, List.cons_append]
      · intro r hr hr'
        rw [la.branch] at hr
        rw [lb.branch] at hr'
        rcases List.mem_cons.1 hr with rfl | hr
        · rcases List.mem_cons.1 hr' with rfl | hr'
          · exact absurd rfl met
          · have := grown.height_le_of_mem_branch lb.mem hr'
            omega
        · rcases List.mem_cons.1 hr' with rfl | hr'
          · have := grown.height_le_of_mem_branch la.mem hr
            omega
          · exact shared r hr hr'

/-- The way between two filed records is found. -/
theorem run_fork (grown : Grown g c) {old new : Record} (ho : old ∈ c) (hn : new ∈ c)
    (stored : Nat) :
    ∃ f, (fork stored old new).run c.find? = .ok f ∧ c.Joins old new f := by
  obtain ⟨left, a, e, ma, ea, ha⟩ := run_climb_height grown ho stored new.height
  obtain ⟨entered, b, e', mb, eb, hb⟩ := run_climb_height grown hn stored a.height
  have level : a.height.toNat = b.height.toNat := by omega
  have enough : a.height.toNat ≤ reach stored a := Nat.le_add_left _ _
  obtain ⟨left', entered', base, e'', m, ea', eb', shared⟩ := run_meet grown ma mb level enough
  refine ⟨⟨base, left ++ left', (entered ++ entered').reverse⟩, ?_, m, ?_, ?_, ?_⟩
  · simp only [fork, run_bind, e, e', e'', Except.bind, run_done]
  · rw [ea, ea', List.append_assoc]
  · rw [eb, eb', List.reverse_reverse, List.append_assoc]
  · intro r hr hr'
    have lowo := grown.height_le_of_mem_branch ho hr
    have lown := grown.height_le_of_mem_branch hn hr'
    exact shared r (grown.mem_branch_of_height_le ho ma ea hr (by omega))
      (grown.mem_branch_of_height_le hn mb eb hr' (by omega))

end Walk

end HeaviestChain
