import HeaviestChain.Proofs.Tree.Growth

/-!
Branches: a record, its parent, the parent of that and so on. In a grown catalog a branch has one
record for each height from its newest record down to the first one, and the records behind one of
its members are the branch of that member.
-/

namespace HeaviestChain

namespace Catalog

/-- A record and those that follow when the parents are looked up, so many steps or until one is
missing. -/
def trail (c : Catalog) : Nat → Record → List Record
  | 0, r => [r]
  | steps + 1, r =>
    match c.find? r.header.previous with
    | some p => r :: c.trail steps p
    | none => [r]

/-- The branch of a record, newest first: as many steps to the parents as the record is high. -/
def branch (c : Catalog) (r : Record) : List Record := c.trail r.height.toNat r

theorem branch_eq_cons (c : Catalog) (r : Record) : ∃ rest, c.branch r = r :: rest := by
  unfold branch
  cases r.height.toNat with
  | zero => exact ⟨[], rfl⟩
  | succ n =>
    rw [trail]
    split
    · exact ⟨_, rfl⟩
    · exact ⟨[], rfl⟩

theorem branch_of_height_eq_zero (c : Catalog) {r : Record} (low : r.height = 0) :
    c.branch r = [r] := by
  rw [branch, low]
  rfl

theorem Links.branch {c : Catalog} {p r : Record} (l : c.Links p r) :
    c.branch r = r :: c.branch p := by
  rw [Catalog.branch, l.height, trail, l.found]
  rfl

namespace Grown

variable {g r : Record} {c : Catalog}

theorem branch_first (grown : Grown g c) : c.branch g = [g] :=
  c.branch_of_height_eq_zero grown.height_first

theorem length_branch (grown : Grown g c) (m : r ∈ c) :
    (c.branch r).length = r.height.toNat + 1 := by
  induction r, m using grown.induct with
  | first =>
    rw [grown.branch_first, grown.height_first]
    rfl
  | child p r _ _ l ih => rw [l.branch, List.length_cons, ih, l.height]

theorem getLast?_branch (grown : Grown g c) (m : r ∈ c) : (c.branch r).getLast? = some g := by
  induction r, m using grown.induct with
  | first =>
    rw [grown.branch_first]
    rfl
  | child p r _ _ l ih =>
    rw [l.branch, List.getLast?_cons, ih]
    rfl

theorem mem_of_mem_branch (grown : Grown g c) (m : r ∈ c) : ∀ s ∈ c.branch r, s ∈ c := by
  induction r, m using grown.induct with
  | first =>
    rw [grown.branch_first]
    intro s h
    rw [List.mem_singleton.1 h]
    exact grown.first_mem
  | child p r _ m l ih =>
    intro s h
    rw [l.branch] at h
    rcases List.mem_cons.1 h with rfl | h
    · exact m
    · exact ih s h

theorem first_mem_branch (grown : Grown g c) (m : r ∈ c) : g ∈ c.branch r :=
  List.mem_of_getLast? (grown.getLast?_branch m)

/-- Behind a record of a branch comes the branch of that record. -/
theorem branch_of_append (grown : Grown g c) (m : r ∈ c) {s : Record} {newer older : List Record}
    (e : c.branch r = newer ++ s :: older) : c.branch s = s :: older := by
  induction newer generalizing r with
  | nil =>
    obtain ⟨rest, e'⟩ := c.branch_eq_cons r
    rw [e'] at e
    obtain ⟨rfl, rfl⟩ := List.cons.inj e
    exact e'
  | cons x newer ih =>
    have later : r ≠ g := by
      rintro rfl
      rw [grown.branch_first] at e
      simp at e
    obtain ⟨p, l⟩ := grown.parent m later
    rw [l.branch] at e
    exact ih l.mem (List.cons.inj e).2

/-- Each step along a branch goes down by one. -/
theorem height_of_append (grown : Grown g c) (m : r ∈ c) {s : Record} {newer older : List Record}
    (e : c.branch r = newer ++ s :: older) :
    s.height.toNat + newer.length = r.height.toNat := by
  have ms : s ∈ c := grown.mem_of_mem_branch m s (by simp [e])
  have whole := grown.length_branch m
  have part := grown.length_branch ms
  rw [e] at whole
  rw [grown.branch_of_append m e] at part
  simp only [List.length_append, List.length_cons] at whole part
  omega

theorem height_le_of_mem_branch (grown : Grown g c) (m : r ∈ c) {s : Record}
    (h : s ∈ c.branch r) : s.height.toNat ≤ r.height.toNat := by
  obtain ⟨newer, older, e⟩ := List.append_of_mem h
  have := grown.height_of_append m e
  omega

theorem height_of_getElem? (grown : Grown g c) (m : r ∈ c) {s : Record} {n : Nat}
    (e : (c.branch r)[n]? = some s) : s.height.toNat + n = r.height.toNat := by
  obtain ⟨inside, rfl⟩ := List.getElem?_eq_some_iff.1 e
  have split : c.branch r =
      (c.branch r).take n ++ (c.branch r)[n] :: (c.branch r).drop (n + 1) := by
    rw [← List.drop_eq_getElem_cons inside, List.take_append_drop]
  have h := grown.height_of_append m split
  rwa [List.length_take_of_le (Nat.le_of_lt inside)] at h

/-- The first record, and no other record of the branch, is at the end of a branch. -/
theorem first_not_mem_dropLast_branch (grown : Grown g c) (m : r ∈ c) :
    g ∉ (c.branch r).dropLast := by
  intro h
  obtain ⟨newer, older, e⟩ := List.append_of_mem h
  obtain ⟨front, last⟩ := List.getLast?_eq_some_iff.1 (grown.getLast?_branch m)
  have split : c.branch r = newer ++ g :: (older ++ [g]) := by
    rw [last] at e ⊢
    rw [List.dropLast_concat] at e
    rw [e]
    simp
  have tail := grown.branch_of_append m split
  rw [grown.branch_first] at tail
  simp at tail

/-- A branch stays as it is while the catalog grows. -/
theorem branch_of_within (grown : Grown g c) {d : Catalog} (w : c.Within d) (m : r ∈ c) :
    d.branch r = c.branch r := by
  induction r, m using grown.induct with
  | first => rw [grown.branch_first, d.branch_of_height_eq_zero grown.height_first]
  | child p r _ _ l ih => rw [(l.mono w).branch, l.branch, ih]

/-- On a branch the first record at most so high is exactly so high. -/
theorem find?_height_le (grown : Grown g c) (m : r ∈ c) {height : Nat}
    (low : height ≤ r.height.toNat) :
    (c.branch r).find? (fun s => decide (s.height.toNat ≤ height)) =
      (c.branch r)[r.height.toNat - height]? := by
  induction r, m using grown.induct with
  | first =>
    have zero : g.height.toNat = 0 := by rw [grown.height_first]; rfl
    rw [grown.branch_first, zero]
    simp [zero]
  | child p r _ _ l ih =>
    have up := l.height
    rw [l.branch]
    by_cases here : r.height.toNat ≤ height
    · have same : r.height.toNat - height = 0 := by omega
      simp [here, same]
    · have next : r.height.toNat - height = p.height.toNat - height + 1 := by omega
      rw [List.find?_cons_of_neg (by simpa using here), ih (by omega), next,
        List.getElem?_cons_succ]

end Grown

/-- The record at a height of a branch, the record itself or one that it descends from. -/
def ancestor? (c : Catalog) (r : Record) (height : Nat) : Option Record :=
  (c.branch r).find? fun s => s.height.toNat = height

theorem ancestor?_self (c : Catalog) (r : Record) : c.ancestor? r r.height.toNat = some r := by
  obtain ⟨rest, split⟩ := c.branch_eq_cons r
  rw [ancestor?, split]
  simp

/-- Below itself a record has the ancestors of its parent. -/
theorem Links.ancestor?_eq {c : Catalog} {p r : Record} (l : c.Links p r) {height : Nat}
    (below : height < r.height.toNat) : c.ancestor? r height = c.ancestor? p height := by
  have apart : ¬r.height.toNat = height := Nat.ne_of_gt below
  rw [ancestor?, l.branch, List.find?_cons_of_neg (by simpa using apart)]
  rfl

/-- The ancestor at a height is found by counting down the branch. -/
theorem Grown.ancestor?_of_getElem? {g r s : Record} {c : Catalog} (grown : Grown g c) (m : r ∈ c)
    {n : Nat} (e : (c.branch r)[n]? = some s) : c.ancestor? r s.height.toNat = some s := by
  induction r, m using grown.induct generalizing n with
  | first =>
    rw [grown.branch_first] at e
    obtain ⟨-, rfl⟩ := List.getElem?_eq_some_iff.1 e
    simpa using c.ancestor?_self g
  | child p r mp mr l ih =>
    rw [l.branch] at e
    cases n with
    | zero =>
      obtain rfl := Option.some.inj e
      exact c.ancestor?_self r
    | succ n =>
      have below := grown.height_le_of_mem_branch mp (List.mem_of_getElem? e)
      have up := l.height
      rw [l.ancestor?_eq (by omega)]
      exact ih e

end Catalog

end HeaviestChain
