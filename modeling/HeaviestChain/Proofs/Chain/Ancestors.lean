import HeaviestChain.Proofs.Chain.Availability
import HeaviestChain.Proofs.Chain.Mining

/-!
Ancestors of stored records. Without outages a lookup of an ancestor follows the one path back to
the first record, and the records at the heights of the best chain are the path of the head.
-/

namespace HeaviestChain.Tracker

open Catalog

variable {g x y : Record} {p : Params} {t : Tracker}

/-- The ancestor of a record at a height. -/
def ancestor (t : Tracker) (r : Record) (height : UInt32) :
    Except Failure (Option Record) × Tracker :=
  t.resolve fun stored => Walk.ancestor stored r height

/-- Whether the ancestors of stored records are the records on the paths back to `g`. -/
structure Retraces (t : Tracker) (g : Record) : Prop where
  above : ∀ x ∈ t.store.catalog, ∀ height, x.height < height →
    (t.ancestor x height).1 = .ok none
  onPath : ∀ x ∈ t.store.catalog, ∀ height ≤ x.height, ∃ a,
    (t.ancestor x height).1 = .ok (some a) ∧ a.height = height ∧
      t.store.catalog.Path g x a ∧ t.store.catalog.Path g a g ∧
      ∀ b, t.store.catalog.Path g x b → b.height = height → b = a
  inTurn : ∀ x ∈ t.store.catalog, ∀ low mid, low ≤ mid → mid ≤ x.height → ∃ a,
    (t.ancestor x mid).1 = .ok (some a) ∧ (t.ancestor a low).1 = (t.ancestor x low).1
  joined : ∀ x ∈ t.store.catalog, ∀ y ∈ t.store.catalog, ∀ low high, low < high →
    ∀ a, (t.ancestor x high).1 = .ok (some a) → (t.ancestor y high).1 = .ok (some a) → ∃ b,
      (t.ancestor x low).1 = .ok (some b) ∧ (t.ancestor y low).1 = .ok (some b)

/-- Whether the records of the best chain are listed by height, from `g` on and each after the one
that its header names. -/
structure Lists (t : Tracker) (g : Record) (best : UInt32) : Prop where
  bestHeight : t.bestHeight.1 = .ok best
  ofHead : ∀ height, (t.atHeight height).1 = (t.ancestor t.store.head height).1
  beyond : ∀ height, best < height → (t.atHeight height).1 = .ok none
  first : (t.atHeight 0).1 = .ok (some g)
  linked : ∀ height, 1 ≤ height → height ≤ best → ∃ q r,
    (t.atHeight height).1 = .ok (some r) ∧ (t.atHeight (height - 1)).1 = .ok (some q) ∧
      r.header.previous = q.hash

section Dependable

variable (rooted : t.Rooted g) (sure : t.connection.Dependable)
include rooted sure

theorem ancestor_of_dependable (m : x ∈ t.store.catalog) (height : UInt32) :
    (t.ancestor x height).1 = .ok (t.store.catalog.ancestor? x height.toNat) := by
  have read := (Walk.ancestor t.store.size x height).resolve_of_gets (c := t.connection)
    rooted.hidden fun call => by rw [sure.faultless]
  exact read.trans (Walk.run_ancestor_eq rooted.grown m t.store.size height)

theorem ancestor_eq_ok_iff (m : x ∈ t.store.catalog) {height : UInt32} {a : Record} :
    (t.ancestor x height).1 = .ok (some a) ↔ a ∈ t.store.catalog.branch x ∧ a.height = height := by
  rw [ancestor_of_dependable rooted sure m, Except.ok.injEq, rooted.grown.ancestor?_eq_some_iff m,
    UInt32.toNat_inj]

theorem retraces_of_dependable : t.Retraces g where
  above x m height high := by
    rw [ancestor_of_dependable rooted sure m,
      rooted.grown.ancestor?_eq_none m (UInt32.lt_iff_toNat_lt.1 high)]
  onPath x m height low := by
    obtain ⟨a, found⟩ := rooted.grown.exists_ancestor m (UInt32.le_iff_toNat_le.1 low)
    have read := (ancestor_of_dependable rooted sure m height).trans (congrArg Except.ok found)
    obtain ⟨on, here⟩ := (ancestor_eq_ok_iff rooted sure m).1 read
    have ma := rooted.grown.mem_of_mem_branch m a on
    refine ⟨a, read, here, (rooted.grown.path_iff m).2 on,
      (rooted.grown.path_iff ma).2 (rooted.grown.first_mem_branch ma), ?_⟩
    -- a second record of the path at this height would be found in the place of the first
    intro b path high
    have other := (ancestor_eq_ok_iff rooted sure m).2 ⟨(rooted.grown.path_iff m).1 path, high⟩
    exact Option.some.inj (Except.ok.inj (other.symm.trans read))
  inTurn x m low mid under below := by
    obtain ⟨a, found⟩ := rooted.grown.exists_ancestor m (UInt32.le_iff_toNat_le.1 below)
    have read := (ancestor_of_dependable rooted sure m mid).trans (congrArg Except.ok found)
    obtain ⟨on, rfl⟩ := (ancestor_eq_ok_iff rooted sure m).1 read
    have ma := rooted.grown.mem_of_mem_branch m a on
    refine ⟨a, read, ?_⟩
    rw [ancestor_of_dependable rooted sure ma, ancestor_of_dependable rooted sure m,
      rooted.grown.ancestor?_of_mem_branch m on (UInt32.le_iff_toNat_le.1 under)]
  joined x mx y my low high under a atx aty := by
    obtain ⟨onx, here⟩ := (ancestor_eq_ok_iff rooted sure mx).1 atx
    obtain ⟨ony, -⟩ := (ancestor_eq_ok_iff rooted sure my).1 aty
    have ma := rooted.grown.mem_of_mem_branch mx a onx
    have lower : low.toNat ≤ a.height.toNat := by
      rw [here]
      exact Nat.le_of_lt (UInt32.lt_iff_toNat_lt.1 under)
    obtain ⟨b, found⟩ := rooted.grown.exists_ancestor ma lower
    refine ⟨b, ?_, ?_⟩
    · rw [ancestor_of_dependable rooted sure mx, rooted.grown.ancestor?_of_mem_branch mx onx lower,
        found]
    · rw [ancestor_of_dependable rooted sure my, rooted.grown.ancestor?_of_mem_branch my ony lower,
        found]

theorem lists_of_dependable : t.Lists g t.store.head.height where
  bestHeight := bestHeight_of_dependable sure
  ofHead height := by
    rw [atHeight_of_dependable rooted sure, ancestor_of_dependable rooted sure t.store.head_mem]
  beyond height high := by
    rw [atHeight_of_dependable rooted sure,
      rooted.grown.ancestor?_eq_none t.store.head_mem (UInt32.lt_iff_toNat_lt.1 high)]
  first := by
    rw [atHeight_of_dependable rooted sure]
    exact congrArg Except.ok (rooted.grown.ancestor?_zero t.store.head_mem)
  linked height pos low := by
    have step : (height - 1).toNat + 1 = height.toNat := by
      rw [UInt32.toNat_sub_of_le _ _ pos]
      exact Nat.sub_add_cancel (UInt32.le_iff_toNat_le.1 pos)
    have inside : (height - 1).toNat + 1 ≤ t.store.head.height.toNat := by
      rw [step]
      exact UInt32.le_iff_toNat_le.1 low
    obtain ⟨q, r, upper, lower, link⟩ :=
      rooted.grown.exists_linked_ancestors t.store.head_mem inside
    rw [step] at upper
    refine ⟨q, r, ?_, ?_, link.previous⟩
    · rw [atHeight_of_dependable rooted sure, upper]
    · rw [atHeight_of_dependable rooted sure, lower]

end Dependable

/-- Without outages, after every history, ancestors are found on the one path back to the first
record, and the best chain is listed by height. -/
theorem ancestors_on_path (begins : Begins p (fun _ _ => false) t)
    (submissions : List Submission) :
    ∃ g, Record.genesis p.genesis = .ok g ∧ (t.after submissions).Retraces g ∧
      ∃ best, (t.after submissions).Lists g best := by
  obtain ⟨-, -, first, -, -⟩ := begins.records
  have rooted := begins.rooted.after submissions
  have sure := begins.dependable_after submissions
  exact ⟨t.store.head, first, retraces_of_dependable rooted sure, _,
    lists_of_dependable rooted sure⟩

/-- So it is on the unit test network after two headers are mined in turn, at heights 1 and 2. -/
theorem ancestors_on_path_unitTestLate :
    ∃ t, Begins .unitTest (fun _ _ => false) t ∧
      ∃ u, u = t.after (mining 1231006685
          [Params.unitTestLate, Params.unitTestNext, Params.unitTest.genesis]) ∧
        ∃ g, Record.genesis Params.unitTest.genesis = .ok g ∧ u.Retraces g ∧ u.Lists g 2 := by
  obtain ⟨t, begins⟩ := exists_begins (fun _ _ => false) Params.sound_unitTest (by decide) rfl
  obtain ⟨g, first, retraces, best, lists⟩ := ancestors_on_path begins (mining 1231006685
    [Params.unitTestLate, Params.unitTestNext, Params.unitTest.genesis])
  have carries := begins.carries_mined (by decide) mined_unitTestLate
  have bears := begins.bears_head _ carries
  have high := bears.height (begins.rooted.after _).grown
  have read := bestHeight_of_dependable (begins.dependable_after (mining 1231006685
    [Params.unitTestLate, Params.unitTestNext, Params.unitTest.genesis]))
  have two : best = 2 := by
    rw [← UInt32.toNat_inj, ← Except.ok.inj (read.symm.trans lists.bestHeight), high]
    rfl
  exact ⟨t, begins, _, rfl, g, first, retraces, two ▸ lists⟩

end HeaviestChain.Tracker
