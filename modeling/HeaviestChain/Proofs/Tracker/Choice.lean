import HeaviestChain.Proofs.Tree.Work
import HeaviestChain.Proofs.Walk.Fork
import HeaviestChain.Tracker.Choice

/-!
The choice between the head and a record of a grown catalog: it is always made, by the work alone.
A record that extends the head is reached by a fork that leaves nothing.
-/

namespace HeaviestChain

open Catalog

variable {g : Record} {c : Catalog}

/-- The first record has the least work. -/
theorem Catalog.Grown.not_outweighs (grown : Grown g c) {r : Record} (m : r ∈ c) :
    ¬g.Outweighs r := by
  show ¬r.work.toNat < g.work.toNat
  induction r, m using grown.induct with
  | first => exact Nat.lt_irrefl _
  | child p r _ _ l ih =>
    have more : p.work.toNat < r.work.toNat := grown.outweighs_parent l
    omega

/-- A record that has more work than another and names it as its parent is its child. -/
theorem Catalog.Grown.links_of_outweighs (grown : Grown g c) {head new : Record}
    (mh : head ∈ c) (mn : new ∈ c) (heavier : new.Outweighs head)
    (next : new.header.previous = head.hash) : c.Links head new := by
  have later : new ≠ g := by
    rintro rfl
    exact grown.not_outweighs mh heavier
  obtain ⟨p, l⟩ := grown.parent mn later
  obtain rfl : p = head := eq_of_hash_eq l.mem mh (l.previous.symm.trans next)
  exact l

/-- A child is reached from its parent by entering it. -/
theorem Catalog.Links.joins {p r : Record} (l : c.Links p r) : c.Joins p r ⟨p, [], [r]⟩ where
  base_mem := l.mem
  left := rfl
  entered := l.branch
  shared := fun _ h _ => h

namespace SignalWindow

/-- The versions of the latest headers of a branch that fit into the window, oldest first. -/
def latestOf (w : SignalWindow) (branch : List Record) : List UInt32 :=
  ((if w.size = 0 then branch else branch.take w.size).map fun r => r.header.version).reverse

theorem run_history (grown : Grown g c) (w : SignalWindow) {tip : Record} (m : tip ∈ c)
    (stored : Nat) : (w.history stored tip).run c.find? = .ok (w.latestOf (c.branch tip)) := by
  rw [history, Walk.run_bind, Walk.run_latest grown m]
  simp only [Except.bind, Walk.run_done, latestOf, List.map_reverse]

end SignalWindow

namespace Choice

variable {w : SignalWindow} {head new : Record}

theorem run_between_of_extends (heavier : new.Outweighs head)
    (next : new.header.previous = head.hash) (stored : Nat) :
    (between w stored head new).run c.find? = .ok extend := by
  rw [between, if_pos heavier, if_pos next]
  rfl

theorem run_between_of_rival (grown : Grown g c) (mh : head ∈ c) (mn : new ∈ c)
    (heavier : new.Outweighs head) (apart : new.header.previous ≠ head.hash) (stored : Nat) :
    ∃ f, (between w stored head new).run c.find? =
        .ok (reorganize f (w.latestOf (c.branch new))) ∧ c.Joins head new f := by
  obtain ⟨f, found, joins⟩ := Walk.run_fork grown mh mn stored
  refine ⟨f, ?_, joins⟩
  rw [between, if_pos heavier, if_neg apart, ofRival, Walk.run_bind, found]
  show (w.history stored new >>= fun versions => .done (reorganize f versions)).run _ = _
  rw [Walk.run_bind, SignalWindow.run_history grown w mn]
  rfl

/-- A record without more work than the head is told apart by whether the best chain holds it. -/
theorem run_between_of_lighter (grown : Grown g c) (mh : head ∈ c) (mn : new ∈ c)
    (lighter : ¬new.Outweighs head) (stored : Nat) :
    (between w stored head new).run c.find? =
      .ok (if new ∈ c.branch head then known else aside) := by
  rw [between, if_neg lighter, ofLighter, Walk.run_bind, Walk.run_ancestor grown mh]
  by_cases above : head.height < new.height
  · have off : new ∉ c.branch head := by
      intro on
      have low := grown.height_le_of_mem_branch mh on
      have high := UInt32.lt_iff_toNat_lt.1 above
      omega
    rw [if_pos above, if_neg off]
    rfl
  · have low : new.height.toNat ≤ head.height.toNat :=
      UInt32.le_iff_toNat_le.1 (UInt32.not_lt.1 above)
    have inside : head.height.toNat - new.height.toNat < (c.branch head).length := by
      rw [grown.length_branch mh]
      omega
    obtain ⟨s, e⟩ : ∃ s, (c.branch head)[head.height.toNat - new.height.toNat]? = some s :=
      ⟨_, List.getElem?_eq_getElem inside⟩
    have on : s ∈ c.branch head := List.mem_of_getElem? e
    rw [if_neg above, e]
    show Walk.run c.find? (.done (if s.hash = new.hash then known else aside)) = _
    rw [Walk.run_done]
    by_cases same : s.hash = new.hash
    · obtain rfl := eq_of_hash_eq (grown.mem_of_mem_branch mh s on) mn same
      rw [if_pos rfl, if_pos on]
    · have off : new ∉ c.branch head := by
        intro on
        obtain ⟨i, e'⟩ := List.getElem?_of_mem on
        have place := grown.height_of_getElem? mh e'
        have here : head.height.toNat - new.height.toNat = i := by omega
        rw [here, e'] at e
        exact same (by rw [Option.some.inj e])
      rw [if_neg same, if_neg off]

end Choice

end HeaviestChain
