import HeaviestChain.Proofs.Tracker.History
import HeaviestChain.Proofs.Tree.Work
import Mathlib.Data.List.Chain

/-!
The tree of stored headers. Whatever calls fail, the records of a store that a history leaves form a
tree below the first record, whose heights and sums of work are exact, and a longer history keeps
every record and never gives work up.
-/

namespace HeaviestChain

namespace Catalog.Grown

variable {g r : Record} {c : Catalog}

theorem isChain_branch (grown : Grown g c) (m : r ∈ c) :
    (c.branch r).IsChain fun a b => c.find? a.header.previous = some b := by
  induction r, m using grown.induct with
  | first =>
    rw [grown.branch_first]
    exact .singleton _
  | child p r _ _ l ih =>
    obtain ⟨rest, split⟩ := c.branch_eq_cons p
    rw [split] at ih
    rw [l.branch, split]
    exact .cons_cons l.found ih

end Catalog.Grown

namespace Store

/-- Whether the branch of a record follows the parents to `g` in as many steps as the record is
high. -/
structure Traces (s : Store) (g r : Record) : Prop where
  newest : (s.catalog.branch r).head? = some r
  linked : (s.catalog.branch r).IsChain fun a b => s.find? a.header.previous = some b
  oldest : (s.catalog.branch r).getLast? = some g
  once : g ∉ (s.catalog.branch r).dropLast
  steps : (s.catalog.branch r).length = r.height.toNat + 1

/-- Whether the records of a store form a tree below `g`. -/
structure TreeBelow (s : Store) (g : Record) : Prop where
  filed : ∀ h r, s.find? h = some r → r.hash = h
  head : s.find? s.head.hash = some s.head
  first : s.find? g.hash = some g
  parent : ∀ h r, s.find? h = some r → r ≠ g → 1 ≤ r.height.toNat ∧
    ∃ q, s.find? r.header.previous = some q ∧ q.height.toNat + 1 = r.height.toNat ∧
      q.work.toNat < r.work.toNat
  traced : ∀ h r, s.find? h = some r → s.Traces g r
  target : ∀ h r, s.find? h = some r → ∃ t, r.header.target = .ok t
  work : ∀ h r, s.find? h = some r → r.work.toNat = Record.totalWork (s.catalog.branch r)

theorem treeBelow_of_grown {s : Store} {g : Record} (grown : s.catalog.Grown g) :
    s.TreeBelow g where
  filed h r e := Catalog.hash_of_find? e
  head := s.find?_head
  first := grown.first_mem
  parent h r e later := by
    have m := Catalog.mem_of_find? e
    obtain ⟨q, l⟩ := grown.parent m later
    exact ⟨grown.height_pos m later, q, l.found, l.height.symm, grown.outweighs_parent l⟩
  traced h r e := by
    have m := Catalog.mem_of_find? e
    obtain ⟨rest, split⟩ := s.catalog.branch_eq_cons r
    exact ⟨by rw [split]; rfl, grown.isChain_branch m, grown.getLast?_branch m,
      grown.first_not_mem_dropLast_branch m, grown.length_branch m⟩
  target h r e := grown.target_eq_ok (Catalog.mem_of_find? e)
  work h r e := grown.work_eq_totalWork (Catalog.mem_of_find? e)

/-- Whether a store can be another one later: it has every record of it as it was, and another head
only with more work. -/
structure Prolongs (s' s : Store) : Prop where
  kept : ∀ h r, s.find? h = some r → s'.find? h = some r
  work_le : s.head.work.toNat ≤ s'.head.work.toNat
  displaced : s'.head ≠ s.head → s.head.work.toNat < s'.head.work.toNat

theorem Prolongs.refl (s : Store) : s.Prolongs s :=
  ⟨fun _ _ e => e, Nat.le_refl _, fun ne => absurd rfl ne⟩

theorem Prolongs.trans {s s' s'' : Store} (h' : s''.Prolongs s') (h : s'.Prolongs s) :
    s''.Prolongs s := by
  refine ⟨fun x r e => h'.kept x r (h.kept x r e), Nat.le_trans h.work_le h'.work_le, ?_⟩
  intro ne
  by_cases same : s'.head = s.head
  · rw [← same] at ne ⊢
    exact h'.displaced ne
  · exact Nat.lt_of_lt_of_le (h.displaced same) h'.work_le

end Store

namespace Tracker

variable {g : Record} {p : Params} {outages : Nat → Operation → Bool} {t : Tracker}

theorem Submits.prolongs (rooted : t.Rooted g) {h : Header} {now : Int} {reply : Reply}
    (submits : t.Submits h now reply) : reply.tracker.store.Prolongs t.store := by
  refine ⟨(submits.grown rooted).1, ?_, ?_⟩
  · rcases submits.head with same | heavier
    · rw [same]
    · exact Nat.le_of_lt heavier
  · intro ne
    rcases submits.head with same | heavier
    · exact absurd same ne
    · exact heavier

theorem Rooted.prolongs (rooted : t.Rooted g) (submissions : List Submission) :
    (t.after submissions).store.Prolongs t.store := by
  refine (after_induct (motive := fun u => u.store.Prolongs t.store) rooted (.refl _) ?_
    submissions).2
  intro u rooted prolongs h now
  exact ((submit_submits rooted h now).2.prolongs rooted).trans prolongs

theorem Rooted.within_after (rooted : t.Rooted g) (earlier later : List Submission) :
    (t.after earlier).store.catalog.Within (t.after (earlier ++ later)).store.catalog := by
  rw [after_append]
  exact ((rooted.after earlier).prolongs later).kept

/-- Whatever calls fail, the records of every history form a tree below the first one, and a longer
history keeps the tree and the work of the head. -/
theorem tree_kept (begins : Begins p outages t) (earlier later : List Submission) :
    ∃ g, Record.genesis p.genesis = .ok g ∧ (t.after earlier).store.TreeBelow g ∧
      (t.after (earlier ++ later)).store.Prolongs (t.after earlier).store := by
  have rooted := begins.rooted.after earlier
  obtain ⟨-, -, first, -, -⟩ := begins.records
  refine ⟨t.store.head, first, Store.treeBelow_of_grown rooted.grown, ?_⟩
  rw [after_append]
  exact rooted.prolongs later

/-- So it is on the unit test network where every third call fails. -/
theorem tree_kept_unitTest :
    ∃ t, Begins .unitTest (fun call _ => call % 3 = 2) t ∧
      ∃ g, Record.genesis Params.unitTest.genesis = .ok g ∧
        (t.after [⟨Params.unitTestNext, 1231006565⟩]).store.TreeBelow g ∧
        (t.after ([⟨Params.unitTestNext, 1231006565⟩] ++
          [⟨Params.unitTestNext, 1231006566⟩])).store.Prolongs
          (t.after [⟨Params.unitTestNext, 1231006565⟩]).store := by
  obtain ⟨t, begins⟩ :=
    exists_begins (fun call _ => call % 3 = 2) Params.sound_unitTest (by decide) rfl
  exact ⟨t, begins, tree_kept begins _ _⟩

end Tracker

end HeaviestChain
