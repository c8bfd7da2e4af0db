import HeaviestChain.Proofs.Tracker.History
import Mathlib.Data.List.MinMax

/-!
Fork choice. Without outages the head of the store is, after every history, the record with the most
work, and of several such records the one filed first.
-/

namespace HeaviestChain

namespace Catalog

variable {c : Catalog} {g head r : Record}

/-- The records in the order they were filed. -/
def inOrder (c : Catalog) : List Record := c.records.reverse

/-- Of the records with the most work the one filed first. -/
def foremost? (c : Catalog) : Option Record := c.inOrder.argmax fun r => r.work.toNat

theorem inOrder_insert_of_none (new : c.find? r.hash = none) :
    (c.insert r).inOrder = c.inOrder ++ [r] := by
  rw [inOrder, records_insert_of_none new, List.reverse_cons]
  rfl

theorem foremost?_first (g : Record) : (empty.file g).foremost? = some g := rfl

/-- A new record takes the lead exactly if it has more work. -/
theorem foremost?_insert (lead : c.foremost? = some head) (new : c.find? r.hash = none) :
    (c.insert r).foremost? = some (if r.Outweighs head then r else head) := by
  rw [foremost?, inOrder_insert_of_none new, List.argmax_concat]
  change c.inOrder.argmax (fun r => r.work.toNat) = some head at lead
  rw [lead]
  show (if r.Outweighs head then some r else some head) = _
  split <;> rfl

theorem work_le_of_foremost? (lead : c.foremost? = some head) (m : r ∈ c.inOrder) :
    r.work.toNat ≤ head.work.toNat :=
  List.le_of_mem_argmax (f := fun r : Record => r.work.toNat) m lead

theorem idxOf_le_of_foremost? (lead : c.foremost? = some head) (m : r ∈ c.inOrder)
    (most : head.work.toNat ≤ r.work.toNat) : c.inOrder.idxOf head ≤ c.inOrder.idxOf r :=
  List.index_of_argmax (f := fun r : Record => r.work.toNat) lead m most

theorem Grown.mem_inOrder (grown : Grown g c) : r ∈ c.inOrder ↔ c.find? r.hash = some r := by
  rw [inOrder, List.mem_reverse, grown.mem_records]
  rfl

theorem Grown.head?_inOrder (grown : Grown g c) : c.inOrder.head? = some g := by
  induction grown with
  | first _ => rfl
  | child before new _ ih =>
    rw [inOrder, List.head?_reverse] at ih ⊢
    show (_ :: _).getLast? = _
    rw [List.getLast?_cons, ih]
    rfl

end Catalog

/-- Whether a store that began with `g` lists its records in the order they were filed, and its head
is the first of those with the most work. -/
structure Store.Elects (s : Store) (g : Record) : Prop where
  listed : ∀ r, r ∈ s.catalog.inOrder ↔ s.find? r.hash = some r
  first : s.catalog.inOrder.head? = some g
  foremost : s.catalog.foremost? = some s.head
  unsurpassed : ∀ r ∈ s.catalog.inOrder, r.work.toNat ≤ s.head.work.toNat
  earliest : ∀ r ∈ s.catalog.inOrder, s.head.work.toNat ≤ r.work.toNat →
    s.catalog.inOrder.idxOf s.head ≤ s.catalog.inOrder.idxOf r

/-- Whether a store can be another one after a header is submitted: the header is filed behind all
others or not at all, and only more work displaces the head. -/
structure Store.Succeeds (s' s : Store) (h : Header) : Prop where
  filed : s'.catalog.inOrder = s.catalog.inOrder ∨
    ∃ r : Record, r.header = h ∧ s'.catalog.inOrder = s.catalog.inOrder ++ [r]
  head : s'.head = s.head ∨ s'.head.Outweighs s.head

namespace Tracker

variable {g r : Record} {p : Params} {t : Tracker} {h : Header} {now : Int} {reply : Reply}

theorem Chooses.foremost (sure : t.connection.Dependable) (chooses : t.Chooses r reply)
    (lead : t.store.catalog.foremost? =
      some (if r.Outweighs t.store.head then r else t.store.head)) :
    reply.tracker.store.catalog.foremost? = some reply.tracker.store.head := by
  rw [chooses.catalog, lead]
  cases chooses with
  | failed _ faulty _ => exact absurd sure faulty
  | stayed _ lighter keeps => rw [if_neg lighter, keeps.head]
  | moved _ _ heavier _ _ head _ _ => rw [if_pos heavier, head]

theorem Submits.foremost (sure : t.connection.Dependable)
    (lead : t.store.catalog.foremost? = some t.store.head) (submits : t.Submits h now reply) :
    reply.tracker.store.catalog.foremost? = some reply.tracker.store.head := by
  cases submits with
  | stopped _ keeps => rw [keeps.catalog, keeps.head, lead]
  | @filed _ r n _ _ new _ chooses =>
    exact chooses.foremost ((resumes_filed t r n).dependable sure)
      (Catalog.foremost?_insert lead new)

theorem Submits.succeeds (submits : t.Submits h now reply) :
    reply.tracker.store.Succeeds t.store h := by
  refine ⟨?_, submits.head⟩
  rcases submits.catalog with same | ⟨p, r, own, new, -, insert⟩
  · exact .inl (by rw [same])
  · exact .inr ⟨r, own, by rw [insert, Catalog.inOrder_insert_of_none new]⟩

theorem foremost_after (begins : Begins p (fun _ _ => false) t) (submissions : List Submission) :
    (t.after submissions).store.catalog.foremost? = some (t.after submissions).store.head := by
  obtain ⟨-, -, -, catalog, -⟩ := begins.records
  refine (after_induct (motive := fun u => u.connection.Dependable ∧
    u.store.catalog.foremost? = some u.store.head) begins.rooted ?_ ?_ submissions).2.2
  · exact ⟨begins.dependable, by rw [catalog, Catalog.foremost?_first]⟩
  · rintro u rooted ⟨sure, lead⟩ h now
    obtain ⟨resumes, submits⟩ := submit_submits rooted h now
    exact ⟨resumes.dependable sure, submits.foremost sure lead⟩

/-- Without outages the head is, after every history, the first filed of the records with the most
work, and every submission moves it only to a record with more work. -/
theorem head_elected (begins : Begins p (fun _ _ => false) t) (submissions : List Submission) :
    ∃ g, Record.genesis p.genesis = .ok g ∧ (t.after submissions).store.Elects g ∧
      ∀ next : Submission,
        ((t.after submissions).submit next.header next.now).tracker.store.Succeeds
          (t.after submissions).store next.header := by
  have rooted := begins.rooted.after submissions
  have lead := foremost_after begins submissions
  obtain ⟨-, -, first, -, -⟩ := begins.records
  refine ⟨t.store.head, first, ⟨?_, rooted.grown.head?_inOrder, lead, ?_, ?_⟩, ?_⟩
  · intro r
    exact rooted.grown.mem_inOrder
  · intro r m
    exact Catalog.work_le_of_foremost? lead m
  · intro r m most
    exact Catalog.idxOf_le_of_foremost? lead m most
  · intro next
    exact (submit_submits rooted next.header next.now).2.succeeds

/-- So it is on the unit test network after a header is submitted on top of the first one. -/
theorem head_elected_unitTest :
    ∃ t, Begins .unitTest (fun _ _ => false) t ∧
      ∃ g, Record.genesis Params.unitTest.genesis = .ok g ∧
        (t.after [⟨Params.unitTestNext, 1231006565⟩]).store.Elects g ∧
        ∀ next : Submission,
          ((t.after [⟨Params.unitTestNext, 1231006565⟩]).submit next.header
            next.now).tracker.store.Succeeds
            (t.after [⟨Params.unitTestNext, 1231006565⟩]).store next.header := by
  obtain ⟨t, begins⟩ := exists_begins (fun _ _ => false) Params.sound_unitTest (by decide) rfl
  exact ⟨t, begins, head_elected begins _⟩

end Tracker

end HeaviestChain
