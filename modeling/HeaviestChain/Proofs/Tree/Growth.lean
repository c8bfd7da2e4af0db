import HeaviestChain.Store.Catalog

/-!
Catalogs that grow from a first record by children of filed records. In such a catalog every record
but the first has a filed parent one lower, so that what holds of the first record and passes from
parents to children holds of every record.
-/

namespace HeaviestChain

namespace Record

/-- A child is one higher than its parent and adds the work of the target that it claims. -/
theorem extend_eq_ok {p r : Record} {h : Header} :
    p.extend h = .ok r ↔
      p.height.toNat + 1 < UInt32.size ∧
        ∃ t, h.target = .ok t ∧ r = ⟨h, p.height + 1, p.work.add t.work⟩ := by
  unfold extend
  cases target : h.target with
  | error e => simp
  | ok t =>
    by_cases room : p.height.toNat + 1 < UInt32.size
    · simp [room, eq_comm]
    · simp [room]

theorem header_of_extend {p r : Record} {h : Header} (e : p.extend h = .ok r) : r.header = h := by
  obtain ⟨-, t, -, rfl⟩ := extend_eq_ok.1 e
  rfl

theorem height_of_extend {p r : Record} {h : Header} (e : p.extend h = .ok r) :
    r.height.toNat = p.height.toNat + 1 := by
  obtain ⟨room, t, -, rfl⟩ := extend_eq_ok.1 e
  have one : (1 : UInt32).toNat = 1 := rfl
  rw [UInt32.toNat_add, one]
  exact Nat.mod_eq_of_lt room

theorem genesis_eq_ok {r : Record} {h : Header} :
    genesis h = .ok r ↔ ∃ t, h.target = .ok t ∧ r = ⟨h, 0, Work.ofNat t.work⟩ := by
  unfold genesis
  cases target : h.target with
  | error e => simp
  | ok t => simp [eq_comm]

end Record

namespace Catalog

/-- A record is in a catalog if it is found under its hash. -/
instance : Membership Record Catalog := ⟨fun c r => c.find? r.hash = some r⟩

theorem mem_of_find? {c : Catalog} {h : Hash} {r : Record} (e : c.find? h = some r) : r ∈ c := by
  show c.find? r.hash = some r
  rwa [hash_of_find? e]

theorem eq_of_hash_eq {c : Catalog} {r s : Record} (hr : r ∈ c) (hs : s ∈ c)
    (e : r.hash = s.hash) : r = s := by
  have found : c.find? r.hash = some r := hr
  rw [e] at found
  exact Option.some.inj (found.symm.trans hs)

/-- Filing a record of a new hash adds it and nothing else. -/
theorem mem_file {c : Catalog} {r s : Record} (new : c.find? r.hash = none) :
    s ∈ c.file r ↔ s = r ∨ s ∈ c := by
  show (c.file r).find? s.hash = some s ↔ s = r ∨ c.find? s.hash = some s
  rw [find?_file]
  by_cases same : r.hash = s.hash
  · have absent : c.find? s.hash = none := same ▸ new
    simp [same, absent, eq_comm]
  · have apart : s ≠ r := by
      intro e
      exact same (by rw [e])
    simp [same, apart]

/-- Inserting a record of a new hash adds it and nothing else. -/
theorem mem_insert {c : Catalog} {r s : Record} (new : c.find? r.hash = none) :
    s ∈ c.insert r ↔ s = r ∨ s ∈ c := by
  have filed : c.insert r = c.file r := by simp [insert, new]
  rw [filed, mem_file new]

theorem mem_insert_of_none {c : Catalog} {r : Record} (new : c.find? r.hash = none) :
    r ∈ c.insert r := (mem_insert new).2 (.inl rfl)

/-- Whether all that one catalog finds is found in another. -/
def Within (c d : Catalog) : Prop := ∀ h r, c.find? h = some r → d.find? h = some r

theorem Within.refl (c : Catalog) : c.Within c := fun _ _ e => e

theorem Within.trans {b c d : Catalog} (hb : b.Within c) (hc : c.Within d) : b.Within d :=
  fun h r e => hc h r (hb h r e)

theorem Within.mem {c d : Catalog} (w : c.Within d) {r : Record} (m : r ∈ c) : r ∈ d :=
  w r.hash r m

theorem within_insert (c : Catalog) (r : Record) : c.Within (c.insert r) :=
  fun _ _ e => find?_insert_of_some e r

/-- Whether a record is the child of a filed one. -/
structure Links (c : Catalog) (p r : Record) : Prop where
  found : c.find? r.header.previous = some p
  extend : p.extend r.header = .ok r

namespace Links

variable {c : Catalog} {p r : Record}

theorem mem (l : c.Links p r) : p ∈ c := mem_of_find? l.found

theorem height (l : c.Links p r) : r.height.toNat = p.height.toNat + 1 :=
  Record.height_of_extend l.extend

theorem previous (l : c.Links p r) : r.header.previous = p.hash := (hash_of_find? l.found).symm

theorem mono {d : Catalog} (l : c.Links p r) (w : c.Within d) : d.Links p r :=
  ⟨w _ _ l.found, l.extend⟩

/-- A child is no first record. -/
theorem ne_of_genesis {g : Record} {h : Header} (l : c.Links p r)
    (first : Record.genesis h = .ok g) : r ≠ g := by
  obtain ⟨t, -, e⟩ := Record.genesis_eq_ok.1 first
  intro same
  have up := l.height
  rw [same, e] at up
  cases up

end Links

/-- Catalogs of a first record and, one at a time, children of filed records. -/
inductive Grown (g : Record) : Catalog → Prop where
  | first (start : Record.genesis g.header = .ok g) : Grown g (empty.file g)
  | child {c : Catalog} {p r : Record} (before : Grown g c) (new : c.find? r.hash = none)
      (link : c.Links p r) : Grown g (c.file r)

namespace Grown

variable {g : Record} {c : Catalog}

theorem genesis (grown : Grown g c) : Record.genesis g.header = .ok g := by
  induction grown with
  | first start => exact start
  | child _ _ _ ih => exact ih

theorem height_first (grown : Grown g c) : g.height = 0 := by
  obtain ⟨t, -, e⟩ := Record.genesis_eq_ok.1 grown.genesis
  rw [e]

theorem first_mem (grown : Grown g c) : g ∈ c := by
  induction grown with
  | first _ => exact (mem_file (find?_empty _)).2 (.inl rfl)
  | child _ new _ ih => exact (mem_file new).2 (.inr ih)

/-- Filing a child keeps what was filed. -/
theorem within_file {r : Record} (new : c.find? r.hash = none) : c.Within (c.file r) := by
  intro h s e
  have apart : r.hash ≠ h := by
    intro same
    rw [same, e] at new
    cases new
  simp [apart, e]

/-- Every record but the first has a parent. -/
theorem parent (grown : Grown g c) {r : Record} (m : r ∈ c) (later : r ≠ g) :
    ∃ p, c.Links p r := by
  induction grown with
  | first _ =>
    rcases (mem_file (find?_empty _)).1 m with e | none
    · exact absurd e later
    · cases (find?_empty r.hash).symm.trans none
  | child _ new link ih =>
    have keep := within_file new
    rcases (mem_file new).1 m with rfl | old
    · exact ⟨_, link.mono keep⟩
    · obtain ⟨p, l⟩ := ih old
      exact ⟨p, l.mono keep⟩

/-- The records filed are those that are found, each once. -/
theorem mem_records (grown : Grown g c) {r : Record} : r ∈ c.records ↔ r ∈ c := by
  induction grown with
  | first _ =>
    rw [mem_file (find?_empty _)]
    show r ∈ [g] ↔ r = g ∨ empty.find? r.hash = some r
    simp
  | child _ new _ ih =>
    rw [mem_file new, ← ih]
    exact List.mem_cons

theorem height_pos (grown : Grown g c) {r : Record} (m : r ∈ c) (later : r ≠ g) :
    0 < r.height.toNat := by
  obtain ⟨p, l⟩ := grown.parent m later
  rw [l.height]
  omega

theorem eq_first (grown : Grown g c) {r : Record} (m : r ∈ c) (low : r.height = 0) : r = g := by
  by_cases later : r = g
  · exact later
  · have pos := grown.height_pos m later
    rw [low] at pos
    exact absurd pos (Nat.lt_irrefl 0)

/-- Induction from the first record to the children of records. -/
theorem induct (grown : Grown g c) {motive : (r : Record) → r ∈ c → Prop}
    (first : motive g grown.first_mem)
    (child : ∀ (p r : Record) (mp : p ∈ c) (mr : r ∈ c), c.Links p r → motive p mp → motive r mr)
    (r : Record) (m : r ∈ c) : motive r m := by
  induction e : r.height.toNat generalizing r with
  | zero =>
    obtain rfl := grown.eq_first m (UInt32.toNat_inj.1 e)
    exact first
  | succ n ih =>
    have later : r ≠ g := by
      intro same
      rw [same, grown.height_first] at e
      cases e
    obtain ⟨p, l⟩ := grown.parent m later
    have lower : p.height.toNat = n := by
      have h := l.height
      omega
    exact child p r l.mem m l (ih p l.mem lower)

/-- A record that is not filed yet and whose parent is makes the catalog grow. -/
theorem insert {p r : Record} (grown : Grown g c) (l : c.Links p r) : Grown g (c.insert r) := by
  unfold Catalog.insert
  split
  · exact grown
  · rename_i new
    exact .child grown (by simpa using new) l

end Grown

end Catalog

end HeaviestChain
