import HeaviestChain.Proofs.Store.Writable
import HeaviestChain.Store.Opening

/-!
Fresh stores: without files, or opened in an empty directory. Both hold the first record of their
network, which is their head, and nothing else.
-/

namespace HeaviestChain.Store

/-- The stores made anew for a network that begins with a header. -/
inductive Fresh (genesis : Header) : Store → Prop where
  | inMemory {s : Store} (made : inMemory genesis = .ok s) : Fresh genesis s
  | onDisk {path : String} {s : Store} {d : Directory}
      (opened : onDisk genesis (.empty path) = (.ok s, d)) : Fresh genesis s

/-- A store over an empty log begins with the first record. -/
theorem begin_empty {g : Record} {d d' : Directory} {s : Store} (plain : d.Plain)
    (e : begin .empty g d = (.ok s, d')) :
    s.head = g ∧ s.catalog = Catalog.empty.file g ∧ s.Writable := by
  have absent : (Catalog.empty.find? g.hash).isSome = false := by simp
  have filed : Catalog.empty.insert g = Catalog.empty.file g := by
    rw [Catalog.insert, if_neg (by simp)]
  obtain ⟨left, written, plain'⟩ :=
    Disk.writeHead_of_plain (Disk.plain_log (d := ⟨d, true⟩) plain g) g.hash
  simp only [begin, absent, Bool.false_eq_true, if_false, written, Prod.mk.injEq,
    Except.ok.injEq] at e
  obtain ⟨rfl, -⟩ := e
  refine ⟨?_, filed, ?_⟩
  · simp [filed]
  · intro disk e
    cases e
    exact plain'

/-- An empty directory is given an empty log, and a store begins in it. -/
theorem onDisk_empty {genesis : Header} {g : Record} (first : Record.genesis genesis = .ok g)
    (path : String) :
    ∃ d : Directory, d.Plain ∧ onDisk genesis (.empty path) = begin .empty g d := by
  have plain := Directory.plain_empty path
  have unread : Log.read (.empty path) = .ok .empty := by
    rw [Log.read, Directory.find?_empty]
  obtain ⟨old, made⟩ := plain.append Log.name []
  have headless : ((Directory.empty path).set Log.name (.file (old ++ []))).find?
      Disk.headName = none := by
    rw [Directory.find?_set, if_neg (by decide), Directory.find?_empty]
  refine ⟨_, plain.set Log.name (old ++ []), ?_⟩
  simp only [onDisk, unread, made, first, headless]

/-- In an empty directory a store opens. -/
theorem exists_onDisk_empty {genesis : Header} {g : Record}
    (first : Record.genesis genesis = .ok g) (path : String) :
    ∃ s d, onDisk genesis (.empty path) = (.ok s, d) := by
  obtain ⟨d, plain, e⟩ := onDisk_empty first path
  have absent : (Catalog.empty.find? g.hash).isSome = false := by simp
  obtain ⟨left, written, -⟩ :=
    Disk.writeHead_of_plain (Disk.plain_log (d := ⟨d, true⟩) plain g) g.hash
  rw [e]
  simp only [begin, absent, Bool.false_eq_true, if_false, written]
  exact ⟨_, _, rfl⟩

theorem exists_genesis_of_onDisk {genesis : Header} {s : Store} {d d' : Directory}
    (opened : onDisk genesis d = (.ok s, d')) : ∃ g, Record.genesis genesis = .ok g := by
  cases first : Record.genesis genesis with
  | ok g => exact ⟨g, rfl⟩
  | error e =>
    unfold onDisk at opened
    split at opened
    · cases opened
    · split at opened
      · cases opened
      · rw [first] at opened
        cases opened

/-- A fresh store holds the first record alone. -/
theorem Fresh.records {genesis : Header} {s : Store} (fresh : Fresh genesis s) :
    Record.genesis genesis = .ok s.head ∧ s.catalog = Catalog.empty.file s.head ∧ s.Writable := by
  cases fresh with
  | inMemory made =>
    unfold Store.inMemory at made
    cases first : Record.genesis genesis with
    | error e => simp [first] at made
    | ok g =>
      simp only [first, Except.ok.injEq] at made
      subst made
      exact ⟨rfl, rfl, writable_of_disk_eq_none rfl⟩
  | @onDisk path _ d opened =>
    obtain ⟨g, first⟩ := exists_genesis_of_onDisk opened
    obtain ⟨d, plain, e⟩ := onDisk_empty first path
    rw [e] at opened
    obtain ⟨head, catalog, w⟩ := begin_empty plain opened
    exact ⟨by rw [head, first], by rw [head, catalog], w⟩

theorem Fresh.grown {genesis : Header} {s : Store} (fresh : Fresh genesis s) :
    s.catalog.Grown s.head := by
  obtain ⟨first, catalog, -⟩ := fresh.records
  obtain ⟨t, -, e⟩ := Record.genesis_eq_ok.1 first
  have own : s.head.header = genesis := by rw [e]
  rw [catalog]
  exact .first (by rw [own, first])

end HeaviestChain.Store
