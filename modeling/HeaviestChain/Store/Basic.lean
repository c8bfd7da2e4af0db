import HeaviestChain.Store.Disk

/-!
Stores: a catalog of records, one of which is the head. Records are only ever added, and the first
of a hash stays. A store may keep its records in a directory, from which it can be opened again.
-/

namespace HeaviestChain

/-- Records and the head among them, and the files that hold them, if any. -/
structure Store where
  catalog : Catalog
  head : Record
  find?_head : catalog.find? head.hash = some head
  disk : Option Disk

namespace Store

/-- The record with a hash. -/
def find? (s : Store) (h : Hash) : Option Record := s.catalog.find? h

/-- The count of records. -/
def size (s : Store) : Nat := s.catalog.size

/-- A store of a first record alone, which is its head. -/
def ofGenesis (g : Record) (disk : Option Disk) : Store :=
  ⟨Catalog.empty.file g, g, by simp, disk⟩

/-- A store without files that begins with a header. -/
def inMemory (genesis : Header) : Except StoreError Store :=
  match Record.genesis genesis with
  | .error e => .error (.corrupt (.genesis e))
  | .ok g => .ok (ofGenesis g none)

/-- Adds a record unless one with its hash is there. -/
def put (s : Store) (r : Record) : Store where
  catalog := s.catalog.insert r
  head := s.head
  find?_head := Catalog.find?_insert_of_some s.find?_head r
  disk := if (s.find? r.hash).isSome then s.disk else s.disk.map (·.log r)

/-- Makes the record with a hash the head. -/
def setHead (s : Store) (h : Hash) : Except StoreError Unit × Store :=
  match found : s.catalog.find? h with
  | none => (.error (.unknownHead h), s)
  | some r =>
    have filed : s.catalog.find? r.hash = some r := by rwa [Catalog.hash_of_find? found]
    match s.disk with
    | none => (.ok (), ⟨s.catalog, r, filed, none⟩)
    | some d =>
      match d.writeHead h with
      | (.error e, d) => (.error (.medium e), { s with disk := some d })
      | (.ok (), d) => (.ok (), ⟨s.catalog, r, filed, some d⟩)

/-- Lets someone else change the files. -/
def edit (s : Store) (f : Directory → Directory) : Store :=
  { s with disk := s.disk.map (·.edit f) }

end Store

end HeaviestChain
