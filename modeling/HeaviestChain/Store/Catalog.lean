import HeaviestChain.Record.Basic
import Std.Data.HashMap

/-!
Catalogs: records found by hash. A catalog lists its records in the order they were filed, the
latest first, and of two with one hash it finds the later. Filing replaces what is found, inserting
never does.
-/

namespace HeaviestChain

/-- Records, latest first, with an index that finds the latest of a hash. -/
structure Catalog where
  records : List Record
  index : Std.HashMap Hash Record
  getElem?_index : ∀ h : Hash, index[h]? = records.find? fun r => r.hash = h

namespace Catalog

/-- The catalog without records. -/
def empty : Catalog := ⟨[], ∅, fun _ => Std.HashMap.getElem?_empty⟩

/-- The latest record with a hash. -/
def find? (c : Catalog) (h : Hash) : Option Record := c.index[h]?

/-- The count of records. -/
def size (c : Catalog) : Nat := c.records.length

/-- Puts a record in front of all others. -/
def file (c : Catalog) (r : Record) : Catalog where
  records := r :: c.records
  index := c.index.insert r.hash r
  getElem?_index h := by
    rw [Std.HashMap.getElem?_insert, c.getElem?_index]
    by_cases e : r.hash = h <;> simp [e]

/-- Files a record unless one with its hash is there. -/
def insert (c : Catalog) (r : Record) : Catalog :=
  if (c.find? r.hash).isSome then c else c.file r

/-- The catalog of records filed in turn. -/
def ofList (records : List Record) : Catalog := records.foldl file empty

theorem find?_eq (c : Catalog) (h : Hash) : c.find? h = c.records.find? fun r => r.hash = h :=
  c.getElem?_index h

@[simp]
theorem find?_empty (h : Hash) : empty.find? h = none := by simp [find?_eq, empty]

theorem hash_of_find? {c : Catalog} {h : Hash} {r : Record} (e : c.find? h = some r) :
    r.hash = h := by
  rw [find?_eq] at e
  simpa using List.find?_some e

@[simp]
theorem find?_file (c : Catalog) (r : Record) (h : Hash) :
    (c.file r).find? h = if r.hash = h then some r else c.find? h := by
  rw [find?_eq, find?_eq]
  by_cases e : r.hash = h <;> simp [file, e]

theorem find?_insert (c : Catalog) (r : Record) (h : Hash) :
    (c.insert r).find? h = (c.find? h).or (if r.hash = h then some r else none) := by
  unfold insert
  by_cases e : r.hash = h
  · subst e
    cases found : c.find? r.hash <;> simp [found]
  · cases found : c.find? r.hash <;> simp [e]

/-- What is found stays found. -/
theorem find?_insert_of_some {c : Catalog} {h : Hash} {s : Record} (e : c.find? h = some s)
    (r : Record) : (c.insert r).find? h = some s := by
  simp [find?_insert, e]

/-- After an insertion some record with the hash is found. -/
theorem isSome_find?_insert (c : Catalog) (r : Record) :
    ((c.insert r).find? r.hash).isSome := by
  rw [find?_insert]
  cases c.find? r.hash <;> simp

theorem records_insert_of_none {c : Catalog} {r : Record} (e : c.find? r.hash = none) :
    (c.insert r).records = r :: c.records := by
  simp [insert, e, file]

theorem insert_of_some {c : Catalog} {r s : Record} (e : c.find? r.hash = some s) :
    c.insert r = c := by
  simp [insert, e]

end Catalog

end HeaviestChain
