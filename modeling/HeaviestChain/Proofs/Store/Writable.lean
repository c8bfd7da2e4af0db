import HeaviestChain.Proofs.Tree.Growth
import HeaviestChain.Store.Basic

/-!
Stores whose files can be written. No folder stands where a file is wanted, and no call on the store
puts one there, so that making a filed record the head succeeds.
-/

namespace HeaviestChain

namespace Directory

variable {d : Directory}

/-- A directory without folders. -/
def Plain (d : Directory) : Prop := ∀ name, d.find? name ≠ some .folder

theorem plain_empty (path : String) : (empty path).Plain := by
  intro name e
  rw [find?_empty] at e
  cases e

theorem Plain.set (plain : d.Plain) (name : String) (bytes : List UInt8) :
    (d.set name (.file bytes)).Plain := by
  intro other e
  rw [find?_set] at e
  split at e
  · cases e
  · exact plain other e

theorem Plain.erase (plain : d.Plain) (name : String) : (d.erase name).Plain := by
  intro other e
  rw [find?_erase] at e
  split at e
  · cases e
  · exact plain other e

/-- What stands under a name of a plain directory is a file or nothing. -/
theorem Plain.find? (plain : d.Plain) (name : String) :
    d.find? name = none ∨ ∃ bytes, d.find? name = some (.file bytes) := by
  cases e : d.find? name with
  | none => exact .inl rfl
  | some node =>
    cases node with
    | file bytes => exact .inr ⟨bytes, rfl⟩
    | folder => exact absurd e (plain name)

theorem Plain.write (plain : d.Plain) (name : String) (bytes : List UInt8) :
    d.write name bytes = .ok (d.set name (.file bytes)) := by
  unfold Directory.write
  rcases plain.find? name with e | ⟨old, e⟩ <;> rw [e]

theorem Plain.append (plain : d.Plain) (name : String) (bytes : List UInt8) :
    ∃ old, d.append name bytes = .ok (d.set name (.file (old ++ bytes))) := by
  unfold Directory.append
  rcases plain.find? name with e | ⟨old, e⟩ <;> rw [e]
  · exact ⟨[], rfl⟩
  · exact ⟨old, rfl⟩

theorem Plain.rename (plain : d.Plain) (old new : String) :
    ∃ e, d.rename old new = .ok e ∧ e.Plain := by
  unfold Directory.rename
  rcases plain.find? old with e | ⟨bytes, e⟩ <;> rw [e]
  · exact ⟨d, rfl, plain⟩
  · rcases plain.find? new with e' | ⟨bytes', e'⟩ <;> rw [e'] <;>
      exact ⟨_, rfl, (plain.erase old).set new bytes⟩

end Directory

namespace Disk

variable {d : Disk}

theorem plain_log (plain : d.directory.Plain) (r : Record) : (d.log r).directory.Plain := by
  unfold log
  split
  · obtain ⟨old, e⟩ := plain.append Log.name (Log.line r)
    rw [e]
    exact plain.set _ _
  · exact plain

/-- The head of a plain directory can be named. -/
theorem writeHead_of_plain (plain : d.directory.Plain) (h : Hash) :
    ∃ e, d.writeHead h = (.ok (), e) ∧ e.directory.Plain := by
  unfold writeHead
  obtain ⟨renamed, e, plain'⟩ := (plain.set nextHeadName (headLine h)).rename nextHeadName headName
  simp only [plain.write, e]
  exact ⟨_, rfl, plain'⟩

end Disk

namespace Store

variable {s : Store}

/-- Whether the files of a store, if it has any, can be written. -/
def Writable (s : Store) : Prop := ∀ d, s.disk = some d → d.directory.Plain

theorem head_mem (s : Store) : s.head ∈ s.catalog := s.find?_head

theorem writable_of_disk_eq_none (e : s.disk = none) : s.Writable := by
  intro d e'
  rw [e] at e'
  cases e'

theorem Writable.put (w : s.Writable) (r : Record) : (s.put r).Writable := by
  intro d e
  change (if (s.find? r.hash).isSome then s.disk else s.disk.map (·.log r)) = some d at e
  split at e
  · exact w d e
  · obtain ⟨d', e', rfl⟩ := Option.map_eq_some_iff.1 e
    exact Disk.plain_log (w d' e') r

/-- Making a filed record the head changes no record. Where the files cannot be written the head
stays. -/
theorem setHead_of_mem {r : Record} (m : r ∈ s.catalog) :
    ∃ next, next.catalog = s.catalog ∧
      (s.setHead r.hash = (.ok (), next) ∧ next.head = r ∧ (s.Writable → next.Writable) ∨
        ∃ e, s.setHead r.hash = (.error (.medium e), next) ∧ next.head = s.head ∧ ¬s.Writable) := by
  unfold setHead
  split
  · rename_i missing
    cases missing.symm.trans m
  · rename_i r' found
    obtain rfl : r' = r := Option.some.inj (found.symm.trans m)
    split
    · exact ⟨⟨s.catalog, r', m, none⟩, rfl,
        .inl ⟨rfl, rfl, fun _ => writable_of_disk_eq_none rfl⟩⟩
    · rename_i d disk
      split
      · rename_i e d' failed
        refine ⟨{ s with disk := some d' }, rfl, .inr ⟨e, rfl, rfl, ?_⟩⟩
        intro w
        obtain ⟨d'', ok, -⟩ := Disk.writeHead_of_plain (w d disk) r'.hash
        rw [ok] at failed
        cases failed
      · rename_i d' written
        refine ⟨⟨s.catalog, r', m, some d'⟩, rfl, .inl ⟨rfl, rfl, ?_⟩⟩
        intro w x e
        obtain ⟨d'', ok, plain⟩ := Disk.writeHead_of_plain (w d disk) r'.hash
        rw [ok] at written
        cases written
        cases e
        exact plain

end Store

end HeaviestChain
