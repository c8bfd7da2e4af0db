import HeaviestChain.Proofs.Store.Fresh
import HeaviestChain.Proofs.Store.Kept

/-!
Single writes. What a store does to its directory is a course of writes: a record is one line behind
the log, a head is a file of its own that then takes the place of the old one. A process may stop
anywhere in such a course. What was being written then is there up to some byte, but a file has
either its old name or the new one.
-/

namespace HeaviestChain

/-- A write to a directory: bytes behind the end of a file, a file from its start, or a file given
another name. -/
inductive Write where
  | append (name : String) (bytes : List UInt8)
  | create (name : String) (bytes : List UInt8)
  | rename (old new : String)
  deriving DecidableEq

/-- Whether a write is a part of another one that a process stopped in. -/
inductive Write.Part : Write → Write → Prop where
  | append (name : String) (bytes : List UInt8) (n : Nat) :
      Part (.append name (bytes.take n)) (.append name bytes)
  | create (name : String) (bytes : List UInt8) (n : Nat) :
      Part (.create name (bytes.take n)) (.create name bytes)

namespace Directory

/-- The directory after a write. One that fails changes nothing. -/
def perform (d : Directory) : Write → Directory
  | .append name bytes => (d.append name bytes).toOption.getD d
  | .create name bytes => (d.write name bytes).toOption.getD d
  | .rename old new => (d.rename old new).toOption.getD d

/-- The directory after writes in turn. -/
def performAll (d : Directory) (ws : List Write) : Directory := ws.foldl perform d

/-- The directories that a process leaves if it stops in the course of writes. -/
inductive Stops : Directory → List Write → Directory → Prop where
  | before (d : Directory) (ws : List Write) : Stops d ws d
  | within {d : Directory} {w part : Write} (begun : part.Part w) (ws : List Write) :
      Stops d (w :: ws) (d.perform part)
  | behind {d e : Directory} {w : Write} {ws : List Write} (stops : Stops (d.perform w) ws e) :
      Stops d (w :: ws) e

variable {d e : Directory} {name : String} {bytes old : List UInt8} {ws vs : List Write}

@[simp]
theorem performAll_nil (d : Directory) : d.performAll [] = d := rfl

@[simp]
theorem performAll_cons (d : Directory) (w : Write) (ws : List Write) :
    d.performAll (w :: ws) = (d.perform w).performAll ws := rfl

/-- A course of two parts stops in the first or in the second. -/
theorem Stops.of_append (stops : d.Stops (ws ++ vs) e) :
    d.Stops ws e ∨ (d.performAll ws).Stops vs e := by
  induction ws generalizing d with
  | nil => exact .inr stops
  | cons w ws ih =>
    cases stops with
    | before => exact .inl (.before _ _)
    | within begun => exact .inl (.within begun ws)
    | behind stops =>
      rcases ih stops with first | second
      · exact .inl (.behind first)
      · exact .inr second

theorem Stops.nil (stops : d.Stops [] e) : e = d := by
  cases stops
  rfl

/-! ### Plain directories -/

theorem perform_append (found : d.find? name = some (.file old)) (bytes : List UInt8) :
    d.perform (.append name bytes) = d.set name (.file (old ++ bytes)) := by
  rw [perform, append, found]
  rfl

theorem perform_create (plain : d.Plain) (name : String) (bytes : List UInt8) :
    d.perform (.create name bytes) = d.set name (.file bytes) := by
  rw [perform, plain.write]
  rfl

theorem perform_rename (plain : d.Plain) (found : d.find? name = some (.file bytes))
    (other : String) :
    d.perform (.rename name other) = (d.erase name).set other (.file bytes) := by
  rcases rename_cases found other with ⟨x, failed⟩ | done
  · obtain ⟨e, done, -⟩ := plain.rename name other
    cases failed.symm.trans done
  · rw [perform, done]
    rfl

theorem Plain.perform (plain : d.Plain) (w : Write) : (d.perform w).Plain := by
  cases w with
  | append name bytes =>
    obtain ⟨old, done⟩ := plain.append name bytes
    rw [Directory.perform, done]
    exact plain.set name _
  | create name bytes =>
    rw [perform_create plain]
    exact plain.set name bytes
  | rename old new =>
    obtain ⟨e, done, plain'⟩ := plain.rename old new
    rw [Directory.perform, done]
    exact plain'

theorem Plain.stops (plain : d.Plain) (stops : d.Stops ws e) : e.Plain := by
  induction stops with
  | before => exact plain
  | within => exact plain.perform _
  | behind _ ih => exact ih (plain.perform _)

/-- A process that stops while it writes behind the end of a file leaves a start of the bytes. -/
theorem Stops.append_cases (found : d.find? name = some (.file old))
    (stops : d.Stops [.append name bytes] e) :
    ∃ n, e.find? name = some (.file (old ++ bytes.take n)) ∧
      ∀ other, other ≠ name → e.find? other = d.find? other := by
  have performed (n : Nat) : (d.perform (.append name (bytes.take n))).find? name =
        some (.file (old ++ bytes.take n)) ∧
      ∀ other, other ≠ name →
        (d.perform (.append name (bytes.take n))).find? other = d.find? other := by
    rw [perform_append found]
    refine ⟨by rw [find?_set, if_pos rfl], ?_⟩
    intro other apart
    rw [find?_set, if_neg (Ne.symm apart)]
  cases stops with
  | before => exact ⟨0, by rw [found, List.take_zero, List.append_nil], fun _ _ => rfl⟩
  | within begun =>
    cases begun with
    | append _ _ n => exact ⟨n, performed n⟩
  | behind stops =>
    obtain rfl := stops.nil
    have whole := performed bytes.length
    rw [List.take_length] at whole
    exact ⟨bytes.length, by rw [List.take_length, whole.1], whole.2⟩

end Directory

namespace Disk

variable {d : Disk} {e k : Directory} {h : Hash}

/-- The writes that name a head. -/
def headWrites (h : Hash) : List Write :=
  [.create nextHeadName (headLine h), .rename nextHeadName headName]

theorem performAll_headWrites (plain : k.Plain) (h : Hash) :
    k.performAll (headWrites h) =
      ((k.set nextHeadName (.file (headLine h))).erase nextHeadName).set headName
        (.file (headLine h)) := by
  have found : (k.set nextHeadName (.file (headLine h))).find? nextHeadName =
      some (.file (headLine h)) := by rw [Directory.find?_set, if_pos rfl]
  rw [headWrites, Directory.performAll_cons, Directory.performAll_cons, Directory.performAll_nil,
    Directory.perform_create plain, Directory.perform_rename (plain.set _ _) found]

/-- The head of a plain directory is named by these writes. -/
theorem writeHead_eq (plain : d.directory.Plain) (h : Hash) :
    d.writeHead h = (.ok (), ⟨d.directory.performAll (headWrites h), d.attached⟩) := by
  have found : (d.directory.set nextHeadName (.file (headLine h))).find? nextHeadName =
      some (.file (headLine h)) := by rw [Directory.find?_set, if_pos rfl]
  rw [performAll_headWrites plain, writeHead, plain.write]
  rcases Directory.rename_cases found headName with ⟨x, failed⟩ | done
  · obtain ⟨renamed, done, -⟩ := (plain.set nextHeadName (headLine h)).rename nextHeadName headName
    cases failed.symm.trans done
  · simp only [done]

/-- A process that stops while it names a head leaves the old head or the new one, and all files
beside them as they are. -/
theorem stops_headWrites (plain : k.Plain) (stops : k.Stops (headWrites h) e) :
    (e.find? headName = k.find? headName ∨ e.find? headName = some (.file (headLine h))) ∧
      ∀ name, name ≠ headName → name ≠ nextHeadName → e.find? name = k.find? name := by
  have created (bytes : List UInt8) (name : String) (apart : name ≠ nextHeadName) :
      (k.perform (.create nextHeadName bytes)).find? name = k.find? name := by
    rw [Directory.perform_create plain, Directory.find?_set, if_neg (Ne.symm apart)]
  have unlike : headName ≠ nextHeadName := by decide
  cases stops with
  | before => exact ⟨.inl rfl, fun _ _ _ => rfl⟩
  | within begun =>
    cases begun with
    | create _ _ n => exact ⟨.inl (created _ _ unlike), fun name _ apart => created _ name apart⟩
  | behind stops =>
    cases stops with
    | before => exact ⟨.inl (created _ _ unlike), fun name _ apart => created _ name apart⟩
    | within begun => nomatch begun
    | behind stops =>
      obtain rfl : e = k.performAll (headWrites h) := stops.nil
      rw [performAll_headWrites plain]
      refine ⟨.inr (by rw [Directory.find?_set, if_pos rfl]), ?_⟩
      intro name other apart
      rw [Directory.find?_set, if_neg (Ne.symm other), Directory.find?_erase,
        if_neg (Ne.symm apart), Directory.find?_set, if_neg (Ne.symm apart)]

end Disk

namespace Store

/-- The writes of a change. -/
def writes (s : Store) : Change → List Write
  | .put r => if (s.find? r.hash).isSome then [] else [.append Log.name (Log.line r)]
  | .setHead h => if (s.find? h).isSome then Disk.headWrites h else []

/-- The writes that begin a store in an empty directory. -/
def opening (g : Record) : List Write :=
  .append Log.name [] :: .append Log.name (Log.line g) :: Disk.headWrites g.hash

variable {s : Store} {g : Record} {d : Directory} {genesis : Header}

theorem Writable.setHead (w : s.Writable) (h : Hash) : (s.setHead h).2.Writable := by
  cases found : s.find? h with
  | none =>
    unfold Store.setHead
    split
    · exact w
    · rename_i r found'
      cases found.symm.trans found'
  | some r =>
    have own : r.hash = h := Catalog.hash_of_find? found
    have m : r ∈ s.catalog := Catalog.mem_of_find? found
    obtain ⟨next, -, ⟨e, -, still⟩ | ⟨x, -, -, faulty⟩⟩ := setHead_of_mem m
    · rw [← own, e]
      exact still w
    · exact absurd w faulty

theorem Writable.changed (w : s.Writable) (changes : List Change) :
    (s.changed changes).Writable := by
  induction changes generalizing s with
  | nil => exact w
  | cons c changes ih =>
    cases c with
    | put r => exact ih (w.put r)
    | setHead h => exact ih (w.setHead h)

/-- A change of a store is its writes. -/
theorem disk_change (w : s.Writable) (disk : s.disk = some ⟨d, true⟩) (c : Change) :
    (s.change c).disk = some ⟨d.performAll (s.writes c), true⟩ := by
  have plain : d.Plain := w _ disk
  cases c with
  | put r =>
    have logged : (s.put r).disk =
        if (s.find? r.hash).isSome then s.disk else s.disk.map (·.log r) := rfl
    show (s.put r).disk = _
    by_cases known : (s.find? r.hash).isSome
    · rw [logged, if_pos known, disk, writes, if_pos known, Directory.performAll_nil]
    · obtain ⟨old, done⟩ := plain.append Log.name (Log.line r)
      have line : Disk.log ⟨d, true⟩ r = ⟨d.set Log.name (.file (old ++ Log.line r)), true⟩ := by
        rw [Disk.log, if_pos rfl, done]
      rw [logged, if_neg known, disk, Option.map_some, line, writes, if_neg known,
        Directory.performAll_cons, Directory.perform, done]
      rfl
  | setHead h =>
    show (s.setHead h).2.disk = _
    unfold Store.setHead
    split
    · rename_i missing
      have missing : s.find? h = none := missing
      rw [writes, missing]
      exact disk
    · rename_i r found
      have found : s.find? h = some r := found
      have writes : s.writes (.setHead h) = Disk.headWrites h := by
        rw [Store.writes, found]
        rfl
      split
      · rename_i none
        cases none.symm.trans disk
      · rename_i k same
        obtain rfl := Option.some.inj (same.symm.trans disk)
        rw [Disk.writeHead_eq (d := ⟨d, true⟩) plain, writes]

/-- A store that opens in an empty directory does the writes that begin one. -/
theorem onDisk_empty_writes (first : Record.genesis genesis = .ok g) (path : String) :
    ∃ s, onDisk genesis (.empty path) = (.ok s, (Directory.empty path).performAll (opening g)) ∧
      s.disk = some ⟨(Directory.empty path).performAll (opening g), true⟩ := by
  have unread : Log.read (.empty path) = .ok .empty := by
    rw [Log.read, Directory.find?_empty]
  have made : (Directory.empty path).append Log.name [] =
      .ok ((Directory.empty path).set Log.name (.file [])) := by
    rw [Directory.append, Directory.find?_empty]
  have headless : ((Directory.empty path).set Log.name (.file [])).find? Disk.headName = none := by
    rw [Directory.find?_set, if_neg (by decide), Directory.find?_empty]
  have log : ((Directory.empty path).set Log.name (.file [])).find? Log.name =
      some (.file []) := by rw [Directory.find?_set, if_pos rfl]
  have absent : (Catalog.empty.find? g.hash).isSome = false := by simp
  have all : (Directory.empty path).performAll (opening g) =
      (((Directory.empty path).set Log.name (.file [])).set Log.name
        (.file ([] ++ Log.line g))).performAll (Disk.headWrites g.hash) := by
    have first : (Directory.empty path).perform (.append Log.name []) =
        (Directory.empty path).set Log.name (.file []) := by
      rw [Directory.perform, made]
      rfl
    rw [opening, Directory.performAll_cons, Directory.performAll_cons, first,
      Directory.perform_append log]
  rw [all]
  simp only [onDisk, unread, made, first, headless, begin, absent, Bool.false_eq_true, if_false]
  exact ⟨_, rfl, rfl⟩

end Store

end HeaviestChain
