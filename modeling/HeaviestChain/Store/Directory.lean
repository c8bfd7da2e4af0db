import HeaviestChain.Bytes.Utf8
import HeaviestChain.Store.Error

/-!
A directory of files. A file holds bytes; a folder may stand where a file is wanted and is then left
alone.
-/

namespace HeaviestChain

/-- What stands under a name. -/
inductive Node where
  | file (bytes : List UInt8)
  | folder
  deriving DecidableEq

namespace Node

/-- The characters of a file. -/
def text : Node → Except MediumError (List Char)
  | file bytes =>
    match Utf8.decode? bytes with
    | some text => .ok text
    | none => .error .notText
  | folder => .error .isFolder

end Node

/-- A directory: its path, which messages show, and what it holds. -/
structure Directory where
  path : String
  nodes : List (String × Node)
  deriving DecidableEq

namespace Directory

/-- The empty directory at a path. -/
def empty (path : String) : Directory := ⟨path, []⟩

/-- What stands under a name. -/
def find? (d : Directory) (name : String) : Option Node :=
  (d.nodes.find? fun n => n.1 = name).map (·.2)

/-- Takes away what stands under a name. -/
def erase (d : Directory) (name : String) : Directory :=
  { d with nodes := d.nodes.filter fun n => n.1 ≠ name }

/-- Puts a node under a name, in the place of what stands there. -/
def set (d : Directory) (name : String) (node : Node) : Directory :=
  { d with nodes := (name, node) :: (d.erase name).nodes }

@[simp]
theorem find?_empty (path name : String) : (empty path).find? name = none := rfl

@[simp]
theorem find?_erase (d : Directory) (name other : String) :
    (d.erase name).find? other = if name = other then none else d.find? other := by
  by_cases e : name = other
  · simp [erase, find?, List.find?_filter, e]
  · have keep : (fun n : String × Node => !decide (n.1 = name) && decide (n.1 = other)) =
        fun n => decide (n.1 = other) := by
      funext n
      by_cases h : n.1 = other <;> simp [h, Ne.symm e]
    simp [erase, find?, e, List.find?_filter, keep]

@[simp]
theorem find?_set (d : Directory) (name other : String) (node : Node) :
    (d.set name node).find? other = if name = other then some node else d.find? other := by
  by_cases e : name = other
  · simp [set, find?, e]
  · have rest := find?_erase d name other
    simp only [find?, e, if_false] at rest
    simp [set, find?, e, rest]

/-- Writes a file from its start. -/
def write (d : Directory) (name : String) (bytes : List UInt8) : Except MediumError Directory :=
  match d.find? name with
  | some .folder => .error .isFolder
  | _ => .ok (d.set name (.file bytes))

/-- Writes behind the end of a file, an empty one if there is none. -/
def append (d : Directory) (name : String) (bytes : List UInt8) : Except MediumError Directory :=
  match d.find? name with
  | some .folder => .error .isFolder
  | some (.file old) => .ok (d.set name (.file (old ++ bytes)))
  | none => .ok (d.set name (.file bytes))

/-- Gives a file another name, in the place of a file that has it. A file that is not there gives
nothing away. -/
def rename (d : Directory) (old new : String) : Except MediumError Directory :=
  match d.find? old, d.find? new with
  | none, _ => .ok d
  | some _, some .folder => .error .isFolder
  | some node, _ => .ok ((d.erase old).set new node)

end Directory

end HeaviestChain
