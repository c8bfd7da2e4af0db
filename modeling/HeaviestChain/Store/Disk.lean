import HeaviestChain.Hash.Text
import HeaviestChain.Store.Log

/-!
The files of an open store: the log, kept open for writing, and the head, a line that names a hash.
The head is written under a name of its own first and then takes the place of the old one, so that
it is never seen half written.
-/

namespace HeaviestChain

/-- The directory of an open store. A log that was taken away is still written to, but nobody sees
it any more; `attached` says that this has not happened. -/
structure Disk where
  directory : Directory
  attached : Bool

namespace Disk

/-- The file of the head. -/
def headName : String := "head"

/-- The file of the next head. -/
def nextHeadName : String := "head.tmp"

/-- The bytes of the head's file. -/
def headLine (h : Hash) : List UInt8 := Utf8.encode (h.digits ++ ['\n'])

/-- Reads the hash of a head's file; blanks around it are dropped. -/
def parseHead (text : List Char) : Except HexError Hash :=
  Hash.parseBytes (Utf8.encode (Text.trim text))

/-- Adds a record to the log. -/
def log (d : Disk) (r : Record) : Disk :=
  if d.attached then
    match d.directory.append Log.name (Log.line r) with
    | .ok directory => { d with directory }
    | .error _ => d
  else d

/-- Names a new head. -/
def writeHead (d : Disk) (h : Hash) : Except MediumError Unit × Disk :=
  match d.directory.write nextHeadName (headLine h) with
  | .error e => (.error e, d)
  | .ok written =>
    match written.rename nextHeadName headName with
    | .error e => (.error e, { d with directory := written })
    | .ok renamed => (.ok (), { d with directory := renamed })

/-- Lets someone else change the directory. -/
def edit (d : Disk) (f : Directory → Directory) : Disk :=
  let directory := f d.directory
  ⟨directory, d.attached && (directory.find? Log.name).isSome⟩

end Disk

end HeaviestChain
