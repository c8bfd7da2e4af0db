import HeaviestChain.Record.Json
import HeaviestChain.Store.Catalog
import HeaviestChain.Store.Directory
import HeaviestChain.Text.Blank

/-!
The log of a store: each record as one line of JSON, in the order they were filed. A log is read
line by line. Blank lines are passed over; every other line must be a record, but for a last one
without its line feed, which is left by a writer that stopped and may hold anything.
-/

namespace HeaviestChain.Log

/-- The file of the log. -/
def name : String := "headers.jsonl"

/-- The bytes of a record in the log. -/
def line (r : Record) : List UInt8 := Utf8.encode (r.render ++ ['\n'])

/-- A line of a text, and whether a line feed ends it. -/
structure Line where
  text : List Char
  ended : Bool
  deriving DecidableEq

/-- The lines of a text behind the characters of its first line so far, newest first. -/
def linesFrom (start : List Char) : List Char → List Line
  | [] => if start = [] then [] else [⟨start.reverse, false⟩]
  | c :: rest =>
    if c = '\n' then ⟨start.reverse, true⟩ :: linesFrom [] rest else linesFrom (c :: start) rest

/-- The lines of a text. -/
def lines (text : List Char) : List Line := linesFrom [] text

/-- Files the records of lines in turn, the first line having the given number. -/
def replayFrom (path : String) (c : Catalog) : Nat → List Line → Except StoreError Catalog
  | _, [] => .ok c
  | number, l :: rest =>
    if Text.allBlank l.text then replayFrom path c (number + 1) rest
    else
      match Record.parse? l.text with
      | some r => replayFrom path (c.file r) (number + 1) rest
      | none =>
        if l.ended then .error (.corrupt (.badLine path number))
        else replayFrom path c (number + 1) rest

/-- The catalog of a text. -/
def replay (path : String) (text : List Char) : Except StoreError Catalog :=
  replayFrom path .empty 1 (lines text)

/-- The catalog of the log in a directory, empty if there is no log. -/
def read (d : Directory) : Except StoreError Catalog :=
  match d.find? name with
  | none => .ok .empty
  | some node =>
    match node.text with
    | .error e => .error (.medium e)
    | .ok text => replay (d.path ++ "/" ++ name) text

end HeaviestChain.Log
