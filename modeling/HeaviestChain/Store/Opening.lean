import HeaviestChain.Store.Basic

/-!
Opening a store from a directory. The log is read first and made if it is not there. A directory
without a head is fresh: its head becomes the first header, which is added if the log lacks it.
Any other directory must hold the first header and the head that it names.
-/

namespace HeaviestChain.Store

/-- The store over a fresh directory with the log's records. -/
def begin (c : Catalog) (g : Record) (d : Directory) : Except StoreError Store × Directory :=
  let filed := c.insert g
  let first := (filed.find? g.hash).get (c.isSome_find?_insert g)
  have found : filed.find? g.hash = some first := Option.some_get _ |>.symm
  have found' : filed.find? first.hash = some first := by rwa [Catalog.hash_of_find? found]
  let disk : Disk := ⟨d, true⟩
  let logged := if (c.find? g.hash).isSome then disk else disk.log g
  match logged.writeHead g.hash with
  | (.error e, left) => (.error (.medium e), left.directory)
  | (.ok (), left) => (.ok ⟨filed, first, found', some left⟩, left.directory)

/-- The store over a directory with the log's records and the node of its head. -/
def resume (c : Catalog) (g : Record) (d : Directory) (head : Node) : Except StoreError Store :=
  if (c.find? g.hash).isNone then .error (.corrupt (.foreignGenesis d.path g.hash))
  else
    match head.text with
    | .error e => .error (.medium e)
    | .ok text =>
      match Disk.parseHead text with
      | .error e => .error (.corrupt (.headRecord e))
      | .ok h =>
        match found : c.find? h with
        | none => .error (.unknownHead h)
        | some r =>
          .ok ⟨c, r, by rwa [Catalog.hash_of_find? found], some ⟨d, true⟩⟩

/-- The store over a directory that begins with a header, and what the directory holds then,
whether or not it opens. -/
def onDisk (genesis : Header) (d : Directory) : Except StoreError Store × Directory :=
  match Log.read d with
  | .error e => (.error e, d)
  | .ok c =>
    match d.append Log.name [] with
    | .error e => (.error (.medium e), d)
    | .ok d =>
      match Record.genesis genesis with
      | .error e => (.error (.corrupt (.genesis e)), d)
      | .ok g =>
        match d.find? Disk.headName with
        | none => begin c g d
        | some head => (resume c g d head, d)

end HeaviestChain.Store
