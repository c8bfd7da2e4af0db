import HeaviestChain.Proofs.Hash.Text
import HeaviestChain.Proofs.Store.Log
import HeaviestChain.Store.Disk

/-!
The files of a store. A log that is read has a text, behind which it is written on. A record that is
logged stands behind what the log held, and a head that is named is read back; neither touches the
file of the other.
-/

namespace HeaviestChain

namespace Text

variable {text : List Char}

theorem dropWhile_isBlank (shown : ∀ c ∈ text, isBlank c = false) :
    text.dropWhile isBlank = text := by
  cases text with
  | nil => rfl
  | cons c text =>
    have first : ¬isBlank c = true := by simp [shown c (List.mem_cons_self ..)]
    exact List.dropWhile_cons_of_neg first

/-- The line feed behind a text without blanks is dropped. -/
theorem trim_append_feed (shown : ∀ c ∈ text, isBlank c = false) : trim (text ++ ['\n']) = text := by
  have back : text.reverse.dropWhile isBlank = text.reverse :=
    dropWhile_isBlank fun c m => shown c (List.mem_reverse.1 m)
  have feed : isBlank '\n' = true := by decide
  cases text with
  | nil => simp [trim, feed]
  | cons c text =>
    have first : isBlank c = false := shown c (List.mem_cons_self ..)
    have front : (c :: text ++ ['\n']).dropWhile isBlank = c :: text ++ ['\n'] :=
      List.dropWhile_cons_of_neg (by simp [first])
    rw [trim, front, List.reverse_append, List.reverse_singleton, List.singleton_append,
      List.dropWhile_cons_of_pos feed, back, List.reverse_reverse]

end Text

theorem Node.eq_of_text {node : Node} {text : List Char} (e : node.text = .ok text) :
    node = .file (Utf8.encode text) := by
  cases node with
  | folder => cases e
  | file bytes =>
    cases read : Utf8.decode? bytes with
    | none =>
      simp only [Node.text, read] at e
      cases e
    | some held =>
      simp only [Node.text, read] at e
      cases e
      rw [Utf8.encode_of_decode? read]

namespace Directory

variable {d : Directory} {name : String} {h : Hash}

theorem append_of_file {old : List UInt8} (e : d.find? name = some (.file old))
    (bytes : List UInt8) : d.append name bytes = .ok (d.set name (.file (old ++ bytes))) := by
  rw [append, e]

theorem write_cases (d : Directory) (name : String) (bytes : List UInt8) :
    (∃ x, d.write name bytes = .error x) ∨ d.write name bytes = .ok (d.set name (.file bytes)) := by
  unfold write
  split
  · exact .inl ⟨_, rfl⟩
  · exact .inr rfl

theorem rename_cases {node : Node} {old : String} (e : d.find? old = some node) (new : String) :
    (∃ x, d.rename old new = .error x) ∨
      d.rename old new = .ok ((d.erase old).set new node) := by
  unfold rename
  rw [e]
  cases d.find? new with
  | none => exact .inr rfl
  | some other =>
    cases other with
    | file _ => exact .inr rfl
    | folder => exact .inl ⟨_, rfl⟩

/-- Whether the file of the head names a hash. -/
def Names (d : Directory) (h : Hash) : Prop :=
  ∃ text, d.find? Disk.headName = some (.file (Utf8.encode text)) ∧ Disk.parseHead text = .ok h

theorem Names.congr {e : Directory} (names : d.Names h)
    (same : e.find? Disk.headName = d.find? Disk.headName) : e.Names h := by
  obtain ⟨text, found, parsed⟩ := names
  exact ⟨text, same.trans found, parsed⟩

theorem names_of_headLine (e : d.find? Disk.headName = some (.file (Disk.headLine h))) :
    d.Names h := by
  refine ⟨h.digits ++ ['\n'], e, ?_⟩
  rw [Disk.parseHead, Text.trim_append_feed fun _ m => Hash.not_isBlank_of_mem_digits m]
  exact h.parseBytes_encode_digits

end Directory

namespace Disk

variable {d e : Disk} {h : Hash}

/-- Whether a disk has the log of another one. -/
structure SameLog (e d : Disk) : Prop where
  attached : e.attached = d.attached
  path : e.directory.path = d.directory.path
  find? : e.directory.find? Log.name = d.directory.find? Log.name

/-- Naming a head leaves the log alone. Where it fails the old head is named. -/
theorem writeHead_cases (d : Disk) (h : Hash) :
    (∃ x e, d.writeHead h = (.error x, e) ∧ e.SameLog d ∧
        e.directory.find? headName = d.directory.find? headName) ∨
      ∃ e, d.writeHead h = (.ok (), e) ∧ e.SameLog d ∧
        e.directory.find? headName = some (.file (headLine h)) := by
  have next : (d.directory.set nextHeadName (.file (headLine h))).find? nextHeadName =
      some (.file (headLine h)) := by simp
  unfold writeHead
  rcases d.directory.write_cases nextHeadName (headLine h) with ⟨x, failed⟩ | written
  · rw [failed]
    exact .inl ⟨x, d, rfl, ⟨rfl, rfl, rfl⟩, rfl⟩
  · rcases Directory.rename_cases next headName with ⟨x, failed⟩ | renamed
    · simp only [written, failed]
      refine .inl ⟨x, _, rfl, ⟨rfl, rfl, ?_⟩, ?_⟩
      · simp [Log.name, nextHeadName]
      · simp [headName, nextHeadName]
    · simp only [written, renamed]
      refine .inr ⟨_, rfl, ⟨rfl, rfl, ?_⟩, ?_⟩
      · simp [Log.name, nextHeadName, headName]
      · simp

theorem log_of_file {old : List UInt8} (attached : d.attached = true)
    (e : d.directory.find? Log.name = some (.file old)) (r : Record) :
    d.log r = ⟨d.directory.set Log.name (.file (old ++ Log.line r)), true⟩ := by
  rw [log, if_pos attached, Directory.append_of_file e, ← attached]

end Disk

namespace Log

variable {d d' : Directory} {c : Catalog}

/-- The file of a log as messages name it. -/
def pathIn (d : Directory) : String := d.path ++ "/" ++ name

/-- The text of the log in a directory, empty if there is none. -/
def textIn (d : Directory) : List Char :=
  match d.find? name with
  | some (.file bytes) => (Utf8.decode? bytes).getD []
  | _ => []

theorem textIn_of_file {text : List Char} (e : d.find? name = some (.file (Utf8.encode text))) :
    textIn d = text := by
  rw [textIn, e]
  simp only [Utf8.decode?_encode, Option.getD_some]

theorem read_of_file {text : List Char} (e : d.find? name = some (.file (Utf8.encode text))) :
    read d = replay (pathIn d) text := by
  rw [read, e]
  simp only [Node.text, Utf8.decode?_encode]
  rfl

/-- A log of records alone is read as they were filed. -/
theorem read_of_entries {records : List Record}
    (e : d.find? name = some (.file (Utf8.encode (entries records)))) :
    read d = .ok (records.foldl Catalog.file .empty) := by
  rw [read_of_file e, replay_entries]

/-- A log that is read is not there or holds a text. -/
theorem read_cases (e : read d = .ok c) :
    d.find? name = none ∧ c = .empty ∨
      ∃ text, d.find? name = some (.file (Utf8.encode text)) ∧ replay (pathIn d) text = .ok c := by
  unfold read at e
  split at e
  · rename_i none
    exact .inl ⟨none, (Except.ok.inj e).symm⟩
  · rename_i node found
    split at e
    · cases e
    · rename_i text held
      exact .inr ⟨text, by rw [found, Node.eq_of_text held], e⟩

theorem replay_of_read (e : read d = .ok c) : replay (pathIn d) (textIn d) = .ok c := by
  rcases read_cases e with ⟨none, rfl⟩ | ⟨text, found, read⟩
  · rw [textIn, none]
    rfl
  · rw [textIn_of_file found, read]

/-- A log that is read can be opened for writing. -/
theorem exists_append_of_read (e : read d = .ok c) : ∃ d', d.append name [] = .ok d' := by
  unfold Directory.append
  rcases read_cases e with ⟨none, -⟩ | ⟨text, found, -⟩
  · rw [none]
    exact ⟨_, rfl⟩
  · rw [found]
    exact ⟨_, rfl⟩

/-- The log that is opened for writing holds the text that was read. -/
theorem append_of_read (e : read d = .ok c) (opened : d.append name [] = .ok d') :
    d'.path = d.path ∧ d'.find? name = some (.file (Utf8.encode (textIn d))) ∧
      ∀ other, other ≠ name → d'.find? other = d.find? other := by
  have made : d' = d.set name (.file (Utf8.encode (textIn d))) := by
    rcases read_cases e with ⟨none, -⟩ | ⟨text, found, -⟩
    · rw [Directory.append, none] at opened
      rw [textIn, none]
      exact (Except.ok.inj opened).symm
    · rw [Directory.append_of_file found, List.append_nil] at opened
      rw [textIn_of_file found]
      exact (Except.ok.inj opened).symm
  rw [made]
  refine ⟨rfl, by rw [Directory.find?_set, if_pos rfl], ?_⟩
  intro other apart
  rw [Directory.find?_set, if_neg (Ne.symm apart)]

end Log

end HeaviestChain
