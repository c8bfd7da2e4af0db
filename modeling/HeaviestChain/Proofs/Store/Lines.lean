import HeaviestChain.Proofs.Store.Log

/-!
Which logs are read. A text is read if every line that ends is blank or a record; what stands behind
its last line feed may be anything. Of the records of one hash the last is found, and of the lines
that are neither blank nor a record the first is named.
-/

namespace HeaviestChain

namespace Catalog

variable {c : Catalog} {h : Hash} {r : Record}

theorem records_foldl_file (records : List Record) (c : Catalog) :
    (records.foldl file c).records = records.reverse ++ c.records := by
  induction records generalizing c with
  | nil => rfl
  | cons r records ih => simp [ih, file]

theorem find?_foldl_file (records : List Record) :
    (records.foldl file empty).find? h = some r ↔
      ∃ earlier later, records = earlier ++ r :: later ∧ r.hash = h ∧ ∀ s ∈ later, s.hash ≠ h := by
  rw [find?_eq, records_foldl_file, empty, List.append_nil, List.find?_eq_some_iff_append]
  simp only [decide_eq_true_eq, Bool.not_eq_true', decide_eq_false_iff_not]
  constructor
  · rintro ⟨same, newer, older, split, others⟩
    refine ⟨older.reverse, newer.reverse, ?_, same, ?_⟩
    · simpa using congrArg List.reverse split
    · simpa using others
  · rintro ⟨earlier, later, rfl, same, others⟩
    refine ⟨same, later.reverse, earlier.reverse, ?_, ?_⟩
    · simp
    · simpa using others

end Catalog

namespace Record

theorem parse?_of_allBlank {text : List Char} (blank : Text.allBlank text) :
    parse? text = none := by
  rw [parse?, Json.parse?_of_allBlank blank, Option.bind_none]

end Record

namespace Log

variable {text l bad : List Char} {before after : List (List Char)} {path : String} {c : Catalog}
  {ls : List Line}

/-- Whether a line may stand in a log: it is blank or a record. -/
def Admits (l : List Char) : Prop := Text.allBlank l ∨ (Record.parse? l).isSome

instance (l : List Char) : Decidable (Admits l) := inferInstanceAs (Decidable (_ ∨ _))

/-- A line without the carriage return in front of its line feed. -/
def dropReturn (l : List Char) : List Char := if l.getLast? = some '\r' then l.dropLast else l

/-- The lines of a text that a line feed ends. -/
def endedLines (text : List Char) : List (List Char) :=
  (text.splitOn '\n').dropLast.map dropReturn

/-- The records among the lines of a text, and behind its last line feed. -/
def written (text : List Char) : List Record :=
  (endedLines text ++ [tail text]).filterMap Record.parse?

/-! ### Lines -/

theorem dropReturn_cases (l : List Char) : dropReturn l = l ∨ dropReturn l ++ ['\r'] = l := by
  unfold dropReturn
  split
  · rename_i ends
    exact .inr (List.dropLast_append_getLast? _ ends)
  · exact .inl rfl

theorem parse?_dropReturn (l : List Char) : Record.parse? (dropReturn l) = Record.parse? l := by
  rcases dropReturn_cases l with same | ends
  · rw [same]
  · conv => rhs; rw [← ends]
    rw [Record.parse?, Record.parse?, Json.parse?_concat_of_blank (by decide)]

theorem allBlank_dropReturn (l : List Char) : Text.allBlank (dropReturn l) = Text.allBlank l := by
  rcases dropReturn_cases l with same | ends
  · rw [same]
  · have blank : Text.isBlank '\r' = true := by decide
    conv => rhs; rw [← ends]
    simp [Text.allBlank, blank]

theorem admits_dropReturn : Admits (dropReturn l) ↔ Admits l := by
  rw [Admits, Admits, parse?_dropReturn, allBlank_dropReturn]

theorem linesFrom_of_ended (start front : List Char) :
    linesFrom start (front ++ ['\n']) =
      (front.splitOnPPrepend (· == '\n') start).map fun l => ⟨l, true⟩ := by
  induction front generalizing start with
  | nil => simp [linesFrom]
  | cons c front ih =>
    rw [List.cons_append, linesFrom, List.splitOnPPrepend_cons_eq_if, ih, ih]
    by_cases feed : c = '\n'
    · simp [feed]
    · simp [feed]

/-- A text is the lines that end and the rest. -/
theorem lines_eq (text : List Char) :
    lines text = ((text.splitOn '\n').dropLast.map fun l => ⟨l, true⟩) ++ lines (tail text) := by
  have rest : (tail text).splitOn '\n' = [tail text] :=
    List.splitOn_eq_singleton (feed_not_mem_tail text)
  have front : lines (body text) = (text.splitOn '\n').dropLast.map fun l => ⟨l, true⟩ := by
    rcases body_eq text with none | ⟨front, e⟩
    · have whole : tail text = text := by
        have split := body_append_tail text
        rwa [none] at split
      rw [none, ← whole, rest]
      rfl
    · have split : text = front ++ '\n' :: tail text := by
        conv => lhs; rw [← body_append_tail text, e]
        simp
      have pieces : text.splitOn '\n' = front.splitOn '\n' ++ [tail text] := by
        conv => lhs; rw [split]
        rw [List.splitOn_append_cons_self, rest]
      rw [e, pieces, List.dropLast_concat]
      exact linesFrom_of_ended [] front
  conv => lhs; rw [← body_append_tail text, lines_body_append, front]

/-! ### Replaying -/

/-- Lines that may stand in a log are read, and so is a last line that is none. -/
theorem replayFrom_of_admits (all : ∀ l ∈ ls, l.ended → Admits l.text) (number : Nat) :
    replayFrom path c number ls =
      .ok ((ls.filterMap fun l => Record.parse? l.text).foldl Catalog.file c) := by
  induction ls generalizing c number with
  | nil => rfl
  | cons l ls ih =>
    have rest := fun m mem => all m (List.mem_cons_of_mem l mem)
    rw [replayFrom, List.filterMap_cons]
    by_cases blank : Text.allBlank l.text
    · rw [if_pos blank, Record.parse?_of_allBlank blank]
      exact ih rest _
    · rw [if_neg blank]
      cases read : Record.parse? l.text with
      | some r => exact ih rest _
      | none =>
        have open' : ¬l.ended := by
          intro ended
          have admits := all l (List.mem_cons_self ..) ended
          simp [Admits, blank, read] at admits
        rw [if_neg open']
        exact ih rest _

/-- The first line that may not stand in a log is named by its number. -/
theorem replayFrom_of_not_admits (all : ∀ l ∈ ls, Admits l.text) (refused : ¬Admits bad)
    (number : Nat) (more : List Line) :
    replayFrom path c number (ls ++ ⟨bad, true⟩ :: more) =
      .error (.corrupt (.badLine path (number + ls.length))) := by
  obtain ⟨shown, unread⟩ := not_or.1 refused
  have none : Record.parse? bad = none := Option.not_isSome_iff_eq_none.1 unread
  rw [replayFrom_append, replayFrom_of_admits fun l m _ => all l m]
  show replayFrom path _ _ _ = _
  rw [replayFrom, if_neg shown, none]
  rfl

theorem replay_of_admits (all : ∀ l ∈ endedLines text, Admits l) :
    replay path text = .ok ((written text).foldl Catalog.file .empty) := by
  have last := lines_of_end (feed_not_mem_tail text)
  -- what stands behind the last line feed is the one line that does not end
  have admitted : ∀ l ∈ lines text, l.ended → Admits l.text := by
    intro l m ended
    rw [lines_eq, last, List.mem_append] at m
    rcases m with m | m
    · obtain ⟨k, mk, rfl⟩ := List.mem_map.1 m
      exact admits_dropReturn.1 (all _ (List.mem_map_of_mem mk))
    · split at m
      · cases m
      · obtain rfl := List.mem_singleton.1 m
        cases ended
  have rest : (lines (tail text)).filterMap (fun l => Record.parse? l.text) =
      [tail text].filterMap Record.parse? := by
    rw [last]
    split
    · rename_i none
      rw [none]
      rfl
    · rfl
  have records : (lines text).filterMap (fun l => Record.parse? l.text) = written text := by
    rw [lines_eq, List.filterMap_append, rest, written, endedLines, List.filterMap_append,
      List.filterMap_map, List.filterMap_map]
    congr 2
    funext l
    exact (parse?_dropReturn l).symm
  rw [replay, replayFrom_of_admits admitted, records]

theorem replay_of_not_admits (split : endedLines text = before ++ bad :: after)
    (all : ∀ l ∈ before, Admits l) (refused : ¬Admits bad) :
    replay path text = .error (.corrupt (.badLine path (before.length + 1))) := by
  obtain ⟨front, back, pieces, same, back'⟩ := List.map_eq_append_iff.1 split
  obtain ⟨l, more, rfl, rfl, rfl⟩ := List.map_eq_cons_iff.1 back'
  subst same
  have admitted : ∀ m ∈ front.map fun l => (⟨l, true⟩ : Line), Admits m.text := by
    intro m mem
    obtain ⟨k, mk, rfl⟩ := List.mem_map.1 mem
    exact admits_dropReturn.1 (all _ (List.mem_map_of_mem mk))
  rw [replay, lines_eq, pieces, List.map_append, List.map_cons, List.append_assoc, List.cons_append,
    replayFrom_of_not_admits admitted (mt admits_dropReturn.2 refused), List.length_map,
    List.length_map, Nat.add_comm 1]

theorem admits_or_split (ls : List (List Char)) :
    (∀ l ∈ ls, Admits l) ∨
      ∃ before bad after, ls = before ++ bad :: after ∧ (∀ l ∈ before, Admits l) ∧ ¬Admits bad := by
  cases first : ls.find? fun l => ¬Admits l with
  | none => exact .inl (by simpa using first)
  | some bad =>
    obtain ⟨refused, before, after, split, all⟩ := List.find?_eq_some_iff_append.1 first
    exact .inr ⟨before, bad, after, split, by simpa using all, by simpa using refused⟩

theorem replay_eq_ok : replay path text = .ok c ↔
    (∀ l ∈ endedLines text, Admits l) ∧ c = (written text).foldl Catalog.file .empty := by
  constructor
  · intro read
    rcases admits_or_split (endedLines text) with all | ⟨before, bad, after, split, all, refused⟩
    · rw [replay_of_admits all] at read
      exact ⟨all, (Except.ok.inj read).symm⟩
    · rw [replay_of_not_admits split all refused] at read
      cases read
  · rintro ⟨all, rfl⟩
    exact replay_of_admits all

theorem replay_eq_error {e : StoreError} : replay path text = .error e ↔
    ∃ before bad after, endedLines text = before ++ bad :: after ∧ (∀ l ∈ before, Admits l) ∧
      ¬Admits bad ∧ e = .corrupt (.badLine path (before.length + 1)) := by
  constructor
  · intro failed
    rcases admits_or_split (endedLines text) with all | ⟨before, bad, after, split, all, refused⟩
    · rw [replay_of_admits all] at failed
      cases failed
    · rw [replay_of_not_admits split all refused] at failed
      exact ⟨before, bad, after, split, all, refused, (Except.error.inj failed).symm⟩
  · rintro ⟨before, bad, after, split, all, refused, rfl⟩
    exact replay_of_not_admits split all refused

/-- Whether the lines of a text decide what is read of it, and which line is refused. -/
structure Replays (path : String) (text : List Char) : Prop where
  readable : (∃ c, replay path text = .ok c) ↔ ∀ l ∈ endedLines text, Admits l
  found : ∀ c, replay path text = .ok c → ∀ h r, c.find? h = some r ↔
    ∃ earlier later, written text = earlier ++ r :: later ∧ r.hash = h ∧ ∀ s ∈ later, s.hash ≠ h
  refused : ∀ e, replay path text = .error e ↔
    ∃ before bad after, endedLines text = before ++ bad :: after ∧ (∀ l ∈ before, Admits l) ∧
      ¬Admits bad ∧ e = .corrupt (.badLine path (before.length + 1))

/-- A text is read as a log if every line that ends is blank or a record, and only then. What is
found of a hash is the last record with it, one behind the last line feed included. Otherwise the
first line that is neither is named by its number among all lines. -/
theorem log_replayed (path : String) (text : List Char) : Replays path text where
  readable := by
    constructor
    · rintro ⟨c, read⟩
      exact (replay_eq_ok.1 read).1
    · intro all
      exact ⟨_, replay_eq_ok.2 ⟨all, rfl⟩⟩
  found := by
    intro c read h r
    rw [(replay_eq_ok.1 read).2]
    exact Catalog.find?_foldl_file (written text)
  refused _ := replay_eq_error

end Log

end HeaviestChain
