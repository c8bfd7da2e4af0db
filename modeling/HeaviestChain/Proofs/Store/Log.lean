import HeaviestChain.Proofs.Record.Torn
import HeaviestChain.Store.Log
import Mathlib.Data.List.DropRight

/-!
Logs that are added to. A text is its lines up to the last line feed and a tail behind it. Records
that are added behind a tail of blanks are read back after all that was read before; behind any
other tail the first of them makes a line that is no record.
-/

namespace HeaviestChain.Log

variable {text rest start l : List Char} {path : String} {c c' : Catalog}

/-- The lines of records. -/
def entries (records : List Record) : List Char := records.flatMap fun r => r.render ++ ['\n']

/-- A text up to its last line feed. -/
def body (text : List Char) : List Char := text.rdropWhile (· ≠ '\n')

/-- A text behind its last line feed. -/
def tail (text : List Char) : List Char := text.rtakeWhile (· ≠ '\n')

/-- Whether records can be added behind a text: behind its last line feed stand only blanks. -/
def Clean (text : List Char) : Prop := (tail text).all Json.isBlank

instance (text : List Char) : Decidable (Clean text) := inferInstanceAs (Decidable (_ = true))

theorem body_append_tail (text : List Char) : body text ++ tail text = text :=
  List.rdropWhile_append_rtakeWhile

theorem feed_not_mem_tail (text : List Char) : '\n' ∉ tail text := by
  intro m
  simpa using List.mem_rtakeWhile_imp m

/-- A body is empty or ends with a line feed. -/
theorem body_eq (text : List Char) : body text = [] ∨ ∃ front, body text = front ++ ['\n'] := by
  by_cases none : body text = []
  · exact .inl none
  · have feed : ¬decide ((body text).getLast none ≠ '\n') = true :=
      List.rdropWhile_last_not _ text none
    have last : (body text).getLast none = '\n' := by simpa using feed
    refine .inr ⟨(body text).dropLast, ?_⟩
    rw [← last, List.dropLast_append_getLast]

theorem tail_append (whole : '\n' ∉ rest) (front : List Char) :
    tail (front ++ '\n' :: rest) = rest := by
  have all : ∀ c ∈ rest.reverse, decide (c ≠ '\n') = true := by
    intro c m
    have other : c ≠ '\n' := fun e => whole (e ▸ List.mem_reverse.1 m)
    simpa using other
  rw [tail, List.rtakeWhile, List.reverse_append, List.reverse_cons, List.append_assoc,
    List.takeWhile_append_of_pos all]
  simp

@[simp]
theorem entries_append (earlier later : List Record) :
    entries (earlier ++ later) = entries earlier ++ entries later := List.flatMap_append

theorem line_eq (r : Record) : line r = Utf8.encode (entries [r]) := by
  simp [line, entries]

/-! ### Lines -/

theorem linesFrom_of_feed (whole : '\n' ∉ l) (start rest : List Char) :
    linesFrom start (l ++ '\n' :: rest) = ⟨start.reverse ++ l, true⟩ :: lines rest := by
  induction l generalizing start with
  | nil => simp [linesFrom, lines]
  | cons c l ih =>
    obtain ⟨other, whole⟩ := not_or.1 (mt List.mem_cons.2 whole)
    rw [List.cons_append, linesFrom, if_neg (Ne.symm other), ih whole]
    simp

theorem linesFrom_of_end (whole : '\n' ∉ l) (start : List Char) :
    linesFrom start l = if start.reverse ++ l = [] then [] else [⟨start.reverse ++ l, false⟩] := by
  induction l generalizing start with
  | nil => simp [linesFrom]
  | cons c l ih =>
    obtain ⟨other, whole⟩ := not_or.1 (mt List.mem_cons.2 whole)
    rw [linesFrom, if_neg (Ne.symm other), ih whole]
    simp

/-- A text without a line feed is one line that does not end. -/
theorem lines_of_end (whole : '\n' ∉ l) : lines l = if l = [] then [] else [⟨l, false⟩] :=
  linesFrom_of_end whole []

theorem linesFrom_append_feed (start front rest : List Char) :
    linesFrom start (front ++ '\n' :: rest) = linesFrom start (front ++ ['\n']) ++ lines rest := by
  induction front generalizing start with
  | nil => simp [linesFrom, lines]
  | cons c front ih =>
    rw [List.cons_append, List.cons_append, linesFrom, linesFrom]
    split
    · rw [ih, List.cons_append]
    · exact ih _

/-- Lines that end are lines whatever follows them. -/
theorem lines_body_append (text rest : List Char) :
    lines (body text ++ rest) = lines (body text) ++ lines rest := by
  rcases body_eq text with none | ⟨front, e⟩
  · rw [none]
    rfl
  · rw [e, List.append_assoc]
    exact linesFrom_append_feed [] front rest

theorem lines_entries_append (records : List Record) (rest : List Char) :
    lines (entries records ++ rest) = (records.map fun r => ⟨r.render, true⟩) ++ lines rest := by
  induction records with
  | nil => rfl
  | cons r records ih =>
    have whole : '\n' ∉ r.render := r.written_toJson.shown.feed_not_mem
    have split : entries (r :: records) ++ rest =
        r.render ++ '\n' :: (entries records ++ rest) := by simp [entries]
    rw [split, lines, linesFrom_of_feed whole, ih]
    rfl

theorem lines_entries (records : List Record) :
    lines (entries records) = records.map fun r => ⟨r.render, true⟩ := by
  simpa [lines, linesFrom] using lines_entries_append records []

theorem length_lines_of_feed (start front : List Char) :
    (linesFrom start (front ++ ['\n'])).length = (front ++ ['\n']).count '\n' := by
  induction front generalizing start with
  | nil => simp [linesFrom]
  | cons c front ih =>
    rw [List.cons_append, linesFrom, List.count_cons]
    by_cases feed : c = '\n'
    · simp [feed, ih]
    · simp [feed, ih]

/-- There are as many lines that end as there are line feeds. -/
theorem length_lines_body (text : List Char) : (lines (body text)).length = text.count '\n' := by
  have own : (lines (body text)).length = (body text).count '\n' := by
    rcases body_eq text with none | ⟨front, e⟩
    · rw [none]
      rfl
    · rw [e]
      exact length_lines_of_feed [] front
  have none : (tail text).count '\n' = 0 := List.count_eq_zero.2 (feed_not_mem_tail text)
  conv => rhs; rw [← body_append_tail text, List.count_append, none]
  exact own

/-! ### Replaying -/

theorem replayFrom_append (path : String) (c : Catalog) (number : Nat) (xs ys : List Line) :
    replayFrom path c number (xs ++ ys) =
      (replayFrom path c number xs).bind fun d => replayFrom path d (number + xs.length) ys := by
  induction xs generalizing c number with
  | nil => rfl
  | cons x xs ih =>
    have count : number + 1 + xs.length = number + (x :: xs).length := by
      rw [List.length_cons]
      omega
    rw [List.cons_append, replayFrom, replayFrom]
    split
    · rw [ih, count]
    · split
      · rw [ih, count]
      · split
        · rfl
        · rw [ih, count]

theorem not_allBlank_append_render (text : List Char) (r : Record) :
    Text.allBlank (text ++ r.render) = false := by
  obtain ⟨rest, e⟩ := r.render_eq_cons
  have brace : Text.isBlank '\x7b' = false := by decide
  rw [Text.allBlank, List.all_append, e, List.all_cons, brace, Bool.false_and, Bool.and_false]

theorem replayFrom_record {ended : Bool} (blank : text.all Json.isBlank) (r : Record) (number : Nat)
    (more : List Line) :
    replayFrom path c number (⟨text ++ r.render, ended⟩ :: more) =
      replayFrom path (c.file r) (number + 1) more := by
  rw [replayFrom, not_allBlank_append_render, Record.parse?_append_of_blank blank]
  rfl

theorem replayFrom_entries (records : List Record) (number : Nat) :
    replayFrom path c number (records.map fun r => ⟨r.render, true⟩) =
      .ok (records.foldl Catalog.file c) := by
  induction records generalizing c number with
  | nil => rfl
  | cons r records ih =>
    have first : replayFrom path c number (⟨[] ++ r.render, true⟩ :: _) = _ :=
      replayFrom_record rfl r number (records.map fun r => ⟨r.render, true⟩)
    exact first.trans (ih _)

theorem replay_entries (records : List Record) :
    replay path (entries records) = .ok (records.foldl Catalog.file .empty) := by
  rw [replay, lines_entries, replayFrom_entries]

/-- A writer that stopped in the middle of a record leaves the records before it. -/
theorem replay_entries_torn (whole : '\n' ∉ text) (unread : Record.parse? text = none)
    (records : List Record) :
    replay path (entries records ++ text) = .ok (records.foldl Catalog.file .empty) := by
  rw [replay, lines_entries_append, replayFrom_append, replayFrom_entries, lines_of_end whole]
  show replayFrom path _ _ _ = _
  split
  · rfl
  · rw [replayFrom, unread]
    split <;> rfl

theorem allBlank_of_blank (blank : text.all Json.isBlank) : Text.allBlank text := by
  rw [Text.allBlank, List.all_eq_true]
  intro c m
  have small := List.all_eq_true.1 blank c m
  simp only [Json.isBlank, decide_eq_true_eq] at small
  obtain rfl | rfl | rfl | rfl := small <;> decide

/-- What is read of a text was read of its body, and of a tail only if it is more than blanks. -/
theorem replay_body (e : replay path text = .ok c) :
    ∃ d, replayFrom path .empty 1 (lines (body text)) = .ok d ∧ (Clean text → c = d) := by
  rw [replay, ← body_append_tail text, lines_body_append, replayFrom_append] at e
  cases read : replayFrom path .empty 1 (lines (body text)) with
  | error f =>
    rw [read] at e
    cases e
  | ok d =>
    refine ⟨d, rfl, ?_⟩
    intro clean
    rw [read, lines_of_end (feed_not_mem_tail text)] at e
    by_cases none : tail text = []
    · rw [if_pos none] at e
      exact (Except.ok.inj e).symm
    · have blank : Text.allBlank (tail text) = true := allBlank_of_blank clean
      rw [if_neg none] at e
      simp only [Except.bind, replayFrom, blank, if_true, Except.ok.injEq] at e
      exact e.symm

theorem lines_append_entries (text : List Char) (r : Record) (records : List Record) :
    lines (text ++ entries (r :: records)) =
      lines (body text) ++
        ⟨tail text ++ r.render, true⟩ :: records.map fun r => ⟨r.render, true⟩ := by
  have whole : '\n' ∉ tail text ++ r.render := by
    rw [List.mem_append, not_or]
    exact ⟨feed_not_mem_tail text, r.written_toJson.shown.feed_not_mem⟩
  have split : text ++ entries (r :: records) =
      body text ++ (tail text ++ r.render ++ '\n' :: entries records) := by
    conv => lhs; rw [← body_append_tail text]
    simp [entries]
  rw [split, lines_body_append, lines, lines, linesFrom_of_feed whole, lines_entries]
  rfl

/-- Behind a clean text, records are read back. -/
theorem replay_append_of_clean (clean : Clean text) (e : replay path text = .ok c)
    (records : List Record) :
    replay path (text ++ entries records) = .ok (records.foldl Catalog.file c) := by
  cases records with
  | nil =>
    rw [entries, List.flatMap_nil, List.append_nil, e]
    rfl
  | cons r records =>
    obtain ⟨d, read, same⟩ := replay_body e
    rw [same clean, replay, lines_append_entries, replayFrom_append, read]
    exact (replayFrom_record clean r _ _).trans (replayFrom_entries records _)

/-- Behind any other text, the first record makes a line that is no record. -/
theorem replay_append_of_torn (torn : ¬Clean text) (e : replay path text = .ok c) (r : Record)
    (records : List Record) :
    replay path (text ++ entries (r :: records)) =
      .error (.corrupt (.badLine path (text.count '\n' + 1))) := by
  obtain ⟨d, read, -⟩ := replay_body e
  rw [replay, lines_append_entries, replayFrom_append, read]
  show replayFrom path d (1 + (lines (body text)).length) _ = _
  rw [replayFrom, not_allBlank_append_render, Record.parse?_append_of_torn torn, length_lines_body,
    Nat.add_comm 1]
  rfl

end HeaviestChain.Log
