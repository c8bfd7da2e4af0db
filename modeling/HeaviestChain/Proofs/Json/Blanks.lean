import HeaviestChain.Proofs.Json.Reading
import HeaviestChain.Text.Blank
import Mathlib.Tactic.SplitIfs

/-!
What a step of the reader leads to, and blanks around a value. The reader takes them in front of a
value and behind it without any change, so that a text says the same with and without them, and
blanks alone say nothing.
-/

namespace HeaviestChain.Json

variable {s t : State} {stack : List Frame} {c : Char} {text : List Char} {v : Value}

/-- Whether the reader is behind a value, or behind a comma that follows one. -/
def State.Between (s : State) : Prop :=
  match s.mode with
  | .value => s.stack ≠ []
  | .key | .separator | .done _ => True
  | _ => False

theorem between_deliver (e : deliver stack v = some s) : s.Between := by
  cases stack with
  | nil => cases e; trivial
  | cons frame stack => cases frame <;> cases e <;> trivial

theorem between_separate (e : separate stack c = some s) : s.Between := by
  unfold separate at e
  split at e
  · cases e; trivial
  · split at e
    · split at e
      · cases e; exact List.cons_ne_nil _ _
      · split at e
        · exact between_deliver e
        · cases e
    · split at e
      · cases e; trivial
      · split at e
        · exact between_deliver e
        · cases e
    · cases e

theorem between_follow (e : follow s c = some t) : t.Between := by
  unfold follow at e
  split at e
  · split at e
    · cases e; trivial
    · cases e
  · exact between_separate e
  · cases e

/-- Whether the reader is behind the first character of a value. -/
def State.Begun (s : State) : Prop :=
  match s.mode with
  | .firstItem => s.stack ≠ []
  | .firstKey | .text _ _ | .numeral _ _ => True
  | .literal rest _ => ∀ c ∈ rest, c.isAlpha
  | _ => False

theorem eq_or_of_ite {p : Prop} [Decidable p] {o : Option State}
    (e : (if p then some t else o) = some s) : t = s ∨ o = some s := by
  split at e
  · exact .inl (Option.some.inj e)
  · exact .inr e

theorem begun_startValue (e : startValue stack c = some s) : s.Begun := by
  have word {rest : List Char} {v : Value} (letters : rest.all Char.isAlpha = true) :
      State.Begun ⟨.literal rest v, stack⟩ := List.all_eq_true.1 letters
  unfold startValue at e
  obtain rfl | e := eq_or_of_ite e
  · trivial
  obtain rfl | e := eq_or_of_ite e
  · exact List.cons_ne_nil _ _
  obtain rfl | e := eq_or_of_ite e
  · trivial
  obtain rfl | e := eq_or_of_ite e
  · trivial
  obtain rfl | e := eq_or_of_ite e
  · trivial
  obtain rfl | e := eq_or_of_ite e
  · trivial
  obtain rfl | e := eq_or_of_ite e
  · exact word rfl
  obtain rfl | e := eq_or_of_ite e
  · exact word rfl
  obtain rfl | e := eq_or_of_ite e
  · exact word rfl
  cases e

/-- What one more character makes of a state. -/
inductive State.Advances : State → State → Prop where
  | kept {s : State} : Advances s s
  | between {s t : State} (between : t.Between) : Advances s t
  | begun {s t : State} (begun : t.Begun) : Advances s t
  | key {s : State} (token : List Char) (escape : Escape) (stack : List Frame) :
      Advances s ⟨.keyToken token escape, stack⟩
  | colon {s : State} (frame : Frame) (stack : List Frame) : Advances s ⟨.colon, frame :: stack⟩
  | member (stack : List Frame) : Advances ⟨.colon, stack⟩ ⟨.value, stack⟩
  | word (expected : Char) (rest : List Char) (v : Value) (stack : List Frame) :
      Advances ⟨.literal (expected :: rest) v, stack⟩ ⟨.literal rest v, stack⟩

theorem advances_of_step (e : step s c = some t) : s.Advances t := by
  obtain ⟨mode, stack⟩ := s
  cases mode with
  | value =>
    simp only [step] at e
    split at e
    · cases e; exact .kept
    · exact .begun (begun_startValue e)
  | firstItem =>
    simp only [step] at e
    split_ifs at e
    · cases e; exact .kept
    · exact .between (between_separate e)
    · exact .begun (begun_startValue e)
  | firstKey =>
    simp only [step] at e
    split_ifs at e
    · cases e; exact .kept
    · cases e; exact .key ..
    · exact .between (between_separate e)
  | key =>
    simp only [step] at e
    split_ifs at e
    · cases e; exact .kept
    · cases e; exact .key ..
  | keyToken token escape =>
    simp only [step] at e
    split at e
    · split at e
      · cases e; exact .colon ..
      · cases e
    · obtain ⟨u, -, rfl⟩ := Option.map_eq_some_iff.1 e
      exact .key ..
  | colon =>
    simp only [step] at e
    split_ifs at e
    · cases e; exact .kept
    · cases e; exact .member stack
  | text token escape =>
    simp only [step] at e
    split at e
    · exact .between (between_deliver e)
    · obtain ⟨u, -, rfl⟩ := Option.map_eq_some_iff.1 e
      exact .begun trivial
  | numeral phase token =>
    simp only [step] at e
    split at e
    · cases e; exact .begun trivial
    · split at e
      · obtain ⟨u, -, follows⟩ := Option.bind_eq_some_iff.1 e
        exact .between (between_follow follows)
      · cases e
  | literal rest v =>
    cases rest with
    | nil => cases e
    | cons expected rest =>
      simp only [step] at e
      split_ifs at e
      · exact .between (between_deliver e)
      · cases e; exact .word ..
  | separator =>
    simp only [step] at e
    exact .between (between_follow e)
  | done v =>
    simp only [step] at e
    exact .between (between_follow e)

/-- What every step keeps is kept by a run. -/
theorem run_induct {P : State → Prop}
    (keeps : ∀ {s : State} {c : Char} {t : State}, P s → step s c = some t → P t) (first : P s)
    (e : run s text = some t) : P t := by
  induction text generalizing s with
  | nil => cases e; exact first
  | cons c text ih =>
    rw [run_cons] at e
    obtain ⟨u, next, rest⟩ := Option.bind_eq_some_iff.1 e
    exact ih (keeps first next) rest

/-! ### Blanks behind a value -/

theorem isBlank_iff : isBlank c ↔ c = ' ' ∨ c = '\n' ∨ c = '\t' ∨ c = '\r' := by
  simp [isBlank]

/-- Whether a word that the reader has begun goes on without blanks. -/
def State.Worded (s : State) : Prop :=
  match s.mode with
  | .literal rest _ => ∀ c ∈ rest, isBlank c = false
  | _ => True

theorem State.Between.worded (between : s.Between) : s.Worded := by
  obtain ⟨mode, stack⟩ := s
  cases mode <;> trivial

theorem State.Begun.worded (begun : s.Begun) : s.Worded := by
  obtain ⟨mode, stack⟩ := s
  cases mode with
  | literal rest v =>
    intro c m
    have letter : c.isAlpha := begun c m
    rw [← Bool.not_eq_true, isBlank_iff]
    rintro (rfl | rfl | rfl | rfl) <;> cases letter
  | _ => trivial

theorem worded_step (worded : s.Worded) (e : step s c = some t) : t.Worded := by
  cases advances_of_step e with
  | kept => exact worded
  | between between => exact between.worded
  | begun begun => exact begun.worded
  | key => trivial
  | colon => trivial
  | member => trivial
  | word expected rest v stack => exact fun d m => worded d (List.mem_cons_of_mem expected m)

theorem worded_run (worded : s.Worded) (e : run s text = some t) : t.Worded :=
  run_induct worded_step worded e

theorem next?_of_blank (blank : isBlank c) (phase : Phase) : phase.next? c = none := by
  obtain rfl | rfl | rfl | rfl := isBlank_iff.1 blank <;> cases phase <;> rfl

theorem closesToken_of_blank (blank : isBlank c) (escape : Escape) :
    closesToken escape c = false := by
  obtain rfl | rfl | rfl | rfl := isBlank_iff.1 blank <;> cases escape <;> rfl

/-- A blank neither begins nor ends a value, nor does a text end with it that would not end
before. -/
theorem finish_step_of_blank (worded : s.Worded) (blank : isBlank c) :
    (step s c).bind finish = finish s := by
  obtain ⟨mode, stack⟩ := s
  cases mode with
  | value => simp [step, blank]
  | firstItem => simp [step, blank]
  | firstKey => simp [step, blank]
  | key => simp [step, blank]
  | colon => simp [step, blank]
  | keyToken token escape =>
    have unclosed : closesToken escape c = false := closesToken_of_blank blank escape
    simp only [step, unclosed, finish]
    cases tokenStep token escape c <;> rfl
  | text token escape =>
    have unclosed : closesToken escape c = false := closesToken_of_blank blank escape
    simp only [step, unclosed, finish]
    cases tokenStep token escape c <;> rfl
  | numeral phase token =>
    simp only [step, next?_of_blank blank]
    cases stack with
    | nil =>
      cases complete : phase.complete <;> simp [complete, finish, deliver, follow, blank]
    | cons frame stack =>
      cases complete : phase.complete <;> cases frame <;>
        simp [finish, deliver, follow, separate, blank]
  | literal rest v =>
    cases rest with
    | nil => rfl
    | cons expected rest =>
      have other : c ≠ expected := by
        rintro rfl
        have shown := worded c (List.mem_cons_self ..)
        exact Bool.false_ne_true (shown.symm.trans blank)
      simp [step, other, finish]
  | separator =>
    simp [step, follow, separate, blank, finish]
  | done v => simp [step, follow, blank, finish]

theorem parse?_concat_of_blank (blank : isBlank c) (text : List Char) :
    parse? (text ++ [c]) = parse? text := by
  rw [parse?, parse?, run_append, Option.bind_assoc]
  cases e : run start text with
  | none => rfl
  | some s =>
    have begun : start.Worded := trivial
    have worded : s.Worded := worded_run begun e
    rw [Option.bind_some, Option.bind_some, run_cons, Option.bind_assoc]
    exact finish_step_of_blank worded blank

/-! ### Blanks in front of a value -/

theorem run_start_of_blank (blank : text.all isBlank) : run start text = some start := by
  induction text with
  | nil => rfl
  | cons c text ih =>
    obtain ⟨first, rest⟩ := Bool.and_eq_true_iff.1 (List.all_cons.symm.trans blank)
    have next : step start c = some start := if_pos first
    rw [run_cons_of_step next, ih rest]

/-- No value begins with white space that is no blank of the format. -/
theorem startValue_of_isBlank (blank : Text.isBlank c) (stack : List Frame) :
    startValue stack c = none := by
  have apart (d : Char) (shown : Text.isBlank d = false) : c ≠ d := by
    rintro rfl
    exact Bool.false_ne_true (shown.symm.trans blank)
  have letter : ¬c.isDigit := by
    intro digit
    have low : 48 ≤ c.toNat := (Char.isDigit_iff_toNat.1 digit).1
    have high : c.toNat ≤ 57 := (Char.isDigit_iff_toNat.1 digit).2
    simp only [Text.isBlank, Text.blankRanges, List.any_cons, List.any_nil, Bool.or_eq_true,
      decide_eq_true_eq, Bool.false_eq_true, or_false] at blank
    omega
  unfold startValue
  rw [if_neg (apart '\x22' (by decide)), if_neg (apart '[' (by decide)),
    if_neg (apart '\x7b' (by decide)), if_neg (apart '-' (by decide)),
    if_neg (apart '0' (by decide)), if_neg letter,
    if_neg (apart 'n' (by decide)), if_neg (apart 't' (by decide)), if_neg (apart 'f' (by decide))]

/-- White space alone is no value. -/
theorem parse?_of_allBlank (blank : Text.allBlank text) : parse? text = none := by
  have unread : (run start text).bind finish = none := by
    induction text with
    | nil => rfl
    | cons c text ih =>
      obtain ⟨first, rest⟩ := Bool.and_eq_true_iff.1 (List.all_cons.symm.trans blank)
      by_cases inner : isBlank c
      · have next : step start c = some start := if_pos inner
        rw [run_cons_of_step next, ih rest]
      · have next : step start c = none := (if_neg inner).trans (startValue_of_isBlank first [])
        rw [run_cons, next]
        rfl
  exact unread

end HeaviestChain.Json
