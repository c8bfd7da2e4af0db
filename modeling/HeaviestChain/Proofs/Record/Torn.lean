import HeaviestChain.Proofs.Json.Blanks
import HeaviestChain.Proofs.Record.Json

/-!
Records written behind a text that broke off. The reader starts anew behind blanks alone. Behind
anything else it is inside some value or has read one, and a record there makes no text of it.
-/

namespace HeaviestChain

namespace Json

variable {s t : State} {stack : List Frame} {c : Char} {text : List Char} {v : Value}

/-- Whether a value that comes next would belong to a container, and no word holds a brace. -/
def State.Inside (s : State) : Prop :=
  match s.mode with
  | .value | .firstItem | .colon => s.stack ≠ []
  | .literal rest _ => '\x7b' ∉ rest
  | _ => True

theorem State.Between.inside (between : s.Between) : s.Inside := by
  obtain ⟨mode, stack⟩ := s
  cases mode with
  | value => exact between
  | _ => trivial

theorem State.Begun.inside (begun : s.Begun) : s.Inside := by
  obtain ⟨mode, stack⟩ := s
  cases mode with
  | firstItem => exact begun
  | literal rest v => exact fun m => Bool.false_ne_true (begun _ m)
  | value => exact begun.elim
  | colon => exact begun.elim
  | _ => trivial

/-- A reader inside a value stays inside, or has read it. -/
theorem inside_step (inside : s.Inside) (e : step s c = some t) : t.Inside := by
  cases advances_of_step e with
  | kept => exact inside
  | between between => exact between.inside
  | begun begun => exact begun.inside
  | key => trivial
  | colon => exact List.cons_ne_nil _ _
  | member => exact inside
  | word expected rest v stack => exact fun m => inside (List.mem_cons_of_mem expected m)

theorem inside_run (inside : s.Inside) (e : run s text = some t) : t.Inside :=
  run_induct inside_step inside e

/-- Anything but blanks brings the reader inside a value. -/
theorem inside_run_start (torn : ¬text.all isBlank) (e : run start text = some t) : t.Inside := by
  induction text with
  | nil => exact absurd rfl torn
  | cons c text ih =>
    rw [run_cons] at e
    obtain ⟨u, first, rest⟩ := Option.bind_eq_some_iff.1 e
    by_cases blank : isBlank c
    · have same : step start c = some start := if_pos blank
      obtain rfl := Option.some.inj (same.symm.trans first)
      refine ih ?_ rest
      simpa [blank] using torn
    · have begun : startValue [] c = some u := (if_neg blank).symm.trans first
      exact inside_run (begun_startValue begun).inside rest

/-- An object with a key in `h` is only read where a value is expected. -/
theorem run_object (inside : s.Inside) (text : List Char) :
    run s ('\x7b' :: '\x22' :: 'h' :: text) = none ∨ s.mode = .value ∨ s.mode = .firstItem := by
  obtain ⟨mode, stack⟩ := s
  cases mode with
  | value => exact .inr (.inl rfl)
  | firstItem => exact .inr (.inr rfl)
  | firstKey => exact .inl rfl
  | key => exact .inl rfl
  | keyToken token escape =>
    cases escape with
    | plain =>
      -- the quote ends the key, and the next character is no colon
      cases stack with
      | nil => exact .inl rfl
      | cons frame stack => cases frame <;> exact .inl rfl
    | letter => exact .inl rfl
    | digits count => exact .inl rfl
  | colon => exact .inl rfl
  | text token escape =>
    cases escape with
    | plain =>
      -- the quote ends the text, and no value goes on with a letter
      cases stack with
      | nil => exact .inl rfl
      | cons frame stack => cases frame <;> exact .inl rfl
    | letter => exact .inl rfl
    | digits count => exact .inl rfl
  | numeral phase token =>
    cases stack with
    | nil => cases phase <;> exact .inl rfl
    | cons frame stack => cases frame <;> cases phase <;> exact .inl rfl
  | literal rest v =>
    cases rest with
    | nil => exact .inl rfl
    | cons expected rest =>
      have other : '\x7b' ≠ expected := fun e => inside (e ▸ List.mem_cons_self ..)
      have refused : step ⟨.literal (expected :: rest) v, stack⟩ '\x7b' = none := if_pos other
      left
      rw [run_cons, refused]
      rfl
  | separator =>
    cases stack with
    | nil => exact .inl rfl
    | cons frame stack => cases frame <;> exact .inl rfl
  | done v => exact .inl rfl

theorem finish_deliver (some : stack ≠ []) (v : Value) : (deliver stack v).bind finish = none := by
  cases stack with
  | nil => exact absurd rfl some
  | cons frame stack => cases frame <;> rfl

end Json

namespace Record

open Json

variable {text : List Char}

theorem render_eq_cons (r : Record) : ∃ rest, r.render = '\x7b' :: '\x22' :: 'h' :: rest := by
  have plain : Token.Plain "header".toList := named_fields.plain _ (List.mem_cons_self ..)
  refine ⟨?_, ?_⟩
  rotate_left
  · rw [render, toJson, Value.ofFields, Value.render]
    simp only [List.map_cons, renderFields]
    rw [plain.escape]
    rfl

theorem parse?_append_of_blank (blank : text.all Json.isBlank) (r : Record) :
    parse? (text ++ r.render) = some r := by
  have same : Json.parse? (text ++ r.render) = Json.parse? r.render := by
    rw [Json.parse?, run_append, run_start_of_blank blank, Option.bind_some, Json.parse?]
  have read := r.parse?_render
  rw [parse?] at read ⊢
  rw [same, read]

/-- Inside a value a record is no text of its own. -/
theorem finish_run_render {s : State} (inside : s.Inside) (r : Record) :
    (run s r.render).bind finish = none := by
  obtain ⟨rest, split⟩ := r.render_eq_cons
  rcases run_object inside rest with unread | expected
  · rw [split, unread]
    rfl
  · -- the record is read as an item of a container, and that one never closes
    obtain ⟨mode, stack⟩ := s
    have written : r.toJson.Written := r.written_toJson
    have closed := Value.Written.closed_object written stack []
    have first := run_firstItem written stack []
    rw [List.append_nil] at closed first
    have closed : run ⟨.value, stack⟩ r.render = deliver stack r.toJson :=
      closed.trans (Option.bind_fun_some _)
    have first : run ⟨.firstItem, stack⟩ r.render = _ := first.trans closed
    obtain rfl | rfl := expected
    · rw [closed]
      exact finish_deliver inside r.toJson
    · rw [first]
      exact finish_deliver inside r.toJson

/-- Behind anything but blanks no record is read. -/
theorem parse?_append_of_torn (torn : ¬text.all Json.isBlank) (r : Record) :
    parse? (text ++ r.render) = none := by
  have unread : Json.parse? (text ++ r.render) = none := by
    rw [Json.parse?, run_append, Option.bind_assoc]
    cases e : run Json.start text with
    | none => rfl
    | some s => exact finish_run_render (inside_run_start torn e) r
  rw [parse?, unread]
  rfl

end Record

end HeaviestChain
