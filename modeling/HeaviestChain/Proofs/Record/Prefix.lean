import HeaviestChain.Proofs.Record.Torn
import HeaviestChain.Proofs.Text.Ascii

/-!
Records that broke off. Every character of a record is one byte, so that a writer that stops behind
any byte of it leaves a start of its text; and no such start is read as a record, because the brace
that closes it is missing.
-/

namespace HeaviestChain

open Utf8

namespace Json

/-! ### One byte a character -/

namespace Value

theorem ascii_ofNat (n : Nat) : Ascii (ofNat n).render := by
  intro c m
  have digit : c.isDigit := Text.isDigit_of_mem_toDigits m
  have high : c.toNat ≤ 57 := (Char.isDigit_iff_toNat.1 digit).2
  omega

theorem ascii_ofString {s : String} (plain : Token.Plain s.toList) (ascii : Ascii s.toList) :
    Ascii (ofString s).render := by
  rw [ofString, plain.escape]
  simp [render, ascii]

theorem ascii_array {items : List Value} (values : ∀ v ∈ items, Ascii v.render) :
    Ascii (array items).render := by
  have inner : Ascii (renderItems items) := forall_mem_renderItems (by decide) values
  simp [render, inner]

theorem ascii_ofFields {fields : List (String × Value)} (named : Named (fields.map (·.1)))
    (names : ∀ name ∈ fields.map (·.1), Ascii name.toList)
    (values : ∀ f ∈ fields, Ascii f.2.render) :
    Ascii (ofFields fields).render := by
  have inner : Ascii (renderFields (fields.map fun f => (Token.escape f.1.toList, f.2))) := by
    refine forall_mem_renderFields (by decide) (by decide) (by decide) ?_ ?_
    · rintro _ m
      obtain ⟨f, mf, rfl⟩ := List.mem_map.1 m
      show Ascii (Token.escape f.1.toList)
      rw [(named.plain_key mf).escape]
      exact names f.1 (List.mem_map_of_mem mf)
    · rintro _ m
      obtain ⟨f, mf, rfl⟩ := List.mem_map.1 m
      exact values f mf
  simp [ofFields, render, inner]

end Value

/-! ### Values that are over -/

variable {s t : State} {c : Char} {text rest : List Char} {v : Value}

/-- Whether no container is open behind a value, or behind a numeral that may be one. -/
def State.Outside (s : State) : Prop :=
  match s.mode with
  | .done _ => True
  | .numeral _ _ => s.stack = []
  | _ => False

theorem outside_of_finish (e : finish s = some v) : s.Outside := by
  obtain ⟨mode, stack⟩ := s
  cases mode with
  | done w => trivial
  | numeral phase token =>
    cases stack with
    | nil => exact (rfl : _ = _)
    | cons frame stack => cases e
  | _ => cases e

theorem outside_follow (w : Value) {stack : List Frame} (e : follow ⟨.done w, stack⟩ c = some t) :
    t.Outside ∧ c ≠ '\x7d' := by
  unfold follow at e
  dsimp only at e
  split at e
  · rename_i blank
    cases e
    refine ⟨trivial, ?_⟩
    rintro rfl
    cases blank
  · cases e

/-- Outside of all containers stands no brace that closes one. -/
theorem outside_step (outside : s.Outside) (e : step s c = some t) : t.Outside ∧ c ≠ '\x7d' := by
  obtain ⟨mode, stack⟩ := s
  cases mode with
  | done w => exact outside_follow w e
  | numeral phase token =>
    obtain rfl : stack = [] := outside
    dsimp only [step] at e
    split at e
    · rename_i next
      cases e
      refine ⟨rfl, ?_⟩
      rintro rfl
      have ends : Ends '\x7d' := by simp [Ends]
      cases next.symm.trans (next?_of_ends ends)
    · split at e
      · exact outside_follow _ e
      · cases e
  | _ => exact outside.elim

theorem outside_run (outside : s.Outside) (e : run s text = some t) : '\x7d' ∉ text := by
  induction text generalizing s with
  | nil => exact List.not_mem_nil
  | cons c text ih =>
    rw [run_cons] at e
    obtain ⟨u, first, rest⟩ := Option.bind_eq_some_iff.1 e
    obtain ⟨outside', other⟩ := outside_step outside first
    rw [List.mem_cons, not_or]
    exact ⟨Ne.symm other, ih outside' rest⟩

/-- A text that goes on to a closing brace and is a value then is none before. -/
theorem parse?_of_append (e : parse? (text ++ rest) = some v) (closes : '\x7d' ∈ rest) :
    parse? text = none := by
  rw [parse?, run_append, Option.bind_assoc] at e
  obtain ⟨s, first, e⟩ := Option.bind_eq_some_iff.1 e
  obtain ⟨t, later, -⟩ := Option.bind_eq_some_iff.1 e
  rw [parse?, first, Option.bind_some]
  cases final : finish s with
  | none => rfl
  | some w => exact absurd closes (outside_run (outside_of_finish final) later)

theorem getLast?_render_object (fields : List (List Char × Value)) :
    (Value.object fields).render.getLast? = some '\x7d' := by
  rw [Value.render]
  exact List.getLast?_concat

/-- No start of an object but the whole is a value. -/
theorem parse?_take_object {fields : List (List Char × Value)}
    (written : (Value.object fields).Written) {n : Nat}
    (short : n < (Value.object fields).render.length) :
    parse? ((Value.object fields).render.take n) = none := by
  have closes : '\x7d' ∈ (Value.object fields).render.drop n := by
    apply List.mem_of_getLast?
    rw [List.getLast?_drop, if_neg (Nat.not_le.2 short), getLast?_render_object]
  have whole := parse?_render_object written
  rw [← List.take_append_drop n (Value.object fields).render] at whole
  exact parse?_of_append whole closes

end Json

open Json Json.Value

namespace Hash

theorem ascii_toJson (h : Hash) : Ascii h.toJson.render := by
  refine ascii_ofString h.plain_render ?_
  intro c m
  rw [render, String.toList_ofList] at m
  obtain ⟨n, small, rfl⟩ := Hex.mem_ofBytes m
  exact Hex.ascii_digit small

end Hash

theorem Header.ascii_toJson (h : Header) : Ascii h.toJson.render := by
  refine ascii_ofFields named_fields (show ∀ name ∈ fieldNames, _ by decide) ?_
  simp only [List.forall_mem_cons]
  exact ⟨ascii_ofNat _, h.previous.ascii_toJson, h.merkleRoot.ascii_toJson, ascii_ofNat _,
    ascii_ofNat _, ascii_ofNat _, List.forall_mem_nil _⟩

theorem Work.ascii_toJson (w : Work) : Ascii w.toJson.render := by
  refine ascii_array ?_
  rintro _ m
  obtain ⟨word, -, rfl⟩ := List.mem_map.1 m
  exact ascii_ofNat _

namespace Record

theorem ascii_render (r : Record) : Ascii r.render := by
  refine ascii_ofFields named_fields (show ∀ name ∈ fieldNames, _ by decide) ?_
  simp only [List.forall_mem_cons]
  exact ⟨r.header.ascii_toJson, ascii_ofNat _, r.work.ascii_toJson, List.forall_mem_nil _⟩

/-- No start of a record but the whole is read as one. -/
theorem parse?_take (r : Record) {n : Nat} (short : n < r.render.length) :
    parse? (r.render.take n) = none := by
  have torn : Json.parse? (r.render.take n) = none := parse?_take_object r.written_toJson short
  rw [parse?, torn]
  rfl

end Record

end HeaviestChain
