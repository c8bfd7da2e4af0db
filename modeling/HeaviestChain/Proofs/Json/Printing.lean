import HeaviestChain.Json.Printer
import HeaviestChain.Json.Reader
import HeaviestChain.Proofs.Text.Decimal

/-!
What is printed. A value is written with plain tokens and whole numbers if none of its texts needs
an escape, and then it stands on one line.
-/

namespace HeaviestChain.Json

/-- A token without quotes, escapes and controls, which stands for itself. -/
def Token.Plain (token : List Char) : Prop := ∀ c ∈ token, c ≠ '\x22' ∧ c ≠ '\\' ∧ 32 ≤ c.toNat

instance (token : List Char) : Decidable (Token.Plain token) :=
  List.decidableBAll _ token

/-- A whole number in digits, without zeros in front. -/
inductive Numeral.Whole : List Char → Prop where
  | zero : Whole ['0']
  | digits {c : Char} {rest : List Char} (first : c ≠ '0') (all : ∀ d ∈ c :: rest, d.isDigit) :
      Whole (c :: rest)

/-- The values that are written with plain tokens and whole numbers. -/
inductive Value.Written : Value → Prop where
  | null : Written .null
  | bool (b : Bool) : Written (.bool b)
  | number {token : List Char} (whole : Numeral.Whole token) : Written (.number token)
  | text {token : List Char} (plain : Token.Plain token) : Written (.text token)
  | array {items : List Value} (values : ∀ v ∈ items, Written v) : Written (.array items)
  | object {fields : List (List Char × Value)} (keys : ∀ f ∈ fields, Token.Plain f.1)
      (values : ∀ f ∈ fields, Written f.2) : Written (.object fields)

theorem Numeral.whole_toDigits (n : Nat) : Whole (Nat.toDigits 10 n) := by
  by_cases none : n = 0
  · rw [none]
    exact .zero
  · obtain ⟨c, rest, e, first⟩ := Text.toDigits_eq_cons none
    have all : ∀ d ∈ Nat.toDigits 10 n, d.isDigit := fun d => Text.isDigit_of_mem_toDigits
    rw [e] at all ⊢
    exact .digits first all

theorem Value.written_ofNat (n : Nat) : (ofNat n).Written := .number (Numeral.whole_toDigits n)

/-- A text without controls. -/
def Shown (text : List Char) : Prop := ∀ c ∈ text, 32 ≤ c.toNat

variable {c : Char} {text rest : List Char} {v : Value}

@[simp]
theorem shown_nil : Shown [] := fun _ m => nomatch m

@[simp]
theorem shown_cons : Shown (c :: text) ↔ 32 ≤ c.toNat ∧ Shown text := List.forall_mem_cons

@[simp]
theorem shown_append : Shown (text ++ rest) ↔ Shown text ∧ Shown rest := List.forall_mem_append

theorem Shown.feed_not_mem (shown : Shown text) : '\n' ∉ text :=
  fun m => absurd (shown '\n' m) (by decide)

theorem Token.Plain.shown (plain : Token.Plain text) : Shown text := fun c m => (plain c m).2.2

theorem isDigit_shown (digit : c.isDigit) : 32 ≤ c.toNat := by
  have low : 48 ≤ c.toNat := (Char.isDigit_iff_toNat.1 digit).1
  omega

theorem Numeral.Whole.shown (whole : Numeral.Whole text) : Shown text := by
  cases whole with
  | zero => simp
  | digits _ all => exact fun c m => isDigit_shown (all c m)

/-- What holds of the comma and of the characters of the items holds of the characters between the
brackets. -/
theorem forall_mem_renderItems {P : Char → Prop} {items : List Value} (comma : P ',')
    (values : ∀ v ∈ items, ∀ c ∈ v.render, P c) : ∀ c ∈ renderItems items, P c := by
  induction items with
  | nil => exact List.forall_mem_nil P
  | cons v items ih =>
    have own := values v (List.mem_cons_self ..)
    have others := ih fun w m => values w (List.mem_cons_of_mem v m)
    cases items with
    | nil => exact own
    | cons w items =>
      rw [renderItems, List.forall_mem_append, List.forall_mem_cons]
      exact ⟨own, comma, others⟩

theorem forall_mem_renderFields {P : Char → Prop} {fields : List (List Char × Value)}
    (quote : P '\x22') (colon : P ':') (comma : P ',') (keys : ∀ f ∈ fields, ∀ c ∈ f.1, P c)
    (values : ∀ f ∈ fields, ∀ c ∈ f.2.render, P c) : ∀ c ∈ renderFields fields, P c := by
  induction fields with
  | nil => exact List.forall_mem_nil P
  | cons f fields ih =>
    have key := keys f (List.mem_cons_self ..)
    have own := values f (List.mem_cons_self ..)
    have others := ih (fun g m => keys g (List.mem_cons_of_mem f m))
      fun g m => values g (List.mem_cons_of_mem f m)
    cases fields with
    | nil =>
      simp only [renderFields, List.cons_append, List.forall_mem_append, List.forall_mem_cons]
      exact ⟨quote, key, quote, colon, own⟩
    | cons g fields =>
      simp only [renderFields, List.cons_append, List.append_assoc, List.forall_mem_append,
        List.forall_mem_cons]
      exact ⟨quote, key, quote, colon, own, comma, others⟩

/-- A written value stands on one line. -/
theorem Value.Written.shown (written : v.Written) : Shown v.render := by
  induction written with
  | null => simp [Value.render]
  | bool b => cases b <;> simp [Value.render]
  | number whole => exact whole.shown
  | text plain => simp [Value.render, plain.shown]
  | array _ ih =>
    have items := forall_mem_renderItems (by decide) ih
    simp [Value.render, show Shown _ from items]
  | object keys _ ih =>
    have fields := forall_mem_renderFields (by decide) (by decide) (by decide)
      (fun f m => (keys f m).shown) ih
    simp [Value.render, show Shown _ from fields]

theorem not_isBlank_of_isDigit (digit : c.isDigit) : isBlank c = false := by
  have space : c ≠ ' ' := by rintro rfl; cases digit
  have feed : c ≠ '\n' := by rintro rfl; cases digit
  have tab : c ≠ '\t' := by rintro rfl; cases digit
  have carriage : c ≠ '\r' := by rintro rfl; cases digit
  simp [isBlank, space, feed, tab, carriage]

/-- The first character of a value is no blank and closes no array. -/
theorem Value.Written.render_eq_cons (written : v.Written) :
    ∃ c rest, v.render = c :: rest ∧ isBlank c = false ∧ c ≠ ']' := by
  cases written with
  | null => exact ⟨_, _, rfl, rfl, by decide⟩
  | bool b => cases b <;> exact ⟨_, _, rfl, rfl, by decide⟩
  | number whole =>
    cases whole with
    | zero => exact ⟨_, _, rfl, rfl, by decide⟩
    | @digits d _ first all =>
      have digit : d.isDigit := all d (List.mem_cons_self ..)
      refine ⟨_, _, rfl, not_isBlank_of_isDigit digit, ?_⟩
      rintro rfl
      cases digit
  | text _ => exact ⟨_, _, rfl, rfl, by decide⟩
  | array _ => exact ⟨_, _, rfl, rfl, by decide⟩
  | object _ _ => exact ⟨_, _, rfl, rfl, by decide⟩

end HeaviestChain.Json
