import HeaviestChain.Json.Field
import HeaviestChain.Proofs.Json.Reading

/-!
Fields are read as they were written: whole numbers in their range, plain texts, and the fields of a
record by their names.
-/

namespace HeaviestChain.Json

variable {c : Char} {text : List Char}

namespace Token

theorem Plain.escapeOf (plain : Plain (c :: text)) : Token.escapeOf c = [c] := by
  obtain ⟨quote, slash, shown⟩ := plain c (List.mem_cons_self ..)
  have control (d : Char) (low : d.toNat < 32) : c ≠ d := by
    rintro rfl
    omega
  unfold Token.escapeOf
  rw [if_neg quote, if_neg slash, if_neg (control '\x08' (by decide)),
    if_neg (control '\x0c' (by decide)), if_neg (control '\n' (by decide)),
    if_neg (control '\r' (by decide)), if_neg (control '\t' (by decide)),
    if_neg (Nat.not_lt.2 shown)]

theorem Plain.escape (plain : Plain text) : Token.escape text = text := by
  induction text with
  | nil => rfl
  | cons c text ih =>
    have rest : text.flatMap Token.escapeOf = text := ih plain.tail
    rw [Token.escape, List.flatMap_cons, plain.escapeOf, rest]
    rfl

theorem Plain.unescape? (plain : Plain text) : Token.unescape? text = some text := by
  induction text with
  | nil => rfl
  | cons c text ih =>
    obtain ⟨-, slash, -⟩ := plain c (List.mem_cons_self ..)
    unfold Token.unescape?
    split
    · simp_all
    · simp_all
    · simp_all
    · rename_i e
      cases e
      rw [if_neg slash, ih plain.tail]
      rfl

end Token

namespace Value

theorem natural?_ofNat (n : Nat) : (ofNat n).natural? = some n := by
  have all : (Nat.toDigits 10 n).all Char.isDigit = true :=
    List.all_eq_true.2 fun c m => Text.isDigit_of_mem_toDigits m
  rw [ofNat, natural?, if_pos all, Text.valueOfDigits_toDigits]

@[simp]
theorem uInt32?_ofUInt32 (w : UInt32) : (ofUInt32 w).uInt32? = some w := by
  rw [ofUInt32, uInt32?, natural?_ofNat, Option.bind_some, if_pos w.toNat_lt, UInt32.ofNat_toNat]

@[simp]
theorem uInt64?_ofUInt64 (w : UInt64) : (ofUInt64 w).uInt64? = some w := by
  rw [ofUInt64, uInt64?, natural?_ofNat, Option.bind_some, if_pos w.toNat_lt, UInt64.ofNat_toNat]

theorem string?_ofString {s : String} (plain : Token.Plain s.toList) :
    (ofString s).string? = some s := by
  rw [ofString, string?, characters?, plain.escape, plain.unescape?, Option.map_some,
    String.ofList_toList]

theorem written_ofString {s : String} (plain : Token.Plain s.toList) : (ofString s).Written := by
  rw [ofString, plain.escape]
  exact .text plain

variable {fields : List (String × Value)}

/-- Whether names of fields differ and need no escapes. -/
structure Named (names : List String) : Prop where
  plain : ∀ name ∈ names, Token.Plain name.toList
  nodup : names.Nodup

theorem Named.plain_key (named : Named (fields.map (·.1))) {f : String × Value} (m : f ∈ fields) :
    Token.Plain f.1.toList :=
  named.plain f.1 (List.mem_map_of_mem m)

theorem written_ofFields (named : Named (fields.map (·.1))) (values : ∀ f ∈ fields, f.2.Written) :
    (ofFields fields).Written := by
  refine .object ?_ ?_
  · rintro _ m
    obtain ⟨f, mf, rfl⟩ := List.mem_map.1 m
    show Token.Plain (Token.escape f.1.toList)
    rw [(named.plain_key mf).escape]
    exact named.plain_key mf
  · rintro _ m
    obtain ⟨f, mf, rfl⟩ := List.mem_map.1 m
    exact values f mf

theorem readKeys?_of_plain (plain : ∀ f ∈ fields, Token.Plain f.1.toList) :
    readKeys? (fields.map fun f => (Token.escape f.1.toList, f.2)) =
      some (fields.map fun f => (f.1.toList, f.2)) := by
  induction fields with
  | nil => rfl
  | cons f fields ih =>
    have own := plain f (List.mem_cons_self ..)
    rw [List.map_cons, readKeys?, own.escape, own.unescape?,
      ih fun g m => plain g (List.mem_cons_of_mem f m)]
    rfl

theorem only?_of_mem (nodup : (fields.map (·.1)).Nodup) {f : String × Value} (m : f ∈ fields) :
    only? (fields.map fun f => (f.1.toList, f.2)) f.1.toList = some f.2 := by
  have one : fields.filter (fun g => g.1.toList = f.1.toList) = [f] := by
    induction fields with
    | nil => cases m
    | cons g fields ih =>
      obtain ⟨apart, nodup⟩ := List.nodup_cons.1 nodup
      by_cases same : g.1 = f.1
      · have others : ∀ x ∈ fields, ¬x.1.toList = f.1.toList := by
          intro x mx e
          have e : x.1 = g.1 := (String.toList_inj.1 e).trans same.symm
          exact apart (List.mem_map.2 ⟨x, mx, e⟩)
        obtain rfl | m := List.mem_cons.1 m
        · simpa using others
        · exact absurd rfl (others f m)
      · obtain rfl | m := List.mem_cons.1 m
        · exact absurd rfl same
        · have apart : ¬g.1.toList = f.1.toList := fun e => same (String.toList_inj.1 e)
          simpa [apart] using ih nodup m
  have found : (fields.map fun f => (f.1.toList, f.2)).filter (fun g => g.1 = f.1.toList) =
      [(f.1.toList, f.2)] := by
    rw [List.filter_map]
    show (fields.filter (fun g => g.1.toList = f.1.toList)).map _ = _
    rw [one]
    rfl
  rw [only?, found]

theorem mapM_only? (nodup : (fields.map (·.1)).Nodup) {part : List (String × Value)}
    (sub : ∀ f ∈ part, f ∈ fields) :
    (part.map (·.1)).mapM (fun name => only? (fields.map fun f => (f.1.toList, f.2)) name.toList) =
      some (part.map (·.2)) := by
  induction part with
  | nil => rfl
  | cons f rest ih =>
    rw [List.map_cons, List.mapM_cons, only?_of_mem nodup (sub f (List.mem_cons_self ..)),
      ih fun g m => sub g (List.mem_cons_of_mem f m)]
    rfl

/-- The fields of a record are found by their names. -/
theorem record?_ofFields (named : Named (fields.map (·.1))) :
    (ofFields fields).record? (fields.map (·.1)) = some (fields.map (·.2)) := by
  rw [ofFields, record?, readKeys?_of_plain fun _ m => named.plain_key m, Option.bind_some]
  exact mapM_only? named.nodup fun _ m => m

end Value

end HeaviestChain.Json
