import HeaviestChain.Proofs.Record.Prefix

/-!
The texts of headers and records. Each is an object on one line of one-byte characters, with its
fields in a fixed order, decimal numbers and hashes as hexadecimal digits, last byte first. It is
read back as what was written, and no part of it that breaks off before its end is read at all.
-/

namespace HeaviestChain

namespace Json

/-! ### Layout -/

/-- A text between quotes. -/
def quoted (text : List Char) : List Char := '\x22' :: text ++ ['\x22']

/-- A name in quotes and a value with a colon between them. -/
def member (name : String) (value : List Char) : List Char := quoted name.toList ++ ':' :: value

/-- Members between braces, a comma between two of them. -/
def braced (members : List (List Char)) : List Char :=
  '\x7b' :: [','].intercalate members ++ ['\x7d']

/-- Items between brackets, a comma between two of them. -/
def bracketed (items : List (List Char)) : List Char := '[' :: [','].intercalate items ++ [']']

namespace Value

theorem renderItems_eq (items : List Value) :
    renderItems items = [','].intercalate (items.map render) := by
  induction items with
  | nil => rfl
  | cons v items ih =>
    cases items with
    | nil => simp [renderItems]
    | cons w items => simpa [renderItems, List.intercalate_cons_cons] using ih

theorem renderFields_eq (fields : List (List Char × Value)) :
    renderFields fields =
      [','].intercalate (fields.map fun f => quoted f.1 ++ ':' :: f.2.render) := by
  induction fields with
  | nil => rfl
  | cons f fields ih =>
    cases fields with
    | nil => simp [renderFields, quoted]
    | cons g fields => simpa [renderFields, List.intercalate_cons_cons, quoted] using ih

theorem render_array (items : List Value) :
    (array items).render = bracketed (items.map render) := by
  rw [render, renderItems_eq, bracketed]

theorem render_ofFields {fields : List (String × Value)} (named : Named (fields.map (·.1))) :
    (ofFields fields).render = braced (fields.map fun f => member f.1 f.2.render) := by
  have same : ∀ f ∈ fields, quoted (Token.escape f.1.toList) ++ ':' :: f.2.render =
      member f.1 f.2.render := by
    intro f m
    rw [(named.plain_key m).escape, member]
  rw [ofFields, render, renderFields_eq, List.map_map, braced]
  congr 3
  exact List.map_congr_left same

end Value

/-! ### Frames -/

/-- Whether a text of one line of one-byte characters is read back, and no start of it but the whole
is read. -/
structure Framed {α : Type} (render : α → List Char) (parse? : List Char → Option α) (a : α) :
    Prop where
  ascii : Utf8.Ascii (render a)
  noFeed : '\n' ∉ render a
  noReturn : '\r' ∉ render a
  whole : parse? (render a) = some a
  torn : ∀ start, start <+: render a → start ≠ render a → parse? start = none

theorem Shown.return_not_mem {text : List Char} (shown : Shown text) : '\r' ∉ text := by
  intro m
  exact absurd (shown '\r' m) (by decide)

/-- What is written as an object and read from it is framed by its braces. -/
theorem framed_of_object {α : Type} {toJson : α → Value} {ofJson? : Value → Option α} {a : α}
    {fields : List (List Char × Value)} (object : toJson a = .object fields)
    (written : (toJson a).Written) (ascii : Utf8.Ascii (toJson a).render)
    (read : ofJson? (toJson a) = some a) :
    Framed (fun a => (toJson a).render) (fun text => (parse? text).bind ofJson?) a where
  ascii := ascii
  noFeed := written.shown.feed_not_mem
  noReturn := written.shown.return_not_mem
  whole := by
    rw [object] at written read ⊢
    rw [parse?_render_object written, Option.bind_some, read]
  torn := by
    intro start front rest
    rw [object] at written front rest
    have short : start.length < (Value.object fields).render.length :=
      Nat.lt_of_le_of_ne front.length_le (mt front.eq_of_length rest)
    rw [List.prefix_iff_eq_take.1 front, parse?_take_object written short, Option.bind_none]

end Json

open Json

namespace Hash

theorem render_toJson (h : Hash) : h.toJson.render = quoted h.digits := by
  rw [toJson, Value.ofString, h.plain_render.escape, Value.render, render, String.toList_ofList,
    quoted]

end Hash

namespace Header

theorem framed (h : Header) : Framed render parse? h :=
  framed_of_object rfl h.written_toJson h.ascii_toJson h.ofJson?_toJson

/-- The text of a header, field by field. -/
def layout (h : Header) : List Char :=
  braced
    [member "version" (Nat.toDigits 10 h.version.toNat),
     member "prev_hash" (quoted h.previous.digits),
     member "merkle_root" (quoted h.merkleRoot.digits),
     member "time" (Nat.toDigits 10 h.time.toNat),
     member "bits" (Nat.toDigits 10 h.bits.toNat),
     member "nonce" (Nat.toDigits 10 h.nonce.toNat)]

theorem render_eq (h : Header) : h.render = h.layout := by
  have fields : h.toJson.render = braced _ := Value.render_ofFields named_fields
  simp only [List.map_cons, List.map_nil, Hash.render_toJson] at fields
  exact fields

end Header

namespace Work

theorem valueOf_lt (words : List UInt64) : valueOf words < UInt64.size ^ words.length := by
  induction words with
  | nil => exact Nat.one_pos
  | cons word words ih =>
    have low : word.toNat < UInt64.size := word.toNat_lt
    rw [valueOf, List.length_cons, Nat.pow_succ']
    calc word.toNat + UInt64.size * valueOf words
        < UInt64.size * (valueOf words + 1) := by rw [Nat.mul_add]; omega
      _ ≤ UInt64.size * UInt64.size ^ words.length := Nat.mul_le_mul_left _ ih

theorem wordsOf_valueOf (words : List UInt64) : wordsOf words.length (valueOf words) = words := by
  induction words with
  | nil => rfl
  | cons word words ih =>
    have low : word.toNat < UInt64.size := word.toNat_lt
    have first : UInt64.ofNat (word.toNat + UInt64.size * valueOf words) = word := by
      apply UInt64.toNat_inj.1
      rw [UInt64.toNat_ofNat']
      exact (Nat.add_mul_mod_self_left _ _ _).trans (Nat.mod_eq_of_lt low)
    have rest : (word.toNat + UInt64.size * valueOf words) / UInt64.size = valueOf words := by
      rw [Nat.add_mul_div_left _ _ (by decide), Nat.div_eq_of_lt low, Nat.zero_add]
    rw [List.length_cons, wordsOf, valueOf, first, rest, ih]

/-- Any eight words are the words of some work. -/
theorem words_ofWords {words : List UInt64} (eight : words.length = 8) :
    (ofWords words).words = words := by
  have small : valueOf words < bound := by
    have below := valueOf_lt words
    rw [eight] at below
    exact below
  rw [Work.words, ofWords, toNat_ofNat_of_lt small, ← eight, wordsOf_valueOf]

theorem render_toJson (w : Work) :
    w.toJson.render = bracketed (w.words.map fun word => Nat.toDigits 10 word.toNat) := by
  rw [toJson, Value.render_array, List.map_map]
  rfl

end Work

namespace Record

theorem framed (r : Record) : Framed render parse? r :=
  framed_of_object rfl r.written_toJson r.ascii_render r.ofJson?_toJson

/-- The text of a record, field by field. -/
def layout (r : Record) : List Char :=
  braced
    [member "header" r.header.layout,
     member "height" (Nat.toDigits 10 r.height.toNat),
     member "chain_work" (bracketed (r.work.words.map fun word => Nat.toDigits 10 word.toNat))]

theorem render_eq (r : Record) : r.render = r.layout := by
  have fields : r.toJson.render = braced _ := Value.render_ofFields named_fields
  have header : r.header.toJson.render = r.header.layout := r.header.render_eq
  simp only [List.map_cons, List.map_nil, Work.render_toJson, header] at fields
  exact fields

/-- Records and headers survive their texts, which stand on one line each with all fields in order,
and no part of a text that breaks off is read as a record or a header. The words of a record's work
are any eight. -/
theorem texts_framed :
    (∀ r : Record, Framed render parse? r ∧ r.render = r.layout) ∧
      (∀ h : Header, Framed Header.render Header.parse? h ∧ h.render = h.layout) ∧
      ∀ words : Vector UInt64 8, ∃ w : Work, w.words = words.toList := by
  refine ⟨fun r => ⟨r.framed, r.render_eq⟩, fun h => ⟨h.framed, h.render_eq⟩, ?_⟩
  intro words
  exact ⟨_, Work.words_ofWords words.length_toList⟩

end Record

end HeaviestChain
