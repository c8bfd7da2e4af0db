import HeaviestChain.Proofs.Hash.Text
import Mathlib.Data.Bool.AllAny
import Mathlib.Data.Nat.Digits.Defs
import Mathlib.Tactic.Ring

/-!
The texts of hashes. A text is read exactly if it has 64 bytes that are all hexadecimal digits, of
either case; it is then the hash's number in base sixteen. Any other text is refused for its length
or for its first byte that is no digit.
-/

namespace HeaviestChain

namespace LittleEndian

theorem decode_append (low high : List UInt8) :
    decode (low ++ high) = decode low + 256 ^ low.length * decode high := by
  induction low with
  | nil => simp [decode]
  | cons b low ih =>
    rw [List.cons_append, decode, decode, ih, List.length_cons, Nat.pow_succ]
    ring

end LittleEndian

namespace Hex

/-- The hexadecimal digits of both cases. -/
def digits : List Char := "0123456789abcdefABCDEF".toList

/-- Whether a byte is a hexadecimal digit. -/
def IsDigit (b : UInt8) : Prop := b ∈ Utf8.encode digits

instance (b : UInt8) : Decidable (IsDigit b) := inferInstanceAs (Decidable (_ ∈ _))

/-- The value of a digit: its place among the lower-case ones. -/
def valueOf (c : Char) : Nat := "0123456789abcdef".toList.idxOf c.toLower

/-- The number that digits denote in base sixteen, most significant first. -/
def number (text : List Char) : Nat := Nat.ofDigits 16 (text.reverse.map valueOf)

/-- Whether a byte of a text is its first that is no digit, and at which place. -/
structure FirstBad (text : List UInt8) (bad : UInt8) (index : Nat) : Prop where
  place : text[index]? = some bad
  bad : ¬IsDigit bad
  before : ∀ b ∈ text.take index, IsDigit b

variable {c : Char} {text : List Char} {b other : UInt8} {bs : List UInt8} {index place : Nat}

/-! ### Single digits -/

/-- What the tables say of a digit. -/
structure Known (c : Char) : Prop where
  value : value? c.toNat = some (valueOf c)
  small : valueOf c < 16
  lower : digit (valueOf c) = c.toLower
  ascii : c.toNat < 128

theorem known_of_mem_digits (m : c ∈ digits) : Known c := by
  have all : ∀ c ∈ digits, value? c.toNat = some (valueOf c) ∧ valueOf c < 16 ∧
      digit (valueOf c) = c.toLower ∧ c.toNat < 128 := List.all_iff_forall_prop.1 (by decide)
  obtain ⟨value, small, lower, ascii⟩ := all c m
  exact ⟨value, small, lower, ascii⟩

theorem ascii_of_digits (all : ∀ c ∈ text, c ∈ digits) : Utf8.Ascii text :=
  fun c m => (known_of_mem_digits (all c m)).ascii

theorem value?_eq_none_iff (b : UInt8) : value? b.toNat = none ↔ ¬IsDigit b := by
  have all : ∀ n : Fin 256,
      value? (UInt8.ofNat n.val).toNat = none ↔ ¬IsDigit (UInt8.ofNat n.val) := by
    decide +kernel
  simpa using all ⟨b.toNat, b.toNat_lt⟩

theorem valueOf_digit {n : Nat} (small : n < 16) : valueOf (digit n) = n := by
  have all : ∀ m : Fin 16, valueOf (digit m.val) = m.val := by decide
  exact all ⟨n, small⟩

theorem valueOf_toLower (m : c ∈ digits) : valueOf c.toLower = valueOf c := by
  have all : ∀ c ∈ digits, valueOf c.toLower = valueOf c := List.all_iff_forall_prop.1 (by decide)
  exact all c m

/-- A character is a digit if its lower-case form is one. -/
theorem mem_digits_of_toLower {n : Nat} (small : n < 16) (e : c.toLower = digit n) :
    c ∈ digits := by
  have table : ∀ m : Fin 128, ∀ n : Fin 16, (Char.ofNat m.val).toLower = digit n.val →
      Char.ofNat m.val ∈ digits := by decide +kernel
  by_cases ascii : c.toNat < 128
  · have known := table ⟨c.toNat, ascii⟩ ⟨n, small⟩
    rw [Char.ofNat_toNat] at known
    exact known e
  · have same : c.toLower = c := by
      refine dif_neg ?_
      intro capital
      exact ascii (Nat.lt_of_le_of_lt (UInt32.le_iff_toNat_le.1 capital.2) (by decide))
    have low := ascii_digit small
    rw [← e, same] at low
    exact absurd low ascii

/-- A character is a digit if its bytes are. -/
theorem mem_digits_of_encode (all : ∀ b ∈ String.utf8EncodeChar c, IsDigit b) : c ∈ digits := by
  by_cases small : c.toNat < 128
  · have table : ∀ n : Fin 128,
        IsDigit (Char.ofNat n.val).val.toUInt8 → Char.ofNat n.val ∈ digits := by
      decide +kernel
    have known := table ⟨c.toNat, small⟩
    rw [Utf8.utf8EncodeChar_of_lt small] at all
    rw [Char.ofNat_toNat] at known
    exact known (all _ (List.mem_singleton_self _))
  · obtain ⟨b, rest, e, high⟩ := Utf8.exists_high_byte small
    have table : ∀ b ∈ Utf8.encode digits, b.toNat < 192 := List.all_iff_forall_prop.1 (by decide)
    have low : b.toNat < 192 := table b (all b (by rw [e]; exact List.mem_cons_self))
    omega

/-! ### Texts of digits -/

theorem isDigit_encode_iff : (∀ b ∈ Utf8.encode text, IsDigit b) ↔ ∀ c ∈ text, c ∈ digits := by
  constructor
  · intro all c m
    exact mem_digits_of_encode fun b mb => all b (List.mem_flatMap.2 ⟨c, m, mb⟩)
  · intro all b mb
    obtain ⟨c, m, mb⟩ := List.mem_flatMap.1 mb
    exact List.mem_flatMap.2 ⟨c, all c m, mb⟩

/-- Digits are read as the bytes whose lower-case digits they are. -/
theorem toBytes_of_digits (index : Nat) : ∀ text : List Char, (∀ c ∈ text, c ∈ digits) →
    text.length % 2 = 0 →
    ∃ out, toBytes index (Utf8.encode text) = .ok out ∧ ofBytes out = text.map Char.toLower
  | [], _, _ => ⟨[], rfl, rfl⟩
  | [_], _, even => by cases even
  | hi :: lo :: text, all, even => by
    obtain ⟨mh, all⟩ := List.forall_mem_cons.1 all
    obtain ⟨ml, all⟩ := List.forall_mem_cons.1 all
    have known := known_of_mem_digits mh
    have known' := known_of_mem_digits ml
    rw [List.length_cons, List.length_cons] at even
    obtain ⟨out, read, shown⟩ := toBytes_of_digits (index + 2) text all (by omega)
    refine ⟨UInt8.ofNat (16 * valueOf hi + valueOf lo) :: out, ?_, ?_⟩
    · rw [Utf8.encode_cons_of_lt known.ascii, Utf8.encode_cons_of_lt known'.ascii, toBytes,
        Utf8.toNat_toUInt8 known.ascii, Utf8.toNat_toUInt8 known'.ascii, known.value, known'.value]
      simp only [read]
    · have byte : (UInt8.ofNat (16 * valueOf hi + valueOf lo)).toNat =
          16 * valueOf hi + valueOf lo := by
        have small := known.small
        have small' := known'.small
        rw [UInt8.toNat_ofNat']
        omega
      have half : (16 * valueOf hi + valueOf lo) / 16 = valueOf hi := by
        have small' := known'.small
        omega
      have half' : (16 * valueOf hi + valueOf lo) % 16 = valueOf lo := by
        have small' := known'.small
        omega
      rw [ofBytes_cons, byte, half, half', known.lower, known'.lower, shown, List.map_cons,
        List.map_cons]

/-- A text is refused at its first byte that is no digit. -/
theorem toBytes_of_bad (bad : ¬IsDigit b) (index : Nat) : ∀ good rest : List UInt8,
    (∀ d ∈ good, IsDigit d) → (good ++ b :: rest).length % 2 = 0 →
    toBytes index (good ++ b :: rest) = .error (b, index + good.length)
  | [], [], _, even => by cases even
  | [], lo :: rest, _, _ => by
    rw [List.nil_append, toBytes, (value?_eq_none_iff b).2 bad]
    rfl
  | [hi], rest, all, _ => by
    have digit := all hi List.mem_cons_self
    rw [← not_not (a := IsDigit hi), ← value?_eq_none_iff] at digit
    obtain ⟨h, e⟩ := Option.ne_none_iff_exists'.1 digit
    rw [List.cons_append, List.nil_append, toBytes, e, (value?_eq_none_iff b).2 bad]
    rfl
  | hi :: lo :: good, rest, all, even => by
    obtain ⟨digit, all⟩ := List.forall_mem_cons.1 all
    obtain ⟨digit', all⟩ := List.forall_mem_cons.1 all
    rw [← not_not (a := IsDigit hi), ← value?_eq_none_iff] at digit
    rw [← not_not (a := IsDigit lo), ← value?_eq_none_iff] at digit'
    obtain ⟨h, e⟩ := Option.ne_none_iff_exists'.1 digit
    obtain ⟨l, e'⟩ := Option.ne_none_iff_exists'.1 digit'
    rw [List.cons_append, List.cons_append, List.length_cons, List.length_cons] at even
    have later := toBytes_of_bad bad (index + 2) good rest all (by omega)
    rw [List.cons_append, List.cons_append, toBytes, e, e']
    simp only [later, List.length_cons]
    rw [Nat.add_assoc, Nat.add_comm 2]

/-- A text is all digits or has a first byte that is none. -/
theorem digits_or_firstBad (bs : List UInt8) :
    (∀ b ∈ bs, IsDigit b) ∨ ∃ good bad rest, bs = good ++ bad :: rest ∧
      (∀ d ∈ good, IsDigit d) ∧ FirstBad bs bad good.length := by
  cases found : bs.find? fun b => ¬IsDigit b with
  | none =>
    left
    simpa using List.find?_eq_none.1 found
  | some bad =>
    right
    obtain ⟨no, good, rest, split, all⟩ := List.find?_eq_some_iff_append.1 found
    have all : ∀ d ∈ good, IsDigit d := by simpa using all
    refine ⟨good, bad, rest, split, all, ?_, by simpa using no, ?_⟩
    · simp [split]
    · intro d m
      rw [split, List.take_left] at m
      exact all d m

theorem FirstBad.not_lt (hb : FirstBad bs b index) (ho : FirstBad bs other place) :
    ¬index < place := by
  intro earlier
  obtain ⟨inside, e⟩ := List.getElem?_eq_some_iff.1 hb.place
  refine hb.bad (ho.before b (List.mem_take_iff_getElem.2 ⟨index, ?_, e⟩))
  omega

theorem FirstBad.unique (hb : FirstBad bs b index) (ho : FirstBad bs other place) :
    b = other ∧ index = place := by
  obtain rfl : index = place := by
    have := hb.not_lt ho
    have := ho.not_lt hb
    omega
  exact ⟨Option.some.inj (hb.place.symm.trans ho.place), rfl⟩

/-! ### Numbers -/

theorem number_map_toLower (all : ∀ c ∈ text, c ∈ digits) :
    number (text.map Char.toLower) = number text := by
  rw [number, number, ← List.map_reverse, List.map_map]
  congr 1
  apply List.map_congr_left
  intro c m
  exact valueOf_toLower (all c (List.mem_reverse.1 m))

/-- The digits of bytes denote the number whose last byte is the least significant. -/
theorem number_ofBytes (bs : List UInt8) :
    number (ofBytes bs) = LittleEndian.decode bs.reverse := by
  induction bs with
  | nil => rfl
  | cons b bs ih =>
    have split : (ofBytes (b :: bs)).reverse =
        (ofBytes bs).reverse ++ [digit (b.toNat % 16), digit (b.toNat / 16)] := by
      rw [ofBytes_cons, List.reverse_cons, List.reverse_cons, List.append_assoc]
      rfl
    have last : Nat.ofDigits 16 [b.toNat % 16, b.toNat / 16] = b.toNat := by
      rw [Nat.ofDigits_cons, Nat.ofDigits_singleton]
      exact Nat.mod_add_div _ _
    have width : 16 ^ (2 * bs.length) = 256 ^ bs.length := Nat.pow_mul 16 2 bs.length
    rw [number, split, List.map_append, Nat.ofDigits_append, ← number, ih, List.map_cons,
      List.map_singleton, valueOf_digit (low_lt b), valueOf_digit (high_lt b), last,
      List.length_map, List.length_reverse, length_ofBytes, width, List.reverse_cons,
      LittleEndian.decode_append, List.length_reverse]
    rfl

end Hex

namespace Hash

variable {s : String} {h : Hash}

theorem parseBytes_of_error {bs : List UInt8} {bad : UInt8} {index : Nat} (length : bs.length = 64)
    (read : Hex.toBytes 0 bs = .error (bad, index)) :
    parseBytes bs = .error (.badDigit bad index) := by
  unfold parseBytes
  rw [if_neg (by rw [length]; decide), dif_pos length]
  split
  · rename_i failed
    obtain ⟨rfl, rfl⟩ := Prod.mk.inj (Except.error.inj (read.symm.trans failed))
    rfl
  · rename_i found
    cases read.symm.trans found

/-- A hash is the number that its text denotes. -/
theorem number_render (h : Hash) : Hex.number h.render.toList = h.toNat := by
  rw [render, String.toList_ofList, digits, Hex.number_ofBytes, List.reverse_reverse]
  rfl

theorem render_injective {g : Hash} (e : g.render = h.render) : g = h := by
  have read := parse_render g
  rw [e, parse_render] at read
  exact (Except.ok.inj read).symm

/-- Whether a text has 64 bytes that are all digits. -/
structure IsText (s : String) : Prop where
  length : (Utf8.encode s.toList).length = 64
  digits : ∀ b ∈ Utf8.encode s.toList, Hex.IsDigit b

/-- The ways in which the reading of a text can end. -/
inductive Parses (s : String) : Except HexError Hash → Prop where
  | odd (length : (Utf8.encode s.toList).length % 2 = 1) : Parses s (.error .oddLength)
  | wrong (even : (Utf8.encode s.toList).length % 2 = 0)
      (length : (Utf8.encode s.toList).length ≠ 64) : Parses s (.error .wrongLength)
  | bad {bad : UInt8} {index : Nat} (length : (Utf8.encode s.toList).length = 64)
      (first : Hex.FirstBad (Utf8.encode s.toList) bad index) :
      Parses s (.error (.badDigit bad index))
  | read {h : Hash} (text : IsText s) (shown : h.render = s.toLower) : Parses s (.ok h)

theorem parses_parse (s : String) : Parses s (parse s) := by
  rw [parse]
  by_cases odd : (Utf8.encode s.toList).length % 2 = 1
  · rw [parseBytes, if_pos odd]
    exact .odd odd
  · by_cases length : (Utf8.encode s.toList).length = 64
    · have even : (Utf8.encode s.toList).length % 2 = 0 := by omega
      rcases Hex.digits_or_firstBad (Utf8.encode s.toList) with
        all | ⟨good, bad, rest, split, all, first⟩
      · have digits := Hex.isDigit_encode_iff.1 all
        have few : s.toList.length % 2 = 0 := by
          rwa [← Utf8.length_encode_of_ascii (Hex.ascii_of_digits digits)]
        obtain ⟨out, read, shown⟩ := Hex.toBytes_of_digits 0 s.toList digits few
        obtain ⟨h, e, bytes⟩ := parseBytes_of_ok length read
        rw [e]
        refine .read ⟨length, all⟩ ?_
        rw [render, Hash.digits, bytes, List.reverse_reverse, shown, ← String.toList_map,
          String.ofList_toList]
        rfl
      · rw [split] at even
        have read := Hex.toBytes_of_bad first.bad 0 good rest all even
        rw [← split, Nat.zero_add] at read
        rw [parseBytes_of_error length read]
        exact .bad length first
    · rw [parseBytes, if_neg odd, dif_neg length]
      exact .wrong (by omega) length

/-- A text of digits is read. -/
theorem IsText.exists_parse (text : IsText s) : ∃ h, parse s = .ok h ∧ h.render = s.toLower := by
  have length := text.length
  have parses := parses_parse s
  generalize parse s = result at parses
  cases parses with
  | odd odd => omega
  | wrong _ wrong => exact absurd length wrong
  | bad _ first => exact absurd (text.digits _ (List.mem_of_getElem? first.place)) first.bad
  | @read h _ shown => exact ⟨h, rfl, shown⟩

theorem isText_of_toLower (e : s.toLower = h.render) : IsText s := by
  have chars : s.toList.map Char.toLower = h.digits := by
    rw [← String.toList_map]
    show s.toLower.toList = h.digits
    rw [e, render, String.toList_ofList]
  have digits : ∀ c ∈ s.toList, c ∈ Hex.digits := by
    intro c m
    have shown : c.toLower ∈ h.digits := chars ▸ List.mem_map_of_mem m
    obtain ⟨n, small, same⟩ := Hex.mem_ofBytes shown
    exact Hex.mem_digits_of_toLower small same
  refine ⟨?_, Hex.isDigit_encode_iff.2 digits⟩
  rw [Utf8.length_encode_of_ascii (Hex.ascii_of_digits digits), ← List.length_map, chars,
    h.length_digits]

/-- The texts of a hash are the one that it is shown as, in any letter case. -/
theorem parse_eq_ok_iff : parse s = .ok h ↔ s.toLower = h.render := by
  constructor
  · intro read
    have parses := parses_parse s
    rw [read] at parses
    cases parses with
    | read _ shown => exact shown.symm
  · intro e
    obtain ⟨g, read, shown⟩ := (isText_of_toLower e).exists_parse
    rw [read, render_injective (shown.trans e)]

theorem exists_parse_eq_ok_iff : (∃ h, parse s = .ok h) ↔ IsText s := by
  constructor
  · rintro ⟨h, read⟩
    exact isText_of_toLower (parse_eq_ok_iff.1 read)
  · intro text
    obtain ⟨h, read, -⟩ := text.exists_parse
    exact ⟨h, read⟩

/-- Whether the reading of a text is what its bytes call for. -/
structure Classifies (s : String) (result : Except HexError Hash) : Prop where
  accepted : (∃ h, result = .ok h) ↔ IsText s
  read : ∀ h, result = .ok h → h.render = s.toLower ∧ h.toNat = Hex.number s.toList
  oddLength : result = .error .oddLength ↔ (Utf8.encode s.toList).length % 2 = 1
  wrongLength : result = .error .wrongLength ↔
    (Utf8.encode s.toList).length % 2 = 0 ∧ (Utf8.encode s.toList).length ≠ 64
  badDigit : ∀ bad index, result = .error (.badDigit bad index) ↔
    (Utf8.encode s.toList).length = 64 ∧ Hex.FirstBad (Utf8.encode s.toList) bad index

theorem IsText.number_eq (text : IsText s) (shown : h.render = s.toLower) :
    h.toNat = Hex.number s.toList := by
  have chars : s.toLower.toList = s.toList.map Char.toLower := String.toList_map
  rw [← number_render, shown, chars,
    Hex.number_map_toLower (Hex.isDigit_encode_iff.1 text.digits)]

section Parses

variable {result : Except HexError Hash}

theorem Parses.eq_oddLength_iff (parses : Parses s result) :
    result = .error .oddLength ↔ (Utf8.encode s.toList).length % 2 = 1 := by
  constructor
  · rintro rfl
    cases parses with
    | odd odd => exact odd
  · intro odd
    cases parses with
    | odd _ => rfl
    | wrong even _ => omega
    | bad length _ => omega
    | read text _ => have length := text.length; omega

theorem Parses.eq_wrongLength_iff (parses : Parses s result) :
    result = .error .wrongLength ↔
      (Utf8.encode s.toList).length % 2 = 0 ∧ (Utf8.encode s.toList).length ≠ 64 := by
  constructor
  · rintro rfl
    cases parses with
    | wrong even length => exact ⟨even, length⟩
  · rintro ⟨even, length⟩
    cases parses with
    | odd odd => omega
    | wrong _ _ => rfl
    | bad same _ => exact absurd same length
    | read text _ => exact absurd text.length length

theorem Parses.eq_badDigit_iff (parses : Parses s result) {bad : UInt8} {index : Nat} :
    result = .error (.badDigit bad index) ↔
      (Utf8.encode s.toList).length = 64 ∧ Hex.FirstBad (Utf8.encode s.toList) bad index := by
  constructor
  · rintro rfl
    cases parses with
    | bad length first => exact ⟨length, first⟩
  · rintro ⟨length, first⟩
    cases parses with
    | odd odd => omega
    | wrong _ wrong => exact absurd length wrong
    | bad _ other =>
      obtain ⟨rfl, rfl⟩ := other.unique first
      rfl
    | read text _ => exact absurd (text.digits _ (List.mem_of_getElem? first.place)) first.bad

end Parses

/-- A text is read exactly if it is 64 digits, as the hash that it is the number of; it is refused
for its length or for its first byte that is no digit; and what a hash is shown as is read back. -/
theorem texts_classified (s : String) (h : Hash) :
    Classifies s (parse s) ∧ parse h.render = .ok h := by
  have parses := parses_parse s
  refine ⟨⟨exists_parse_eq_ok_iff, ?_, parses.eq_oddLength_iff, parses.eq_wrongLength_iff,
    fun _ _ => parses.eq_badDigit_iff⟩, parse_render h⟩
  intro h read
  have shown := (parse_eq_ok_iff.1 read).symm
  exact ⟨shown, (isText_of_toLower shown.symm).number_eq shown⟩

end Hash

end HeaviestChain
