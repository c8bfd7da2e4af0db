import HeaviestChain.Proofs.Hash.Grammar
import HeaviestChain.Proofs.Record.Framing
import HeaviestChain.Service.Request
import Mathlib.Data.List.TakeWhile

/-!
Requests that a client writes. Every header can be posted as JSON, and every text of hexadecimal
digits can be looked up as a hash.
-/

namespace HeaviestChain

namespace Path

variable {kept : List Nat} {text : List Char}

theorem unescape_of_no_percent {bs : List UInt8} (plain : ∀ b ∈ bs, b.toNat ≠ 0x25) :
    unescape kept bs = bs := by
  fun_induction unescape kept bs with
  | case1 p _ _ _ _ _ _ _ percent => exact absurd percent (plain p List.mem_cons_self)
  | case2 p _ _ _ _ _ _ _ percent => exact absurd percent (plain p List.mem_cons_self)
  | case3 p _ _ _ _ ih => rw [ih fun b m => plain b (List.mem_cons_of_mem p m)]
  | case4 => rfl

/-- Whether a character stands for itself in a path. -/
def IsPlain (c : Char) : Prop := c.toNat < 128 ∧ c ≠ '%' ∧ endsPath c = false

instance (c : Char) : Decidable (IsPlain c) := inferInstanceAs (Decidable (_ ∧ _))

theorem decode_of_plain (plain : ∀ c ∈ text, IsPlain c) : decode kept text = text := by
  have ascii : Utf8.Ascii text := fun c m => (plain c m).1
  have bytes : ∀ b ∈ Utf8.encode text, b.toNat ≠ 0x25 := by
    rw [Utf8.encode_of_ascii ascii]
    intro b m percent
    obtain ⟨c, mc, rfl⟩ := List.mem_map.1 m
    rw [Utf8.toNat_toUInt8 (ascii c mc)] at percent
    exact (plain c mc).2.1 (Char.toNat_inj.1 percent)
  rw [decode, unescape_of_no_percent bytes, Utf8.decodeLenient_encode ascii]

theorem value_of_plain (plain : ∀ c ∈ text, IsPlain c) : value (String.ofList text) = text := by
  rw [value, String.toList_ofList, decode_of_plain plain]

/-- The segments of a plain path are its parts. -/
theorem segments_of_plain (plain : ∀ c ∈ text, IsPlain c) (whole : fromPath text = text) :
    segments (String.ofList text) = (split text).map String.ofList := by
  have inside : text.takeWhile (fun c => !endsPath c) = text := by
    rw [List.takeWhile_eq_self_iff]
    intro c m
    rw [(plain c m).2.2]
    rfl
  rw [segments, String.toList_ofList, whole, inside, decode_of_plain plain]

theorem split_cons_of_ne {c : Char} {part : List Char} {rest : List (List Char)}
    (inside : c ≠ '/') (e : split text = part :: rest) :
    split (c :: text) = (c :: part) :: rest := by
  rw [split, List.foldr_cons, ← split, e]
  split
  · exact absurd rfl inside
  · rename_i empty
    cases empty
  · rename_i same
    cases same
    rfl

/-- A part ends at the first slash. -/
theorem split_append (whole : '/' ∉ text) (rest : List Char) :
    split (text ++ '/' :: rest) = text :: split rest := by
  induction text with
  | nil => rfl
  | cons c text ih =>
    obtain ⟨other, later⟩ := not_or.1 fun m => whole (List.mem_cons.2 m)
    exact split_cons_of_ne (Ne.symm other) (ih later)

theorem segments_headers (plain : ∀ c ∈ text, IsPlain c) (whole : '/' ∉ text) :
    segments (String.ofList ("/api/v1/headers/".toList ++ text ++ ['/'])) =
      ["", "api", "v1", "headers", String.ofList text, ""] := by
  have fixed : ∀ c ∈ "/api/v1/headers/".toList, IsPlain c := List.all_iff_forall_prop.1 (by decide)
  have all : ∀ c ∈ "/api/v1/headers/".toList ++ text ++ ['/'], IsPlain c := by
    rw [List.forall_mem_append, List.forall_mem_append, List.forall_mem_singleton]
    exact ⟨⟨fixed, plain⟩, by decide⟩
  have tail : split (text ++ ['/']) = [text, []] := split_append whole []
  have parts : split ("/api/v1/headers/".toList ++ text ++ ['/']) =
      [[], "api".toList, "v1".toList, "headers".toList, text, []] := by
    show split ([] ++ '/' :: ("api".toList ++ '/' :: ("v1".toList ++ '/' ::
      ("headers".toList ++ '/' :: (text ++ ['/']))))) = _
    rw [split_append (by decide), split_append (by decide), split_append (by decide),
      split_append (by decide), tail]
  rw [segments_of_plain all rfl, parts]
  rfl

end Path

/-- A header takes few characters. -/
theorem Header.length_render_le (h : Header) : h.render.length ≤ 300 := by
  have digits (w : UInt32) : (Nat.toDigits 10 w.toNat).length ≤ 10 :=
    Nat.toDigits_length 10 _ 10 (by decide) (Nat.lt_trans w.toNat_lt (by decide))
  have version := digits h.version
  have time := digits h.time
  have bits := digits h.bits
  have nonce := digits h.nonce
  rw [h.render_eq, layout]
  simp only [Json.braced, Json.member, Json.quoted, List.intercalate, List.intersperse_cons_cons,
    List.intersperse_singleton, List.flatten_cons, List.flatten_nil, String.reduceToList,
    List.length_append, List.length_cons, List.length_nil, Hash.length_digits]
  omega

namespace Request

/-- Posts a header. -/
def posting (h : Header) : Request :=
  ⟨"POST", "/api/v1/headers/", some "application/json", String.ofList h.render⟩

/-- Looks a header up by a text. -/
def looking (text : List Char) : Request :=
  ⟨"GET", String.ofList ("/api/v1/headers/".toList ++ text ++ ['/']), none, ""⟩

/-- Every header can be submitted as JSON. -/
theorem query_posting (h : Header) : (posting h).query = .ok (.submit h) := by
  have json : MediaType.isJson "application/json" = true := by decide +kernel
  have segments : Path.segments "/api/v1/headers/" = ["", "api", "v1", "headers", ""] := by
    decide +kernel
  have fits : ¬bodyLimit < (String.ofList h.render).utf8ByteSize := by
    rw [Utf8.utf8ByteSize_of_ascii h.framed.ascii]
    have short := h.length_render_le
    have wide : 300 < bodyLimit := by decide
    omega
  have body : (posting h).header = .ok h := by
    simp only [header, posting, Option.any_some, json, Bool.not_true, Bool.false_eq_true,
      if_false, fits, String.toList_ofList, h.framed.whole]
  have target : (posting h).target = "/api/v1/headers/" := rfl
  rw [query, target, segments, body]
  rfl

/-- Every hash can be looked up in any letter case. -/
theorem query_looking {text : List Char} (long : text ≠ []) (digits : ∀ c ∈ text, c ∈ Hex.digits) :
    (looking text).query = .ok (.header (String.ofList text)) := by
  have known : ∀ c ∈ Hex.digits, Path.IsPlain c := List.all_iff_forall_prop.1 (by decide)
  have plain : ∀ c ∈ text, Path.IsPlain c := fun c m => known c (digits c m)
  have whole : '/' ∉ text := by
    intro m
    exact absurd (digits _ m) (by decide)
  have named : String.ofList text ≠ "" := by
    intro empty
    have short := congrArg String.toList empty
    rw [String.toList_ofList] at short
    exact long short
  have target : (looking text).target =
      String.ofList ("/api/v1/headers/".toList ++ text ++ ['/']) := rfl
  rw [query, target, Path.segments_headers plain whole]
  show (if String.ofList text = "" then _ else _) = _
  rw [if_neg named, Path.value_of_plain plain]

end Request

end HeaviestChain
