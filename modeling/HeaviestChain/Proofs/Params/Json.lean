import HeaviestChain.Params.Json
import HeaviestChain.Proofs.Json.Numeral
import HeaviestChain.Proofs.Record.Json
import Mathlib.Data.List.Induction

/-!
Parameters as JSON: what is written is read back, the rule for minimum difficulty by its kind and
checkpoints by their heights.
-/

namespace HeaviestChain

open Json Json.Value

namespace Network

theorem plain_name (n : Network) : Token.Plain n.name.toList := by
  cases n <;> decide

@[simp]
theorem ofName?_name (n : Network) : ofName? n.name = some n := by
  cases n <;> rfl

theorem written_toJson (n : Network) : n.toJson.Written := written_ofString n.plain_name

@[simp]
theorem ofJson?_toJson (n : Network) : ofJson? n.toJson = some n := by
  have read := n.plain_name.unescape?
  rw [toJson, ofString, n.plain_name.escape, ofJson?, read, Option.bind_some, String.ofList_toList,
    ofName?_name]

end Network

namespace MinDifficulty

theorem named_fields : Named ["kind", "max_gap_secs"] := ⟨by decide, by decide⟩

theorem written_toJson (m : MinDifficulty) : m.toJson.Written := by
  cases m with
  | disabled =>
    have named : Named ["kind"] := ⟨by decide, by decide⟩
    refine written_ofFields named ?_
    simp only [List.forall_mem_cons]
    exact ⟨written_ofString (by decide), List.forall_mem_nil _⟩
  | afterGap gap =>
    refine written_ofFields named_fields ?_
    simp only [List.forall_mem_cons]
    exact ⟨written_ofString (by decide), written_ofNat _, List.forall_mem_nil _⟩

/-- The rule is read by its kind; the gap is kept until the kind is known. -/
@[simp]
theorem ofJson?_toJson (m : MinDifficulty) : ofJson? m.toJson = some m := by
  cases m with
  | disabled => rfl
  | afterGap gap =>
    -- by computation alone the gap's digits would be opened to see whether they are plain
    have plain : ∀ f ∈ [("kind", ofString "allow_after_gap"), ("max_gap_secs", ofUInt32 gap)],
        Token.Plain f.1.toList := fun _ m => named_fields.plain _ (List.mem_map_of_mem m)
    have kind : only? [("kind".toList, ofString "allow_after_gap"),
        ("max_gap_secs".toList, ofUInt32 gap)] "kind".toList =
          some (ofString "allow_after_gap") := rfl
    have word : (ofString "allow_after_gap").string? = some "allow_after_gap" := rfl
    have others : [("kind".toList, ofString "allow_after_gap"),
        ("max_gap_secs".toList, ofUInt32 gap)].filter (fun f => f.1 ≠ "kind".toList) =
          [("max_gap_secs".toList, ofUInt32 gap)] := rfl
    have found : only? [("max_gap_secs".toList, ofUInt32 gap)] "max_gap_secs".toList =
      some (ofUInt32 gap) := rfl
    rw [toJson, ofFields, ofJson?, readKeys?_of_plain plain]
    simp only [List.map_cons, List.map_nil, Option.bind_eq_bind, Option.bind_some, kind, word,
      others, found]
    simp [isPlain_ofUInt32]

end MinDifficulty

namespace Checkpoints

theorem insertEntry_of_above {height : UInt32} {hash : Hash} {entries : List (UInt32 × Hash)}
    (above : ∀ e ∈ entries, e.1 < height) :
    insertEntry height hash entries = entries ++ [(height, hash)] := by
  induction entries with
  | nil => rfl
  | cons e entries ih =>
    have below : e.1 < height := above e (List.mem_cons_self ..)
    have differs : height ≠ e.1 := (UInt32.ne_of_lt below).symm
    rw [insertEntry, if_neg (UInt32.lt_asymm below), if_neg differs,
      ih fun d m => above d (List.mem_cons_of_mem e m)]
    rfl

theorem entries_ofList {entries : List (UInt32 × Hash)}
    (ascending : entries.Pairwise fun a b => a.1 < b.1) : (ofList entries).entries = entries := by
  induction entries using List.reverseRecOn with
  | nil => rfl
  | append_singleton entries e ih =>
    obtain ⟨earlier, -, above⟩ := List.pairwise_append.1 ascending
    have last : ∀ d ∈ entries, d.1 < e.1 := fun d m => above d m e (List.mem_singleton_self e)
    rw [ofList, List.foldl_append]
    show insertEntry e.1 e.2 (ofList entries).entries = _
    rw [ih earlier, insertEntry_of_above last]

theorem ofList_entries (c : Checkpoints) : ofList c.entries = c :=
  Checkpoints.ext (entries_ofList c.ascending)

/-- A height is read from its digits, which begin with zero only if there is one digit. -/
theorem height?_toDigits (height : UInt32) :
    height? (Nat.toDigits 10 height.toNat) = some height := by
  have read : (Value.number (Nat.toDigits 10 height.toNat)).uInt32? = some height :=
    uInt32?_ofUInt32 height
  have shape : ¬(Nat.toDigits 10 height.toNat = [] ∨ (1 < (Nat.toDigits 10 height.toNat).length ∧
      (Nat.toDigits 10 height.toNat).head? = some '0')) := by
    by_cases none : height.toNat = 0
    · rw [none]
      decide
    · obtain ⟨c, rest, e, first⟩ := Text.toDigits_eq_cons none
      simp [e, first]
  rw [height?, if_neg shape, read]

theorem plain_toDigits (n : Nat) : Token.Plain (Nat.toDigits 10 n) := by
  intro c m
  have digit := Text.isDigit_of_mem_toDigits m
  refine ⟨?_, ?_, isDigit_shown digit⟩
  · rintro rfl
    cases digit
  · rintro rfl
    cases digit

theorem written_toJson (c : Checkpoints) : c.toJson.Written := by
  refine .object ?_ ?_
  · rintro _ m
    obtain ⟨e, -, rfl⟩ := List.mem_map.1 m
    exact plain_toDigits _
  · rintro _ m
    obtain ⟨e, -, rfl⟩ := List.mem_map.1 m
    exact e.2.written_toJson

theorem mapM_entry? (entries : List (UInt32 × Hash)) :
    (entries.map fun e => (Nat.toDigits 10 e.1.toNat, e.2.toJson)).mapM entry? = some entries := by
  induction entries with
  | nil => rfl
  | cons e entries ih =>
    rw [List.map_cons, List.mapM_cons, ih, entry?, height?_toDigits, Hash.ofJson?_toJson]
    rfl

@[simp]
theorem ofJson?_toJson (c : Checkpoints) : ofJson? c.toJson = some c := by
  rw [toJson, ofJson?, mapM_entry?, Option.map_some, ofList_entries]

end Checkpoints

namespace Params

theorem named_fields : Named fieldNames := ⟨by decide +kernel, by decide⟩

theorem written_toJson (p : Params) : p.toJson.Written := by
  refine written_ofFields named_fields ?_
  simp only [List.forall_mem_cons]
  exact ⟨p.network.written_toJson, written_ofNat _, written_ofNat _, written_ofNat _,
    written_ofNat _, .bool _, p.minDifficulty.written_toJson, written_ofNat _, written_ofNat _,
    written_ofNat _, written_ofNat _, written_ofNat _, written_ofNat _, written_ofNat _,
    p.genesis.written_toJson, p.checkpoints.written_toJson, List.forall_mem_nil _⟩

@[simp]
theorem ofJson?_toJson (p : Params) : ofJson? p.toJson = some p := by
  have fields : p.toJson.record? fieldNames = some _ := record?_ofFields named_fields
  rw [ofJson?, fields]
  simp [bool?]

theorem parse?_render (p : Params) : parse? p.render = some p := by
  have read : Json.parse? p.toJson.render = some p.toJson := parse?_render_object p.written_toJson
  rw [parse?, render, read, Option.bind_some, ofJson?_toJson]

end Params

end HeaviestChain
