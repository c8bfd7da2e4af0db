import HeaviestChain.Proofs.Hash.Text
import HeaviestChain.Record.Json
import Mathlib.Algebra.Group.Nat.Defs

/-!
Headers and records as JSON: what is written is read back.
-/

namespace HeaviestChain

open Json Json.Value

namespace Header

theorem named_fields : Named fieldNames := ⟨by decide, by decide⟩

theorem written_toJson (h : Header) : h.toJson.Written := by
  refine written_ofFields named_fields ?_
  simp only [List.forall_mem_cons]
  exact ⟨written_ofNat _, h.previous.written_toJson, h.merkleRoot.written_toJson, written_ofNat _,
    written_ofNat _, written_ofNat _, List.forall_mem_nil _⟩

@[simp]
theorem ofJson?_toJson (h : Header) : ofJson? h.toJson = some h := by
  have fields : h.toJson.record? fieldNames = some _ := record?_ofFields named_fields
  rw [ofJson?, fields]
  simp

end Header

namespace Work

theorem valueOf_wordsOf (count n : Nat) :
    valueOf (wordsOf count n) = n % UInt64.size ^ count := by
  induction count generalizing n with
  | zero => simp [wordsOf, valueOf, Nat.mod_one]
  | succ count ih =>
    have low : (UInt64.ofNat n).toNat = n % UInt64.size := UInt64.toNat_ofNat'
    rw [wordsOf, valueOf, ih, low, Nat.pow_succ', Nat.mod_mul (x := n) (a := UInt64.size)]

theorem length_wordsOf (count n : Nat) : (wordsOf count n).length = count := by
  induction count generalizing n with
  | zero => rfl
  | succ count ih => rw [wordsOf, List.length_cons, ih]

theorem ofWords_words (w : Work) : ofWords w.words = w := by
  have bound : UInt64.size ^ 8 = Work.bound := by decide
  have small : w.toNat % Work.bound = w.toNat := Nat.mod_eq_of_lt w.toNat_lt
  apply Work.ext
  rw [ofWords, words, valueOf_wordsOf, bound, small, toNat_ofNat_of_lt w.toNat_lt]

theorem written_toJson (w : Work) : w.toJson.Written := by
  refine .array ?_
  rintro _ m
  obtain ⟨word, -, rfl⟩ := List.mem_map.1 m
  exact written_ofNat _

theorem mapM_uInt64? (words : List UInt64) :
    (words.map Value.ofUInt64).mapM Value.uInt64? = some words := by
  induction words with
  | nil => rfl
  | cons word words ih =>
    rw [List.map_cons, List.mapM_cons, uInt64?_ofUInt64, ih]
    rfl

@[simp]
theorem ofJson?_toJson (w : Work) : ofJson? w.toJson = some w := by
  have length : (w.words.map Value.ofUInt64).length = 8 := by
    rw [List.length_map]
    exact length_wordsOf 8 _
  have items : w.toJson.items? = some (w.words.map Value.ofUInt64) := rfl
  simp only [ofJson?, items, length, if_true, mapM_uInt64?, Option.map_some, ofWords_words]

end Work

namespace Record

theorem named_fields : Named fieldNames := ⟨by decide, by decide⟩

theorem written_toJson (r : Record) : r.toJson.Written := by
  refine written_ofFields named_fields ?_
  simp only [List.forall_mem_cons]
  exact ⟨r.header.written_toJson, written_ofNat _, r.work.written_toJson, List.forall_mem_nil _⟩

@[simp]
theorem ofJson?_toJson (r : Record) : ofJson? r.toJson = some r := by
  have fields : r.toJson.record? fieldNames = some _ := record?_ofFields named_fields
  rw [ofJson?, fields]
  simp

/-- The text of a record is read back. -/
theorem parse?_render (r : Record) : parse? r.render = some r := by
  have read : Json.parse? r.toJson.render = some r.toJson := parse?_render_object r.written_toJson
  rw [parse?, render, read, Option.bind_some, ofJson?_toJson]

end Record

end HeaviestChain
