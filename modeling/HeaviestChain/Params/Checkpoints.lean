import HeaviestChain.Hash.Basic

/-!
Checkpoints: the hashes that headers at some heights must have, ascending by height.
-/

namespace HeaviestChain

/-- A hash for each of finitely many heights. -/
@[ext]
structure Checkpoints where
  entries : List (UInt32 × Hash)
  ascending : entries.Pairwise fun a b => a.1 < b.1
  deriving DecidableEq

namespace Checkpoints

/-- No checkpoints. -/
def empty : Checkpoints := ⟨[], .nil⟩

/-- Puts an entry at its place; it takes the place of one at the same height. -/
def insertEntry (height : UInt32) (hash : Hash) : List (UInt32 × Hash) → List (UInt32 × Hash)
  | [] => [(height, hash)]
  | e :: rest =>
    if height < e.1 then (height, hash) :: e :: rest
    else if height = e.1 then (height, hash) :: rest
    else e :: insertEntry height hash rest

theorem eq_or_mem_of_mem_insertEntry {height : UInt32} {hash : Hash} {e : UInt32 × Hash}
    {entries : List (UInt32 × Hash)} (h : e ∈ insertEntry height hash entries) :
    e = (height, hash) ∨ e ∈ entries := by
  fun_induction insertEntry height hash entries with
  | case1 => simpa using h
  | case2 => simpa using h
  | case3 =>
    rcases List.mem_cons.1 h with h | h
    · exact .inl h
    · exact .inr (.tail _ h)
  | case4 d rest _ _ ih =>
    rcases List.mem_cons.1 h with rfl | h
    · exact .inr (.head _)
    · exact (ih h).imp_right (.tail _)

theorem pairwise_insertEntry {height : UInt32} {hash : Hash} {entries : List (UInt32 × Hash)}
    (h : entries.Pairwise fun a b => a.1 < b.1) :
    (insertEntry height hash entries).Pairwise fun a b => a.1 < b.1 := by
  fun_induction insertEntry height hash entries with
  | case1 => simp
  | case2 d rest lt =>
    refine .cons (fun e he => ?_) h
    rcases List.mem_cons.1 he with rfl | he
    · exact lt
    · exact UInt32.lt_trans lt ((List.pairwise_cons.1 h).1 e he)
  | case3 d rest _ eq =>
    refine .cons (fun e he => ?_) (List.pairwise_cons.1 h).2
    simpa [eq] using (List.pairwise_cons.1 h).1 e he
  | case4 d rest nlt ne ih =>
    have gt : d.1 < height := UInt32.lt_of_le_of_ne (UInt32.not_lt.1 nlt) (Ne.symm ne)
    refine .cons (fun e he => ?_) (ih (List.pairwise_cons.1 h).2)
    rcases eq_or_mem_of_mem_insertEntry he with rfl | he
    · exact gt
    · exact (List.pairwise_cons.1 h).1 e he

/-- Sets the hash at a height. -/
def insert (c : Checkpoints) (height : UInt32) (hash : Hash) : Checkpoints :=
  ⟨insertEntry height hash c.entries, pairwise_insertEntry c.ascending⟩

/-- The hash at a height. -/
def find? (c : Checkpoints) (height : UInt32) : Option Hash :=
  (c.entries.find? fun e => e.1 = height).map (·.2)

/-- The checkpoints of a list; of two at one height the later stays. -/
def ofList (entries : List (UInt32 × Hash)) : Checkpoints :=
  entries.foldl (fun c e => c.insert e.1 e.2) empty

end Checkpoints

end HeaviestChain
