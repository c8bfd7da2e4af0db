import HeaviestChain.Record.Basic
import HeaviestChain.Store.Error

/-!
Computations that look headers up by hash. A walk is the tree of its questions: the hash it asks
for next and what it does with either answer. Over a fixed way to look headers up a walk has one
result; a store that fails may end it at any question.
-/

namespace HeaviestChain

/-- A result, a failure, or a question and what follows its answer. -/
inductive Walk (α : Type) where
  | done (a : α)
  | fail (e : Failure)
  | ask (hash : Hash) (next : Option Record → Walk α)

namespace Walk

/-- Goes on with the result of a walk. -/
def andThen {α β : Type} : Walk α → (α → Walk β) → Walk β
  | done a, k => k a
  | fail e, _ => fail e
  | ask hash next, k => ask hash fun r => (next r).andThen k

instance : Monad Walk where
  pure := done
  bind := andThen

/-- The result where `find` answers every question. -/
def run {α : Type} (find : Hash → Option Record) : Walk α → Except Failure α
  | done a => .ok a
  | fail e => .error e
  | ask hash next => (next (find hash)).run find

/-- A result without a question. -/
def ofTrap {α : Type} : Except Trap α → Walk α
  | .ok a => done a
  | .error t => fail (.trap t)

/-- Gives up on contents. -/
def corrupt {α : Type} (c : Corruption) : Walk α := fail (.store (.corrupt c))

theorem run_andThen {α β : Type} (find : Hash → Option Record) (w : Walk α) (k : α → Walk β) :
    (w.andThen k).run find = (w.run find).bind fun a => (k a).run find := by
  induction w with
  | done a => rfl
  | fail e => rfl
  | ask hash next ih => exact ih (find hash)

@[simp]
theorem run_bind {α β : Type} (find : Hash → Option Record) (w : Walk α) (k : α → Walk β) :
    (w >>= k).run find = (w.run find).bind fun a => (k a).run find :=
  run_andThen find w k

@[simp]
theorem run_pure {α : Type} (find : Hash → Option Record) (a : α) :
    (pure a : Walk α).run find = .ok a := rfl

end Walk

end HeaviestChain
