import HeaviestChain.Walk.Ancestry

/-!
Walks along a path. A path leads from a record to height zero, each record found as the parent of
the one before it. A walk for the latest records of a branch comes to the front of the path, and it
makes one lookup less than it comes to records.
-/

namespace HeaviestChain.Walk

@[simp]
theorem run_done {α : Type} (find : Hash → Option Record) (a : α) :
    (done a).run find = .ok a := rfl

/-- How many lookups a walk makes where `find` answers them. -/
def lookups {α : Type} (find : Hash → Option Record) : Walk α → Nat
  | done _ => 0
  | fail _ => 0
  | ask hash next => (next (find hash)).lookups find + 1

/-- Whether records lead from one to height zero, each found as the parent of the one before it and
one lower. -/
inductive Leads (find : Hash → Option Record) : Record → List Record → Prop where
  | low {r : Record} (zero : r.height = 0) : Leads find r [r]
  | next {p r : Record} {older : List Record} (found : find r.header.previous = some p)
      (lower : r.height.toNat = p.height.toNat + 1) (rest : Leads find p older) :
      Leads find r (r :: older)

variable {α β : Type} {find : Hash → Option Record} {p r : Record} {path : List Record}

@[simp]
theorem lookups_done (find : Hash → Option Record) (a : α) : (done a).lookups find = 0 := rfl

/-- A walk that goes on makes the lookups of both parts. -/
theorem lookups_bind_of_run_eq_ok {w : Walk α} {a : α} (e : w.run find = .ok a)
    (k : α → Walk β) : (w >>= k).lookups find = w.lookups find + (k a).lookups find := by
  show (w.andThen k).lookups find = _
  induction w with
  | done b =>
    obtain rfl := Except.ok.inj e
    exact (Nat.zero_add _).symm
  | fail f => cases e
  | ask hash next ih =>
    have rest := ih (find hash) e
    rw [andThen, lookups, lookups, rest]
    omega

theorem run_parentOf_of_find (found : find r.header.previous = some p) :
    (parentOf r).run find = .ok p := by
  rw [parentOf, run, found]
  rfl

theorem lookups_parentOf (found : find r.header.previous = some p) :
    (parentOf r).lookups find = 1 := by
  rw [parentOf, lookups, found]
  rfl

theorem Leads.length (leads : Leads find r path) : path.length = r.height.toNat + 1 := by
  induction leads with
  | low zero =>
    rw [zero]
    rfl
  | next _ lower _ ih => rw [List.length_cons, ih, lower]

theorem latestWithin_of_last {count : Nat} (last : count = 1 ∨ r.height = 0) (steps : Nat) :
    latestWithin steps count r = done [r] := by
  cases steps <;> simp only [latestWithin, last, if_true]

theorem latestWithin_succ {count : Nat} (more : count ≠ 1) (high : r.height ≠ 0) (steps : Nat) :
    latestWithin (steps + 1) count r = (do
      let above ← parentOf r
      let rest ← latestWithin steps (count - 1) above
      done (r :: rest)) := by
  simp only [latestWithin, more, high, or_self, if_false]

/-- The latest records are the front of the path, and a lookup leads to each but the first. -/
theorem Leads.latestWithin (leads : Leads find r path) {steps : Nat}
    (enough : r.height.toNat ≤ steps) (count : Nat) :
    (Walk.latestWithin steps count r).run find =
        .ok (if count = 0 then path else path.take count) ∧
      (Walk.latestWithin steps count r).lookups find + 1 =
        (if count = 0 then path else path.take count).length := by
  induction leads generalizing steps count with
  | low zero =>
    rw [latestWithin_of_last (.inr zero)]
    cases count <;> simp
  | @next p r older found lower rest ih =>
    by_cases last : count = 1
    · rw [latestWithin_of_last (.inl last)]
      simp [last]
    · have high : r.height ≠ 0 := by
        intro zero
        rw [zero] at lower
        cases lower
      obtain ⟨steps, rfl⟩ : ∃ n, steps = n + 1 := Nat.exists_eq_add_one.2 (by omega)
      have closer : p.height.toNat ≤ steps := by omega
      obtain ⟨run, lookups⟩ := ih closer (count - 1)
      have above := run_parentOf_of_find found
      -- the whole path is asked for by a count of zero, which stays zero
      have front : (if count = 0 then r :: older else (r :: older).take count) =
          r :: if count - 1 = 0 then older else older.take (count - 1) := by
        cases count with
        | zero => rfl
        | succ count =>
          have more : count ≠ 0 := fun none => last (by omega)
          simp [more]
      rw [latestWithin_succ last high, front, List.length_cons, ← lookups]
      constructor
      · rw [run_bind, above]
        show ((Walk.latestWithin steps (count - 1) p).andThen fun rest => done (r :: rest)).run
          find = _
        rw [run_andThen, run]
        rfl
      · rw [lookups_bind_of_run_eq_ok above, lookups_parentOf found,
          lookups_bind_of_run_eq_ok run, lookups_done]
        omega

/-- The latest records of a branch are the front of the path. -/
theorem Leads.latest (leads : Leads find r path) (stored count : Nat) :
    (Walk.latest stored count r).run find =
        .ok (if count = 0 then path else path.take count) ∧
      (Walk.latest stored count r).lookups find + 1 =
        (if count = 0 then path else path.take count).length :=
  leads.latestWithin (Nat.le_add_left _ _) count

end HeaviestChain.Walk
