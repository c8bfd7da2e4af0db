import HeaviestChain.Proofs.Rules.Seeding

/-!
What versions signal. A window that is full of a history enforces a version by how many of the
latest versions reach it, and calls one outdated by how many exceed it. As the thresholds are
ordered, no version is outdated before the next one is enforced, what holds of a version holds of
those before it, and a header that signals an enforced version keeps it enforced.
-/

namespace HeaviestChain

namespace SignalWindow

variable {history : List UInt32} {size : Nat} {version version' next : UInt32}

theorem toNat_succ (room : version.toNat + 1 < UInt32.size) :
    (version + 1).toNat = version.toNat + 1 := by
  rw [UInt32.toNat_add]
  exact Nat.mod_eq_of_lt room

theorem le_succ (room : version.toNat + 1 < UInt32.size) : version ≤ version + 1 := by
  rw [UInt32.le_iff_toNat_le, toNat_succ room]
  exact Nat.le_succ _

/-- How many of the latest versions of a history reach a version. -/
def backing (history : List UInt32) (size : Nat) (version : UInt32) : Nat :=
  (history.rtake size).countP fun v => version ≤ v

theorem backing_anti (le : version ≤ version') :
    backing history size version' ≤ backing history size version := by
  apply List.countP_mono_left
  intro v _ reached
  simp only [decide_eq_true_eq] at reached ⊢
  exact UInt32.le_trans le reached

theorem backing_succ (room : version.toNat + 1 < UInt32.size) :
    backing history size (version + 1) = (history.rtake size).countP fun v => version < v := by
  apply List.countP_congr
  intro v _
  simp only [decide_eq_true_eq, UInt32.le_iff_toNat_le, UInt32.lt_iff_toNat_lt, toNat_succ room]
  exact Nat.succ_le_iff

/-- One more of the latest versions counts at most once. -/
theorem backing_succ_le (history : List UInt32) (size : Nat) (version : UInt32) :
    backing history (size + 1) version ≤ backing history size version + 1 := by
  unfold backing List.rtake
  by_cases long : size < history.length
  · have inside : history.length - (size + 1) < history.length := by omega
    have next : history.length - (size + 1) + 1 = history.length - size := by omega
    rw [List.drop_eq_getElem_cons inside, next, List.countP_cons]
    split <;> omega
  · have whole : history.length - (size + 1) = history.length - size := by omega
    rw [whole]
    omega

/-- The version that leaves a window counts no more than one that reaches the bound. -/
theorem backing_le_append (some : size ≠ 0) (le : version ≤ next) :
    backing history size version ≤ backing (history ++ [next]) size version := by
  obtain ⟨n, rfl⟩ := Nat.exists_eq_succ_of_ne_zero some
  have added : backing (history ++ [next]) (n + 1) version = backing history n version + 1 := by
    simp [backing, List.rtake_concat_succ, List.countP_append, le]
  rw [Nat.succ_eq_add_one, added]
  exact backing_succ_le history n version

end SignalWindow

namespace Params

open SignalWindow

variable {p : Params} {w : SignalWindow} {history : List UInt32} {version next : UInt32}

/-- Whether the verdicts of a window on versions agree with the history that it shows and with each
other. -/
structure Coherent (p : Params) (w : SignalWindow) (history : List UInt32) : Prop where
  full : w.isFull ↔ p.signalWindow.toNat ≤ history.length
  enforced : ∀ version, p.enforces w version ↔ w.isFull ∧
    p.enforceThreshold.toNat ≤
      (history.rtake p.signalWindow.toNat).countP fun v => version ≤ v
  outdated : ∀ version, p.outdates w version ↔ w.isFull ∧ version.toNat + 1 < UInt32.size ∧
    p.rejectThreshold.toNat ≤ (history.rtake p.signalWindow.toNat).countP fun v => version < v
  undecided : ¬w.isFull → ∀ version, ¬p.enforces w version ∧ ¬p.outdates w version
  succeeded : ∀ version, version.toNat + 1 < UInt32.size → p.outdates w version →
    p.enforces w (version + 1)
  included : ∀ version, version.toNat + 1 < UInt32.size → p.enforces w (version + 1) →
    p.enforces w version
  superseded : ∀ version, version.toNat + 1 < UInt32.size → p.outdates w (version + 1) →
    p.outdates w version
  lasting : w.isFull → ∀ version next, version ≤ next → p.enforces w version →
    p.enforces (w.add next) version

theorem Sound.thresholds (sound : p.Sound) :
    p.enforceThreshold.toNat ≤ p.rejectThreshold.toNat ∧
      p.rejectThreshold.toNat ≤ p.signalWindow.toNat := by
  have none : p.flaw? = none := sound
  have ordered : ¬(p.signalWindow < p.rejectThreshold ∨
      p.rejectThreshold < p.enforceThreshold) := by
    intro disordered
    simp only [flaw?, disordered, if_true] at none
    split_ifs at none
  rw [not_or, UInt64.not_lt, UInt64.not_lt, UInt64.le_iff_toNat_le, UInt64.le_iff_toNat_le]
    at ordered
  exact ordered.symm

theorem Sound.signalWindow_ne_zero (sound : p.Sound) : p.signalWindow.toNat ≠ 0 := by
  intro none
  exact sound.bounds.2.2.2.1 (UInt64.toNat_inj.1 none)

theorem enforces_iff (shows : w.Shows history) :
    p.enforces w version ↔ w.size ≤ history.length ∧
      p.enforceThreshold.toNat ≤ backing history w.size version := by
  unfold enforces
  rw [shows.support]
  by_cases short : history.length < w.size
  · simp [short, Nat.not_le.2 short]
  · simp [short, Nat.not_lt.1 short, backing]

theorem outdates_iff (shows : w.Shows history) :
    p.outdates w version ↔ version.toNat + 1 < UInt32.size ∧ w.size ≤ history.length ∧
      p.rejectThreshold.toNat ≤ backing history w.size (version + 1) := by
  unfold outdates
  rw [shows.support]
  by_cases room : version.toNat + 1 < UInt32.size
  · by_cases short : history.length < w.size
    · simp [room, short, Nat.not_le.2 short]
    · simp [room, short, Nat.not_lt.1 short, backing]
  · simp [room]

theorem enforces_succ (sound : p.Sound) (shows : w.Shows history)
    (outdated : p.outdates w version) : p.enforces w (version + 1) := by
  obtain ⟨-, long, reached⟩ := (outdates_iff shows).1 outdated
  exact (enforces_iff shows).2 ⟨long, sound.thresholds.1.trans reached⟩

theorem enforces_of_succ (shows : w.Shows history) (room : version.toNat + 1 < UInt32.size)
    (enforced : p.enforces w (version + 1)) : p.enforces w version := by
  obtain ⟨long, reached⟩ := (enforces_iff shows).1 enforced
  exact (enforces_iff shows).2 ⟨long, reached.trans (backing_anti (le_succ room))⟩

theorem outdates_of_succ (shows : w.Shows history) (room : version.toNat + 1 < UInt32.size)
    (outdated : p.outdates w (version + 1)) : p.outdates w version := by
  obtain ⟨room', long, reached⟩ := (outdates_iff shows).1 outdated
  exact (outdates_iff shows).2 ⟨room, long, reached.trans (backing_anti (le_succ room'))⟩

theorem enforces_add (some : w.size ≠ 0) (shows : w.Shows history) (le : version ≤ next)
    (enforced : p.enforces w version) : p.enforces (w.add next) version := by
  obtain ⟨long, reached⟩ := (enforces_iff shows).1 enforced
  rw [enforces_iff (shows.add some next), size_add, List.length_append]
  exact ⟨Nat.le_add_right_of_le long, reached.trans (backing_le_append some le)⟩

theorem coherent_of_shows (sound : p.Sound) (size : w.size = p.signalWindow.toNat)
    (shows : w.Shows history) : p.Coherent w history where
  full := by
    rw [← size]
    exact shows.recalls.full
  enforced version := by
    rw [enforces_iff shows, shows.recalls.full, ← size, backing]
  outdated version := by
    rw [outdates_iff shows, shows.recalls.full, ← size, and_left_comm]
    refine and_congr_right fun _ => and_congr_right fun room => ?_
    rw [backing_succ room]
  undecided filling version := by
    rw [shows.recalls.full] at filling
    rw [enforces_iff shows, outdates_iff shows]
    exact ⟨fun e => filling e.1, fun e => filling e.2.1⟩
  succeeded _ _ := enforces_succ sound shows
  included _ := enforces_of_succ shows
  superseded _ := outdates_of_succ shows
  lasting _ _ _ := enforces_add (size ▸ sound.signalWindow_ne_zero) shows

/-- After any changes the verdicts on versions agree with the versions since the last new beginning
and with each other. -/
theorem signals_coherent (sound : p.Sound) (e : SignalWindow.new p.signalWindow.toNat = .ok w)
    (changes : List Change) :
    p.Coherent (changes.foldl SignalWindow.change w) (sinceCleared changes) := by
  have some : w.size ≠ 0 := by
    rw [size_of_new e]
    exact sound.signalWindow_ne_zero
  obtain ⟨size, shows⟩ := shows_changes some (shows_new e) changes
  exact coherent_of_shows sound (size.trans (size_of_new e)) shows

/-- So it is in the unit test network, where four of the latest seven versions exceed the first,
also behind the next header. -/
theorem signals_coherent_unitTest :
    unitTest.Sound ∧ SignalWindow.new unitTest.signalWindow.toNat = .ok ⟨7, []⟩ ∧
      unitTest.Coherent ([Change.added 2, .cleared, .added 1, .added 2, .added 1, .added 2,
        .added 1, .added 2, .added 2].foldl SignalWindow.change ⟨7, []⟩) [1, 2, 1, 2, 1, 2, 2] ∧
      unitTest.outdates ⟨7, [1, 2, 1, 2, 1, 2, 2]⟩ 1 ∧
      unitTest.enforces ⟨7, [1, 2, 1, 2, 1, 2, 2]⟩ (1 + 1) ∧
      unitTest.enforces (SignalWindow.add ⟨7, [1, 2, 1, 2, 1, 2, 2]⟩ 3) (1 + 1) := by
  have empty : SignalWindow.new unitTest.signalWindow.toNat = .ok ⟨7, []⟩ := by
    rw [SignalWindow.new, if_neg (by decide)]
    rfl
  have coherent := signals_coherent sound_unitTest empty [.added 2, .cleared, .added 1, .added 2,
    .added 1, .added 2, .added 1, .added 2, .added 2]
  have outdated : unitTest.outdates ⟨7, [1, 2, 1, 2, 1, 2, 2]⟩ 1 := by decide
  have enforced := coherent.succeeded 1 (by decide) outdated
  exact ⟨sound_unitTest, empty, coherent, outdated, enforced,
    coherent.lasting rfl _ 3 (by decide) enforced⟩

end Params

end HeaviestChain
