import HeaviestChain.Rules.Signal
import Mathlib.Data.List.DropRight

/-!
The window of version signals as the end of a history. A window that shows the end of a history
shows the end of the longer one once a version is added, and a window that is refilled shows the end
of what it was given, whatever it held before.
-/

namespace HeaviestChain.SignalWindow

variable {u w : SignalWindow} {history : List UInt32}

/-- Whether a window holds the latest versions of a history, oldest first, as many as fit. -/
def Shows (w : SignalWindow) (history : List UInt32) : Prop := w.versions = history.rtake w.size

theorem Shows.add (some : w.size ≠ 0) (shows : w.Shows history) (version : UInt32) :
    (w.add version).Shows (history ++ [version]) := by
  obtain ⟨n, size⟩ := Nat.exists_eq_succ_of_ne_zero some
  have held : w.versions = history.drop (history.length - (n + 1)) := by
    rw [shows, List.rtake, size]
  have kept : (if w.versions.length = w.size then w.versions.drop 1 else w.versions) =
      history.drop (history.length - n) := by
    by_cases full : w.versions.length = w.size
    · have long : n + 1 ≤ history.length := by
        rw [held, List.length_drop, size] at full
        omega
      have next : history.length - (n + 1) + 1 = history.length - n := by omega
      rw [if_pos full, held, List.drop_drop, next]
    · have short : history.length ≤ n := by
        rw [held, List.length_drop, size] at full
        omega
      have all : history.length - (n + 1) = history.length - n := by omega
      rw [if_neg full, held, all]
  show _ ++ [version] = (history ++ [version]).rtake w.size
  rw [kept, size, List.rtake_concat_succ, List.rtake]

theorem shows_clear (w : SignalWindow) : w.clear.Shows [] := by
  simp [Shows, clear]

theorem shows_refill (some : w.size ≠ 0) (versions : List UInt32) :
    (w.refill versions).Shows versions := by
  induction versions using List.reverseRecOn with
  | nil => exact shows_clear w
  | append_singleton versions version ih =>
    have step : w.refill (versions ++ [version]) = (w.refill versions).add version := by
      simp [refill]
    rw [step]
    exact ih.add (by simpa using some) version

/-- To refill a window with the end of a history is as good as with all of it. -/
theorem shows_refill_rtake (some : w.size ≠ 0) (history : List UInt32) :
    (w.refill (history.rtake w.size)).Shows history := by
  have again : (history.rtake w.size).rtake w.size = history.rtake w.size := by
    simp [List.rtake_eq_reverse_take_reverse, List.take_take]
  have shows := shows_refill some (history.rtake w.size)
  rw [Shows, size_refill] at shows ⊢
  rw [shows, again]

/-- A size and a history determine the window. -/
theorem Shows.unique (hu : u.Shows history) (hw : w.Shows history) (size : u.size = w.size) :
    u = w := by
  refine SignalWindow.ext size ?_
  rw [hu, hw, size]

theorem Shows.length (shows : w.Shows history) :
    w.versions.length = min w.size history.length := by
  rw [shows, List.rtake, List.length_drop]
  omega

/-- A window counts once the history fills it, and counts what it shows. -/
theorem Shows.support (shows : w.Shows history) (version : UInt32) :
    w.support version =
      if history.length < w.size then none
      else some ((history.rtake w.size).countP fun v => version ≤ v) := by
  have length := shows.length
  unfold SignalWindow.support isFull
  by_cases short : history.length < w.size
  · have lacks : w.versions.length ≠ w.size := by omega
    simp [short, lacks]
  · have full : w.versions.length = w.size := by omega
    rw [if_neg short, if_pos (decide_eq_true full), shows]

end HeaviestChain.SignalWindow
