import HeaviestChain.Proofs.Params.Json
import HeaviestChain.Proofs.Params.Sound
import HeaviestChain.Settings

/-!
Parameters out of a file: those that were written there, if they have no flaw.
-/

namespace HeaviestChain.Settings

variable {p q : Params} {e : SettingsError} {s : Settings} {read : String → Option String}
  {path : String}

theorem checked_eq_ok : checked p = .ok q ↔ p.Sound ∧ q = p := by
  unfold checked Params.Sound
  cases p.flaw? with
  | none => simp [eq_comm]
  | some f => simp

theorem checked_eq_error : checked p = .error e ↔ ∃ f, p.flaw? = some f ∧ e = .flawed f := by
  unfold checked
  cases p.flaw? with
  | none => simp
  | some f => simp [eq_comm]

theorem params_of_file (named : s.paramsFile = some path)
    (file : read path = some (String.ofList p.render)) : s.params read = checked p := by
  simp [params, named, file, Params.parse?_render]

/-- What comes of parameters that are written to the file that settings name. -/
structure Restores (p : Params) : Prop where
  parsed : Params.parse? p.render = some p
  accepted : ∀ (s : Settings) (read : String → Option String) (path : String),
    s.paramsFile = some path → read path = some (String.ofList p.render) →
      ∀ q, s.params read = .ok q ↔ p.Sound ∧ q = p
  refused : ∀ (s : Settings) (read : String → Option String) (path : String),
    s.paramsFile = some path → read path = some (String.ofList p.render) →
      ∀ e, s.params read = .error e ↔ ∃ f, p.flaw? = some f ∧ e = .flawed f

/-- Parameters are read back from their text. Out of a file with this text come the same ones if
they have no flaw, and their first flaw otherwise. -/
theorem params_restored (p : Params) : Restores p where
  parsed := p.parse?_render
  accepted := by
    intro s read path named file q
    rw [params_of_file named file]
    exact checked_eq_ok
  refused := by
    intro s read path named file e
    rw [params_of_file named file]
    exact checked_eq_error

/-- Settings that name a file with parameters. -/
def unitTestFile : Settings where
  host := "127.0.0.1"
  port := 8080
  network := .unitTest
  dataFolder := none
  paramsFile := some "params.json"

/-- The unit test network without halvings. -/
def unitTestFlawed : Params := { Params.unitTest with halvingInterval := 0 }

theorem params_restored_unitTest :
    unitTestFile.params (fun _ => some (String.ofList Params.unitTest.render)) =
        .ok Params.unitTest ∧
      unitTestFile.params (fun _ => some (String.ofList unitTestFlawed.render)) =
        .error (.flawed .zeroHalvingInterval) := by
  constructor
  · have accepted := (params_restored Params.unitTest).accepted unitTestFile
      (fun _ => some (String.ofList Params.unitTest.render)) "params.json" rfl rfl
    exact (accepted _).2 ⟨Params.sound_unitTest, rfl⟩
  · have refused := (params_restored unitTestFlawed).refused unitTestFile
      (fun _ => some (String.ofList unitTestFlawed.render)) "params.json" rfl rfl
    exact (refused _).2 ⟨_, by decide, rfl⟩

end HeaviestChain.Settings
