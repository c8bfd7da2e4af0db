import HeaviestChain.Params.Flaw
import HeaviestChain.Params.Presets
import HeaviestChain.Record.Basic

/-!
What parameters without a flaw promise.
-/

namespace HeaviestChain.Params

variable {p : Params}

theorem Sound.bounds (sound : p.Sound) :
    2 ≤ p.interval.toNat ∧ p.timespan ≠ 0 ∧ p.halvingInterval ≠ 0 ∧ p.signalWindow ≠ 0 ∧
      p.medianSpan ≠ 0 ∧ p.targetFlaw? = none := by
  have none : p.flaw? = none := sound
  unfold flaw? at none
  split at none
  · cases none
  · rename_i long
    have two : 2 ≤ p.interval.toNat := UInt32.le_iff_toNat_le.1 (UInt32.not_lt.1 long)
    split at none
    · cases none
    · rename_i times
      split at none
      · cases none
      · rename_i halving
        split at none
        · cases none
        · rename_i window
          split at none
          · cases none
          · split at none
            · cases none
            · rename_i span
              exact ⟨two, fun e => times (.inl e), halving, window, span, none⟩

theorem Sound.exists_genesis (sound : p.Sound) : ∃ g, Record.genesis p.genesis = .ok g := by
  obtain ⟨-, -, -, -, -, none⟩ := sound.bounds
  unfold targetFlaw? at none
  split at none
  · cases none
  · split at none
    · cases none
    · split at none
      · cases none
      · rename_i t e
        exact ⟨_, by rw [Record.genesis, e]⟩

theorem sound_unitTest : unitTest.Sound := by decide

theorem hash_genesis_unitTest : unitTest.genesis.hash =
    Hash.ofNat 0x2aa0d4ddd76b57f09da5555bc9aae844c8bed886ea6f36a2aa9cee5a36b6ed8f := by
  decide +kernel

/-- A header mined on top of the first one of the unit test network. -/
def unitTestNext : Header :=
  { unitTest.genesis with
    previous := Hash.ofNat 0x2aa0d4ddd76b57f09da5555bc9aae844c8bed886ea6f36a2aa9cee5a36b6ed8f
    time := 1231006565
    nonce := 0 }

theorem hash_unitTestNext : unitTestNext.hash =
    Hash.ofNat 0x027e63001e061de01ab817b19450def60616c4c747a07160c485c2a23a62fde5 := by
  decide +kernel

/-- A header mined on top of that one, three minutes after the first one. -/
def unitTestLate : Header :=
  { unitTestNext with
    previous := Hash.ofNat 0x027e63001e061de01ab817b19450def60616c4c747a07160c485c2a23a62fde5
    time := 1231006685 }

theorem hash_unitTestLate : unitTestLate.hash =
    Hash.ofNat 0x5954bbe5b12bcdec7337ae706d67736d329d9c5e0a402a3379a51beeba90c3b4 := by
  decide +kernel

/-- A header mined on top of that, whose time is a minute before its parent's. -/
def unitTestBack : Header :=
  { unitTestNext with
    previous := Hash.ofNat 0x5954bbe5b12bcdec7337ae706d67736d329d9c5e0a402a3379a51beeba90c3b4
    time := 1231006625 }

theorem hash_unitTestBack : unitTestBack.hash =
    Hash.ofNat 0x7f05b938233eadd77d32afe96802ebe48a183ef6f442971c5116d4cace0def9a := by
  decide +kernel

theorem meets_unitTestNext :
    unitTestNext.target = .ok unitTest.limit ∧ unitTestNext.Meets unitTest.limit := by
  refine ⟨rfl, ?_⟩
  unfold Header.Meets
  rw [hash_unitTestNext]
  decide

end HeaviestChain.Params
