import HeaviestChain.Proofs.Rules.Lineage
import HeaviestChain.Tracker.Examination

/-!
The verdict on a header as a question about its lineage, the branch that it goes on. The conditions
are listed in the order in which they are examined, and each refusal says which condition is the
first that fails.
-/

namespace HeaviestChain

/-- The branch that a header goes on: that of its parent, nothing without a filed parent. -/
def Catalog.lineage (c : Catalog) (h : Header) : List Record :=
  match c.find? h.previous with
  | some parent => c.branch parent
  | none => []

namespace Params

/-- Whether a checkpoint at the height of a child, if there is one, names the child. -/
def HeedsCheckpoint (p : Params) (parent : Record) (h : Header) : Prop :=
  ∀ expected, p.checkpoints.find? (parent.height + 1) = some expected → expected = h.hash

/-- Whether a header claims a target no easier than the limit and meets it. -/
def Mined (p : Params) (h : Header) : Prop :=
  ∃ t, h.target = .ok t ∧ t.toNat ≤ p.limit.toNat ∧ h.Meets t

/-- Whether a header fits its lineage, its time apart. -/
structure Due (p : Params) (branch : List Record) (h : Header) : Prop where
  heeds : ∃ parent, branch.head? = some parent ∧ p.HeedsCheckpoint parent h
  mined : p.Mined h
  bits : p.dueBits branch h.time = some h.bits

/-- Whether a header fits its lineage and the clock. -/
structure Admits (p : Params) (branch : List Record) (h : Header) (now : Int) : Prop where
  due : p.Due branch h
  late : p.medianPast branch < h.time
  near : h.time.toNat ≤ now + p.maxDrift.toNat

/-- The first condition that a header fails. -/
inductive Refuses (p : Params) (branch : List Record) (h : Header) (now : Int) :
    Rejection → Prop where
  | unknownParent (unknown : branch = []) : Refuses p branch h now (.unknownParent h.previous)
  | checkpointMismatch {parent : Record} {expected : Hash} (known : branch.head? = some parent)
      (set : p.checkpoints.find? (parent.height + 1) = some expected) (other : expected ≠ h.hash) :
      Refuses p branch h now (.checkpointMismatch (parent.height + 1) expected h.hash)
  | invalidTarget {parent : Record} {e : CompactError} (known : branch.head? = some parent)
      (heeds : p.HeedsCheckpoint parent h) (claims : h.target = .error e) :
      Refuses p branch h now (.invalidTarget e)
  | targetAboveLimit {parent : Record} {t : Target} (known : branch.head? = some parent)
      (heeds : p.HeedsCheckpoint parent h) (claims : h.target = .ok t)
      (above : p.limit.toNat < t.toNat) : Refuses p branch h now .targetAboveLimit
  | insufficientWork {parent : Record} {t : Target} (known : branch.head? = some parent)
      (heeds : p.HeedsCheckpoint parent h) (claims : h.target = .ok t)
      (below : t.toNat ≤ p.limit.toNat) (misses : ¬h.Meets t) :
      Refuses p branch h now (.insufficientWork h.hash)
  | wrongBits {parent : Record} {expected : UInt32} (known : branch.head? = some parent)
      (heeds : p.HeedsCheckpoint parent h) (mined : p.Mined h)
      (set : p.dueBits branch h.time = some expected) (other : h.bits ≠ expected) :
      Refuses p branch h now (.wrongBits expected h.bits)
  | tooEarly (due : p.Due branch h) (early : h.time ≤ p.medianPast branch) :
      Refuses p branch h now (.tooEarly h.time (p.medianPast branch))
  | tooFarAhead (due : p.Due branch h) (late : p.medianPast branch < h.time)
      (ahead : now + p.maxDrift.toNat < h.time.toNat) :
      Refuses p branch h now (.tooFarAhead h.time now)

variable {p : Params} {parent : Record} {h : Header} {now : Int}

theorem misfit?_of_checkpoint {expected : Hash}
    (set : p.checkpoints.find? (parent.height + 1) = some expected) (other : expected ≠ h.hash) :
    p.misfit? (parent.height + 1) h =
      some (.checkpointMismatch (parent.height + 1) expected h.hash) := by
  have kept : ((p.checkpoints.find? (parent.height + 1)).filter fun e => e ≠ h.hash) =
      some expected := by
    rw [set, Option.filter_some, if_pos (by simpa using other)]
  rw [misfit?, kept]

theorem misfit?_of_heeds (heeds : p.HeedsCheckpoint parent h) :
    p.misfit? (parent.height + 1) h =
      match h.target with
      | .error e => some (.invalidTarget e)
      | .ok t =>
        if p.limit.toNat < t.toNat then some .targetAboveLimit
        else if h.Meets t then none
        else some (.insufficientWork h.hash) := by
  have dropped : ((p.checkpoints.find? (parent.height + 1)).filter fun e => e ≠ h.hash) = none := by
    cases set : p.checkpoints.find? (parent.height + 1) with
    | none => rfl
    | some expected =>
      rw [Option.filter_some, if_neg (by simpa using heeds expected set)]
  cases claims : h.target <;> simp only [misfit?, dropped, claims]

theorem misfit?_of_mined (heeds : p.HeedsCheckpoint parent h) (mined : p.Mined h) :
    p.misfit? (parent.height + 1) h = none := by
  obtain ⟨t, claims, below, meets⟩ := mined
  rw [misfit?_of_heeds heeds, claims]
  show (if _ then _ else _) = _
  rw [if_neg (Nat.not_lt.2 below), if_pos meets]

theorem mined_of_misfit?_eq_none (fit : p.misfit? (parent.height + 1) h = none) :
    p.HeedsCheckpoint parent h ∧ p.Mined h := by
  have heeds : p.HeedsCheckpoint parent h := by
    intro expected set
    by_cases same : expected = h.hash
    · exact same
    · cases fit.symm.trans (misfit?_of_checkpoint set same)
  refine ⟨heeds, ?_⟩
  rw [misfit?_of_heeds heeds] at fit
  cases claims : h.target with
  | error e => simp [claims] at fit
  | ok t =>
    simp only [claims] at fit
    by_cases above : p.limit.toNat < t.toNat
    · simp [above] at fit
    · by_cases meets : h.Meets t
      · exact ⟨t, claims, Nat.not_lt.1 above, meets⟩
      · simp [above, meets] at fit

theorem exists_of_not_heeds (broken : ¬p.HeedsCheckpoint parent h) :
    ∃ expected, p.checkpoints.find? (parent.height + 1) = some expected ∧ expected ≠ h.hash := by
  obtain ⟨expected, fails⟩ := Classical.not_forall.1 broken
  exact ⟨expected, Classical.not_imp.1 fails⟩

section Conditions

variable {branch : List Record}

theorem mined_or_refuses (known : branch.head? = some parent) (heeds : p.HeedsCheckpoint parent h)
    (now : Int) : p.Mined h ∨ ∃ reason, p.Refuses branch h now reason := by
  cases claims : h.target with
  | error e => exact .inr ⟨_, .invalidTarget known heeds claims⟩
  | ok t =>
    by_cases below : t.toNat ≤ p.limit.toNat
    · by_cases meets : h.Meets t
      · exact .inl ⟨t, claims, below, meets⟩
      · exact .inr ⟨_, .insufficientWork known heeds claims below meets⟩
    · exact .inr ⟨_, .targetAboveLimit known heeds claims (Nat.not_le.1 below)⟩

theorem due_or_refuses (now : Int)
    (set : branch = [] ∨ ∃ bits, p.dueBits branch h.time = some bits) :
    p.Due branch h ∨ ∃ reason, p.Refuses branch h now reason := by
  by_cases unknown : branch = []
  · exact .inr ⟨_, .unknownParent unknown⟩
  obtain ⟨bits, set⟩ := set.resolve_left unknown
  obtain ⟨parent, known⟩ : ∃ parent, branch.head? = some parent :=
    ⟨branch.head unknown, List.head?_eq_some_head unknown⟩
  by_cases heeds : p.HeedsCheckpoint parent h
  · rcases mined_or_refuses known heeds now with mined | refuses
    · by_cases same : h.bits = bits
      · exact .inl ⟨⟨parent, known, heeds⟩, mined, by rw [set, same]⟩
      · exact .inr ⟨_, .wrongBits known heeds mined set same⟩
    · exact .inr refuses
  · obtain ⟨expected, found, other⟩ := exists_of_not_heeds heeds
    exact .inr ⟨_, .checkpointMismatch known found other⟩

/-- A header keeps all conditions or fails one first. -/
theorem admits_or_refuses (now : Int)
    (set : branch = [] ∨ ∃ bits, p.dueBits branch h.time = some bits) :
    p.Admits branch h now ∨ ∃ reason, p.Refuses branch h now reason := by
  rcases due_or_refuses now set with due | refuses
  · by_cases late : p.medianPast branch < h.time
    · by_cases near : h.time.toNat ≤ now + p.maxDrift.toNat
      · exact .inl ⟨due, late, near⟩
      · exact .inr ⟨_, .tooFarAhead due late (Int.not_le.1 near)⟩
    · exact .inr ⟨_, .tooEarly due (UInt32.not_lt.1 late)⟩
  · exact .inr refuses

end Conditions

end Params

namespace Catalog

variable {c : Catalog} {parent : Record} {h : Header}

theorem lineage_of_find? (known : c.find? h.previous = some parent) :
    c.lineage h = c.branch parent := by
  rw [lineage, known]

theorem lineage_eq_nil : c.lineage h = [] ↔ c.find? h.previous = none := by
  unfold lineage
  cases c.find? h.previous with
  | none => simp
  | some parent =>
    obtain ⟨rest, split⟩ := c.branch_eq_cons parent
    simp [split]

theorem find?_of_head?_lineage (known : (c.lineage h).head? = some parent) :
    c.find? h.previous = some parent := by
  cases found : c.find? h.previous with
  | none =>
    rw [lineage_eq_nil.2 found] at known
    cases known
  | some other =>
    obtain ⟨rest, split⟩ := c.branch_eq_cons other
    rw [lineage_of_find? found, split] at known
    exact known

/-- A lineage stays as it is while the catalog grows. -/
theorem Grown.lineage_of_within {g : Record} {d : Catalog} (grown : Grown g c) (w : c.Within d)
    (known : c.find? h.previous = some parent) : d.lineage h = c.lineage h := by
  rw [lineage_of_find? known, lineage_of_find? (w _ _ known),
    grown.branch_of_within w (mem_of_find? known)]

end Catalog

namespace Params

open Catalog

/-- Whether a header is not filed yet, and the words of the machine have room for its height and for
the latest time it may have. -/
structure Ready (p : Params) (c : Catalog) (h : Header) (now : Int) : Prop where
  new : c.find? h.hash = none
  room : ∀ parent, c.find? h.previous = some parent → parent.height.toNat + 1 < UInt32.size
  fits : now + p.maxDrift.toNat ≤ Int64.maxValue.toInt

variable {p : Params} {g parent : Record} {c : Catalog} {stored : Nat} {h : Header} {now : Int}
  {reason : Rejection}

/-- Bits are due for the child of every filed record. -/
theorem Ready.dueBits (ready : p.Ready c h now) (grown : Grown g c) (sound : p.Sound) :
    c.lineage h = [] ∨ ∃ bits, p.dueBits (c.lineage h) h.time = some bits := by
  cases known : c.find? h.previous with
  | none => exact .inl (lineage_eq_nil.2 known)
  | some parent =>
    obtain ⟨bits, due, -⟩ := run_requiredBits grown sound (mem_of_find? known)
      (ready.room parent known) 0 h.time
    exact .inr ⟨bits, by rw [lineage_of_find? known, due]⟩

theorem run_examine_of_known (new : c.find? h.hash = none)
    (known : c.find? h.previous = some parent) :
    (p.examine stored h now).run c.find? = (p.examineChild stored parent h now).run c.find? := by
  rw [examine, Walk.run, new, Walk.run, known]

theorem run_examine_of_misfit (ready : p.Ready c h now) (known : c.find? h.previous = some parent)
    (misfit : p.misfit? (parent.height + 1) h = some reason) :
    (p.examine stored h now).run c.find? = .ok (.rejected reason) := by
  have room : ¬UInt32.size ≤ parent.height.toNat + 1 := Nat.not_le.2 (ready.room parent known)
  rw [run_examine_of_known ready.new known, examineChild, if_neg room, misfit, Walk.run_done]

theorem mistimed?_eq (fits : now + p.maxDrift.toNat ≤ Int64.maxValue.toInt)
    (median time : UInt32) :
    p.mistimed? median now time =
      .ok (if time ≤ median then some (.tooEarly time median)
        else if now + p.maxDrift.toNat < time.toNat then some (.tooFarAhead time now)
        else none) := by
  unfold mistimed?
  rw [if_neg (Int.not_lt.2 fits)]
  split
  · rfl
  · split <;> rfl

theorem of_mistimed?_eq_none {median time : UInt32}
    (timed : p.mistimed? median now time = .ok none) :
    median < time ∧ now + p.maxDrift.toNat ≤ Int64.maxValue.toInt ∧
      time.toNat ≤ now + p.maxDrift.toNat := by
  unfold mistimed? at timed
  split at timed
  · cases timed
  · rename_i late
    split at timed
    · cases timed
    · rename_i fits
      split at timed
      · cases timed
      · rename_i near
        exact ⟨UInt32.not_le.1 late, Int.not_lt.1 fits, Int.not_lt.1 near⟩

/-- Behind the first conditions the bits are examined, then the time. -/
theorem run_examine_of_mined (grown : Grown g c) (sound : p.Sound) (ready : p.Ready c h now)
    (known : c.find? h.previous = some parent) (heeds : p.HeedsCheckpoint parent h)
    (mined : p.Mined h) (stored : Nat) :
    ∃ bits r, p.dueBits (c.branch parent) h.time = some bits ∧
      (p.examine stored h now).run c.find? =
        if h.bits ≠ bits then .ok (.rejected (.wrongBits bits h.bits))
        else if wordCapacity ≤ p.medianSpan.toNat then .error (.trap .capacity)
        else if h.time ≤ p.medianPast (c.branch parent) then
          .ok (.rejected (.tooEarly h.time (p.medianPast (c.branch parent))))
        else if now + p.maxDrift.toNat < h.time.toNat then
          .ok (.rejected (.tooFarAhead h.time now))
        else .ok (.sound r) := by
  have room := ready.room parent known
  have m := mem_of_find? known
  obtain ⟨bits, due, run⟩ := run_requiredBits grown sound m room stored h.time
  obtain ⟨r, link⟩ : ∃ r, parent.extend h = .ok r := by
    obtain ⟨t, claims, -⟩ := mined
    exact ⟨_, Record.extend_eq_ok.2 ⟨room, t, claims, rfl⟩⟩
  refine ⟨bits, r, due, ?_⟩
  rw [run_examine_of_known ready.new known, examineChild, if_neg (Nat.not_le.2 room),
    misfit?_of_mined heeds mined, Walk.run_bind, run]
  by_cases same : h.bits = bits
  · have past := run_medianTime grown sound m stored
    simp only [Except.bind, same, ne_eq, not_true_eq_false, if_false, Walk.run_bind]
    by_cases vast : wordCapacity ≤ p.medianSpan.toNat
    · rw [if_pos vast] at past ⊢
      rw [past]
    · rw [if_neg vast] at past ⊢
      simp only [past, mistimed?_eq ready.fits, link]
      by_cases early : h.time ≤ p.medianPast (c.branch parent)
      · rw [if_pos early, if_pos early]
        rfl
      · rw [if_neg early, if_neg early]
        by_cases ahead : now + p.maxDrift.toNat < h.time.toNat
        · rw [if_pos ahead, if_pos ahead]
          rfl
        · rw [if_neg ahead, if_neg ahead]
          rfl
  · simp only [Except.bind, ne_eq, same, not_false_eq_true, if_true, Walk.run_done]

/-- A header that is due is left to its time, if the span of the median fits the memory. -/
theorem run_examine_of_due (grown : Grown g c) (sound : p.Sound) (ready : p.Ready c h now)
    (due : p.Due (c.lineage h) h) (stored : Nat) :
    ∃ r, (p.examine stored h now).run c.find? =
      if wordCapacity ≤ p.medianSpan.toNat then .error (.trap .capacity)
      else if h.time ≤ p.medianPast (c.lineage h) then
        .ok (.rejected (.tooEarly h.time (p.medianPast (c.lineage h))))
      else if now + p.maxDrift.toNat < h.time.toNat then .ok (.rejected (.tooFarAhead h.time now))
      else .ok (.sound r) := by
  obtain ⟨⟨parent, first, heeds⟩, mined, set⟩ := due
  have known := find?_of_head?_lineage first
  obtain ⟨bits, r, set', run⟩ :=
    run_examine_of_mined grown sound ready known heeds mined stored
  rw [lineage_of_find? known] at set ⊢
  have same : h.bits = bits := Option.some.inj (set.symm.trans set')
  rw [if_neg (not_not_intro same)] at run
  exact ⟨r, run⟩

theorem run_examine_of_admits (grown : Grown g c) (sound : p.Sound) (ready : p.Ready c h now)
    (fits : p.medianSpan.toNat < wordCapacity) (admits : p.Admits (c.lineage h) h now)
    (stored : Nat) : ∃ r, (p.examine stored h now).run c.find? = .ok (.sound r) := by
  obtain ⟨r, run⟩ := run_examine_of_due grown sound ready admits.due stored
  refine ⟨r, ?_⟩
  rw [run, if_neg (Nat.not_le.2 fits), if_neg (UInt32.not_le.2 admits.late),
    if_neg (Int.not_lt.2 admits.near)]

/-- The first condition that fails is the reason of the refusal, unless the time of a header is
examined for which the span of the median does not fit the memory. -/
theorem run_examine_of_refuses (grown : Grown g c) (sound : p.Sound) (ready : p.Ready c h now)
    (fits : p.medianSpan.toNat < wordCapacity ∨ ¬p.Due (c.lineage h) h)
    (refuses : p.Refuses (c.lineage h) h now reason) (stored : Nat) :
    (p.examine stored h now).run c.find? = .ok (.rejected reason) := by
  -- only the two refusals for the time need the median, and they are for headers that are due
  have small (due : p.Due (c.lineage h) h) : ¬wordCapacity ≤ p.medianSpan.toNat :=
    Nat.not_le.2 (fits.resolve_right (not_not_intro due))
  cases refuses with
  | unknownParent unknown =>
    rw [examine, Walk.run, ready.new, Walk.run, lineage_eq_nil.1 unknown, Walk.run_done]
  | checkpointMismatch first set other =>
    have known := find?_of_head?_lineage first
    exact run_examine_of_misfit ready known (misfit?_of_checkpoint set other)
  | invalidTarget first heeds claims =>
    have known := find?_of_head?_lineage first
    exact run_examine_of_misfit ready known (by rw [misfit?_of_heeds heeds, claims])
  | targetAboveLimit first heeds claims above =>
    have known := find?_of_head?_lineage first
    apply run_examine_of_misfit ready known
    rw [misfit?_of_heeds heeds, claims]
    exact if_pos above
  | insufficientWork first heeds claims below misses =>
    have known := find?_of_head?_lineage first
    apply run_examine_of_misfit ready known
    rw [misfit?_of_heeds heeds, claims]
    show (if _ then _ else _) = _
    rw [if_neg (Nat.not_lt.2 below), if_neg misses]
  | wrongBits first heeds mined set other =>
    have known := find?_of_head?_lineage first
    obtain ⟨bits, r, set', run⟩ :=
      run_examine_of_mined grown sound ready known heeds mined stored
    rw [lineage_of_find? known] at set
    obtain rfl := Option.some.inj (set.symm.trans set')
    rw [run, if_pos other]
  | tooEarly due early =>
    obtain ⟨r, run⟩ := run_examine_of_due grown sound ready due stored
    rw [run, if_neg (small due), if_pos early]
  | tooFarAhead due late ahead =>
    obtain ⟨r, run⟩ := run_examine_of_due grown sound ready due stored
    rw [run, if_neg (small due), if_neg (UInt32.not_le.2 late), if_pos ahead]

end Params

end HeaviestChain
