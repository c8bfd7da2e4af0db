import HeaviestChain.Proofs.Chain.ForkChoice
import HeaviestChain.Proofs.Chain.Provenance
import HeaviestChain.Proofs.Rules.Median

/-!
Chains mined on the spot. On the unit test network every chain of mined headers that stays within
the first interval, and whose times keep ahead of their medians, is accepted header by header. So it
is with other intervals as long as the bits of the headers are due; in short intervals a branch can
have more work than a longer one.
-/

namespace HeaviestChain

open Catalog

/-- Headers of the unit test network, newest first, each mined on the next one. -/
inductive MinedChain (now : Int) : List Header → Prop where
  | first : MinedChain now [Params.unitTest.genesis]
  | next {h parent : Header} {older : List Header} (before : MinedChain now (parent :: older))
      (short : older.length + 1 < 10) (names : h.previous = parent.hash)
      (new : ∀ x ∈ parent :: older, x.hash ≠ h.hash) (bits : h.bits = Params.unitTest.limitBits)
      (meets : h.Meets Params.unitTest.limit)
      (late : median ((parent :: older).map Header.time) < h.time)
      (near : h.time.toNat ≤ now + 7200) : MinedChain now (h :: parent :: older)

theorem MinedChain.bits_eq {now : Int} {h : Header} {older : List Header}
    (mined : MinedChain now (h :: older)) : h.bits = Params.unitTest.limitBits := by
  cases mined with
  | first => rfl
  | next _ _ _ _ bits _ _ _ => exact bits

theorem MinedChain.target_eq {now : Int} {h : Header} {older : List Header}
    (mined : MinedChain now (h :: older)) : h.target = .ok Params.unitTest.limit := by
  rw [Header.target, mined.bits_eq]
  rfl

/-- The unit test network with another length of the intervals and another time for them. -/
def Params.unitTestPace (interval timespan : UInt32) : Params :=
  { unitTest with interval, timespan }

section Pace

variable {now : Int} {h parent : Header} {older : List Header} {tip : Record} {rest : List Record}
  {interval timespan : UInt32}

theorem Params.dueBits_of_open
    (unclosed : ¬(tip.height ≠ 0 ∧ (tip.height.toNat + 1) % interval.toNat = 0)) (time : UInt32) :
    (unitTestPace interval timespan).dueBits (tip :: rest) time = some tip.header.bits :=
  if_neg unclosed

theorem MinedChain.dueBits_eq (mined : MinedChain now (h :: parent :: older))
    (headers : (tip :: rest).map Record.header = parent :: older)
    (high : tip.height.toNat = older.length) :
    Params.unitTest.dueBits (tip :: rest) h.time = some h.bits := by
  have bits := mined.bits_eq
  cases mined with
  | next before short _ _ _ _ _ _ =>
    have own : tip.header = parent := (List.cons.inj headers).1
    have unclosed : ¬(tip.height ≠ 0 ∧ (tip.height.toNat + 1) % 10 = 0) := by omega
    rw [bits, ← before.bits_eq, ← own]
    show (Params.unitTestPace 10 600).dueBits (tip :: rest) h.time = _
    exact Params.dueBits_of_open unclosed h.time

/-- At any pace a mined header passes against a few headers if its bits are due and its time is late
and near. -/
theorem Params.passes_at_pace (headers : (tip :: rest).map Record.header = older)
    (short : older.length ≤ 11) (mined : unitTest.Mined h)
    (due : (unitTestPace interval timespan).dueBits (tip :: rest) h.time = some h.bits)
    (late : median (older.map Header.time) < h.time) (near : h.time.toNat ≤ now + 7200)
    (fits : now + 7200 ≤ Int64.maxValue.toInt) :
    (unitTestPace interval timespan).Passes (tip :: rest) h now := by
  obtain ⟨target, claims, below, meets⟩ := mined
  have heeds : (unitTestPace interval timespan).HeedsCheckpoint tip h := by
    intro expected found
    cases found
  have same : (unitTestPace interval timespan).limit = unitTest.limit := by
    rw [limit, limit, unitTestPace]
  have past : (unitTestPace interval timespan).medianPast (tip :: rest) < h.time := by
    have few : (tip :: rest).length ≤ 11 := by
      rw [← headers, List.length_map] at short
      exact short
    have whole : (tip :: rest).take 11 = tip :: rest := List.take_of_length_le few
    have times : (tip :: rest).map (fun r => r.header.time) = older.map Header.time := by
      rw [← headers, List.map_map]
      rfl
    show median (((tip :: rest).take 11).map fun r => r.header.time) < h.time
    rw [whole, times]
    exact late
  have recalls : 11 < wordCapacity := by decide
  exact ⟨⟨⟨⟨tip, rfl, heeds⟩, ⟨target, claims, same ▸ below, meets⟩, due⟩, past, near⟩, recalls,
    fits⟩

/-- So does the next header of a mined chain. -/
theorem MinedChain.passes_of_due (mined : MinedChain now (h :: parent :: older))
    (headers : (tip :: rest).map Record.header = parent :: older)
    (fits : now + 7200 ≤ Int64.maxValue.toInt)
    (due : (Params.unitTestPace interval timespan).dueBits (tip :: rest) h.time = some h.bits) :
    (Params.unitTestPace interval timespan).Passes (tip :: rest) h now := by
  have claims := mined.target_eq
  cases mined with
  | next _ short _ _ _ meets late near =>
    have few : (parent :: older).length ≤ 11 := by
      rw [List.length_cons]
      omega
    exact Params.passes_at_pace headers few ⟨_, claims, Nat.le_refl _, meets⟩ due late near fits

end Pace

namespace Catalog

variable {c d : Catalog} {g tip r : Record} {h : Header} {older headers : List Header}

/-- Whether a record is filed on a branch of the given headers, newest first. -/
structure Bears (c : Catalog) (r : Record) (headers : List Header) : Prop where
  mem : r ∈ c
  branch : (c.branch r).map Record.header = headers

theorem Bears.exists_cons (bears : c.Bears r (h :: older)) :
    ∃ rest, c.branch r = r :: rest ∧ r.header = h ∧ rest.map Record.header = older := by
  obtain ⟨rest, split⟩ := c.branch_eq_cons r
  have headers := bears.branch
  rw [split] at headers
  obtain ⟨own, behind⟩ := List.cons.inj headers
  exact ⟨rest, split, own, behind⟩

theorem Bears.header (bears : c.Bears r (h :: older)) : r.header = h := by
  obtain ⟨-, -, own, -⟩ := bears.exists_cons
  exact own

theorem Bears.height (grown : Grown g c) (bears : c.Bears r (h :: older)) :
    r.height.toNat = older.length := by
  have long := grown.length_branch bears.mem
  rw [← List.length_map (f := Record.header), bears.branch] at long
  exact (Nat.succ.inj long).symm

theorem Bears.parent (grown : Grown g c) (bears : c.Bears r (h :: headers)) (long : headers ≠ []) :
    ∃ q, c.Links q r ∧ c.Bears q headers := by
  have later : r ≠ g := by
    intro same
    have high := bears.height grown
    rw [same, grown.height_first] at high
    exact long (List.length_eq_zero_iff.1 high.symm)
  obtain ⟨q, l⟩ := grown.parent bears.mem later
  obtain ⟨rest, split, -, behind⟩ := bears.exists_cons
  rw [l.branch] at split
  rw [← (List.cons.inj split).2] at behind
  exact ⟨q, l, l.mem, behind⟩

/-- The work of a record is read off the headers of its branch. -/
theorem Bears.work (grown : Grown g c) {headers : List Header} (bears : c.Bears r headers) :
    r.work.toNat = headers.foldr (fun h work => h.claimed.work + work) 0 := by
  rw [grown.work_eq_totalWork bears.mem, ← bears.branch]
  induction c.branch r with
  | nil => rfl
  | cons s rest ih =>
    rw [Record.totalWork, ih]
    rfl

theorem Bears.mono (grown : Grown g c) (within : c.Within d) (bears : c.Bears r headers) :
    d.Bears r headers := by
  refine ⟨within.mem bears.mem, ?_⟩
  rw [grown.branch_of_within within bears.mem]
  exact bears.branch

theorem Bears.child (grown : Grown g c) (bears : c.Bears tip headers)
    (new : c.find? r.hash = none) (link : c.Links tip r) :
    (c.insert r).Bears r (r.header :: headers) := by
  have within := within_insert c r
  refine ⟨mem_insert_of_none new, ?_⟩
  rw [(link.mono within).branch, List.map_cons, (bears.mono grown within).branch]

theorem forall_header_insert (new : c.find? r.hash = none) (only : ∀ s ∈ c, s.header ∈ headers) :
    ∀ s ∈ c.insert r, s.header ∈ r.header :: headers := by
  intro s m
  rcases (mem_insert new).1 m with rfl | old
  · exact List.mem_cons_self
  · exact List.mem_cons_of_mem _ (only s old)

theorem find?_eq_none_of_headers (only : ∀ s ∈ c, s.header ∈ headers)
    (new : ∀ x ∈ headers, x.hash ≠ h.hash) : c.find? h.hash = none := by
  rw [Option.eq_none_iff_forall_ne_some]
  intro s found
  exact new s.header (only s (mem_of_find? found)) (hash_of_find? found)

end Catalog

namespace Tracker

variable {p : Params} {outages : Nat → Operation → Bool} {t u : Tracker} {g : Record} {now : Int}
  {h parent : Header} {older headers : List Header}

/-- Whether a tracker stores exactly the headers of one branch, newest first. -/
structure Carries (u : Tracker) (headers : List Header) : Prop where
  tip : ∃ r ∈ u.store.catalog, (u.store.catalog.branch r).map Record.header = headers
  only : ∀ s ∈ u.store.catalog, s.header ∈ headers

/-- The submissions of a chain above the first header, oldest first. -/
def mining (now : Int) (headers : List Header) : List Submission :=
  (headers.dropLast.reverse).map fun h => ⟨h, now⟩

theorem mining_cons (now : Int) (h parent : Header) (older : List Header) :
    mining now (h :: parent :: older) = mining now (parent :: older) ++ [⟨h, now⟩] := by
  simp [mining]

theorem Carries.exists_bears (carries : u.Carries headers) :
    ∃ tip, u.store.catalog.Bears tip headers := by
  obtain ⟨tip, m, headers⟩ := carries.tip
  exact ⟨tip, m, headers⟩

theorem Carries.congr {v : Tracker} (carries : u.Carries headers)
    (same : v.store.catalog = u.store.catalog) : v.Carries headers := by
  obtain ⟨tip, only⟩ := carries
  rw [← same] at tip only
  exact ⟨tip, only⟩

theorem Carries.exists_find? (carries : u.Carries (parent :: older)) :
    ∃ r, u.store.find? parent.hash = some r := by
  obtain ⟨tip, bears⟩ := carries.exists_bears
  rw [← bears.header]
  exact ⟨tip, bears.mem⟩

theorem Begins.carries (begins : Begins p outages t) : t.Carries [p.genesis] := by
  have grown := begins.rooted.grown
  refine ⟨⟨t.store.head, grown.first_mem, ?_⟩, ?_⟩
  · rw [grown.branch_first, List.map_singleton, begins.head_header]
  · intro s m
    rw [begins.eq_head m, begins.head_header]
    exact List.mem_singleton_self _

/-- Without outages a new header that passes behind a stored one becomes its child. -/
theorem Begins.exists_child {tip : Record} (begins : Begins p (fun _ _ => false) t)
    (submissions : List Submission)
    (bears : (t.after submissions).store.catalog.Bears tip (parent :: older))
    (names : h.previous = parent.hash)
    (new : (t.after submissions).store.catalog.find? h.hash = none)
    (room : older.length + 1 < UInt32.size)
    (passes : p.Passes ((t.after submissions).store.catalog.branch tip) h now) :
    ∃ r, r.header = h ∧ (t.after submissions).store.catalog.Links tip r ∧
      ((t.after submissions).submit h now).ruling = .ok () ∧
      (t.after (submissions ++ [⟨h, now⟩])).store.catalog =
        (t.after submissions).store.catalog.insert r := by
  have grown := (begins.rooted.after submissions).grown
  rw [← bears.height grown] at room
  obtain ⟨target, claims, -⟩ := passes.admits.due.mined
  obtain ⟨r, extend⟩ : ∃ r, tip.extend h = .ok r :=
    ⟨_, Record.extend_eq_ok.2 ⟨room, target, claims, rfl⟩⟩
  obtain rfl : r.header = h := Record.header_of_extend extend
  have found : (t.after submissions).store.catalog.find? r.header.previous = some tip := by
    rw [names, ← bears.header]
    exact bears.mem
  exact ⟨r, rfl, ⟨found, extend⟩, begins.after_of_passes submissions ⟨found, extend⟩ new passes⟩

/-- It is accepted, and its record is the head afterwards if it has more work. -/
theorem Begins.exists_entered {tip : Record} {parent : Header} {older stored : List Header}
    (begins : Begins p (fun _ _ => false) t) (submissions : List Submission)
    (bears : (t.after submissions).store.catalog.Bears tip (parent :: older))
    (only : ∀ s ∈ (t.after submissions).store.catalog, s.header ∈ stored)
    (names : h.previous = parent.hash) (new : ∀ x ∈ stored, x.hash ≠ h.hash)
    (room : older.length + 1 < UInt32.size)
    (passes : p.Passes ((t.after submissions).store.catalog.branch tip) h now) :
    ∃ r, ((t.after submissions).submit h now).ruling = .ok () ∧
      (t.after (submissions ++ [⟨h, now⟩])).store.catalog.Bears r (h :: parent :: older) ∧
      (∀ s ∈ (t.after (submissions ++ [⟨h, now⟩])).store.catalog, s.header ∈ h :: stored) ∧
      (t.after (submissions ++ [⟨h, now⟩])).store.head =
        if r.Outweighs (t.after submissions).store.head then r
        else (t.after submissions).store.head := by
  have grown := (begins.rooted.after submissions).grown
  have absent := find?_eq_none_of_headers only new
  obtain ⟨r, rfl, link, accepted, insert⟩ :=
    begins.exists_child submissions bears names absent room passes
  have lead := foremost_after begins (submissions ++ [⟨r.header, now⟩])
  rw [insert, foremost?_insert (foremost_after begins submissions) absent] at lead
  refine ⟨r, accepted, ?_, ?_, (Option.some.inj lead).symm⟩
  · rw [insert]
    exact bears.child grown absent link
  · rw [insert]
    exact forall_header_insert absent only

/-- Without outages the newest record of a single chain is the head. -/
theorem Begins.bears_head (begins : Begins p (fun _ _ => false) t) (submissions : List Submission)
    {headers : List Header} (carries : (t.after submissions).Carries headers) :
    (t.after submissions).store.catalog.Bears (t.after submissions).store.head headers := by
  have grown := (begins.rooted.after submissions).grown
  have held := (t.after submissions).store.head_mem
  obtain ⟨tip, bears⟩ := carries.exists_bears
  have most : tip.work.toNat ≤ (t.after submissions).store.head.work.toNat :=
    work_le_of_foremost? (foremost_after begins submissions) (grown.mem_inOrder.2 bears.mem)
  generalize (t.after submissions).store.head = head at most held ⊢
  -- no other headers are stored, so that the head is on the branch of the newest record
  have on : head ∈ (t.after submissions).store.catalog.branch tip := by
    have named := carries.only head held
    rw [← bears.branch] at named
    obtain ⟨s, on, same⟩ := List.mem_map.1 named
    obtain rfl := eq_of_hash_eq (grown.mem_of_mem_branch bears.mem s on) held
      (congrArg Header.hash same)
    exact on
  by_cases same : head = tip
  · rw [same]
    exact bears
  · have heavier : head.work.toNat < tip.work.toNat :=
      grown.outweighs_of_mem_branch bears.mem on same
    omega

/-- At any pace a tracker that carries a mined chain accepts the next header if its bits are due. -/
theorem Begins.carries_of_due {interval timespan : UInt32}
    (begins : Begins (.unitTestPace interval timespan) (fun _ _ => false) t)
    (fits : now + 7200 ≤ Int64.maxValue.toInt) (submissions : List Submission)
    (carries : (t.after submissions).Carries (parent :: older))
    (mined : MinedChain now (h :: parent :: older))
    (due : ∀ tip rest, (tip :: rest).map Record.header = parent :: older →
      tip.height.toNat = older.length →
      (Params.unitTestPace interval timespan).dueBits (tip :: rest) h.time = some h.bits) :
    ((t.after submissions).submit h now).ruling = .ok () ∧
      (t.after (submissions ++ [⟨h, now⟩])).Carries (h :: parent :: older) := by
  have grown := (begins.rooted.after submissions).grown
  obtain ⟨tip, bears⟩ := carries.exists_bears
  have passes : (Params.unitTestPace interval timespan).Passes
      ((t.after submissions).store.catalog.branch tip) h now := by
    obtain ⟨rest, split, -⟩ := bears.exists_cons
    have headers := bears.branch
    rw [split] at headers ⊢
    exact mined.passes_of_due headers fits (due tip rest headers (bears.height grown))
  cases mined with
  | next _ short names new _ _ _ _ =>
    have wide : 10 < UInt32.size := by decide
    obtain ⟨r, accepted, entered, only, -⟩ :=
      begins.exists_entered submissions bears carries.only names new (by omega) passes
    exact ⟨accepted, ⟨r, entered.mem, entered.branch⟩, only⟩

/-- At the pace of the network itself they are. -/
theorem Begins.carries_next (begins : Begins .unitTest (fun _ _ => false) t)
    (fits : now + 7200 ≤ Int64.maxValue.toInt) (submissions : List Submission)
    (carries : (t.after submissions).Carries (parent :: older))
    (mined : MinedChain now (h :: parent :: older)) :
    ((t.after submissions).submit h now).ruling = .ok () ∧
      (t.after (submissions ++ [⟨h, now⟩])).Carries (h :: parent :: older) := by
  have begins : Begins (.unitTestPace 10 600) (fun _ _ => false) t := begins
  refine begins.carries_of_due fits submissions carries mined ?_
  intro tip rest headers high
  exact mined.dueBits_eq headers high

/-- Every mined chain of the first interval is carried once it is submitted from the oldest header
on. -/
theorem Begins.carries_mined (begins : Begins .unitTest (fun _ _ => false) t)
    (fits : now + 7200 ≤ Int64.maxValue.toInt) (mined : MinedChain now headers) :
    (t.after (mining now headers)).Carries headers := by
  induction mined with
  | first => exact begins.carries
  | next before short names new bits meets late near ih =>
    rw [mining_cons]
    exact (begins.carries_next fits _ ih (.next before short names new bits meets late near)).2

/-- The newest header of a chain that was mined is stored, as the child of the next one. -/
theorem Begins.exists_mined (begins : Begins .unitTest (fun _ _ => false) t)
    (fits : now + 7200 ≤ Int64.maxValue.toInt) (mined : MinedChain now (h :: parent :: older)) :
    ∃ r q, r ∈ (t.after (mining now (h :: parent :: older))).store.catalog ∧
      (t.after (mining now (h :: parent :: older))).store.catalog.Links q r ∧
      r.header = h ∧ q.header = parent := by
  have grown := (begins.rooted.after (mining now (h :: parent :: older))).grown
  obtain ⟨r, bears⟩ := (begins.carries_mined fits mined).exists_bears
  obtain ⟨q, link, before⟩ := bears.parent grown (List.cons_ne_nil _ _)
  exact ⟨r, q, bears.mem, link, bears.header, before.header⟩

end Tracker

theorem mined_unitTestNext :
    MinedChain 1231006685 [Params.unitTestNext, Params.unitTest.genesis] := by
  refine .next .first (by decide) Params.hash_genesis_unitTest.symm ?_ rfl
    Params.meets_unitTestNext.2 ((median_lt_iff (by decide) _).2 (by decide)) (by decide)
  simp only [List.forall_mem_cons, Params.hash_genesis_unitTest, Params.hash_unitTestNext]
  decide

theorem mined_unitTestLate :
    MinedChain 1231006685
      [Params.unitTestLate, Params.unitTestNext, Params.unitTest.genesis] := by
  refine .next mined_unitTestNext (by decide) Params.hash_unitTestNext.symm ?_ rfl ?_
    ((median_lt_iff (by decide) _).2 (by decide)) (by decide)
  · simp only [List.forall_mem_cons, Params.hash_genesis_unitTest, Params.hash_unitTestNext,
      Params.hash_unitTestLate]
    decide
  · unfold Header.Meets
    rw [Params.hash_unitTestLate]
    decide

theorem mined_unitTestBack :
    MinedChain 1231006685
      [Params.unitTestBack, Params.unitTestLate, Params.unitTestNext,
        Params.unitTest.genesis] := by
  refine .next mined_unitTestLate (by decide) Params.hash_unitTestLate.symm ?_ rfl ?_
    ((median_lt_iff (by decide) _).2 (by decide)) (by decide)
  · simp only [List.forall_mem_cons, Params.hash_genesis_unitTest, Params.hash_unitTestNext,
      Params.hash_unitTestLate, Params.hash_unitTestBack]
    decide
  · unfold Header.Meets
    rw [Params.hash_unitTestBack]
    decide

/-! Intervals of two headers. -/

section Pairs

variable {timespan : UInt32} {tip first : Record} {rest : List Record}

theorem Params.dueBits_of_second (second : tip.height.toNat = 1) (time : UInt32) :
    (unitTestPace 2 timespan).dueBits [tip, first] time =
      some ((unitTestPace 2 timespan).nextTarget tip.header.claimed first.header.time
        tip.header.time).toCompact := by
  have ends : tip.height ≠ 0 ∧ (tip.height.toNat + 1) % 2 = 0 := by
    refine ⟨?_, by rw [second]⟩
    intro low
    rw [low] at second
    cases second
  exact if_pos ends

/-- The same chain is mined if the first interval leaves the easiest target. -/
theorem Tracker.Begins.carries_unitTestBack {t : Tracker}
    (begins : Begins (.unitTestPace 2 timespan) (fun _ _ => false) t)
    (stays : ((Params.unitTestPace 2 timespan).nextTarget Params.unitTest.limit 1231006505
      1231006565).toCompact = Params.unitTest.limitBits) :
    (t.after (mining 1231006685 [Params.unitTestBack, Params.unitTestLate, Params.unitTestNext,
      Params.unitTest.genesis])).Carries [Params.unitTestBack, Params.unitTestLate,
        Params.unitTestNext, Params.unitTest.genesis] := by
  obtain ⟨-, next⟩ := begins.carries_of_due (by decide) [] begins.carries mined_unitTestNext <| by
    intro tip rest headers high
    have own : tip.header = Params.unitTest.genesis := (List.cons.inj headers).1
    rw [Params.dueBits_of_open (by simp [high]), own]
    rfl
  obtain ⟨-, late⟩ := begins.carries_of_due (by decide) _ next mined_unitTestLate <| by
    intro tip rest headers high
    obtain ⟨own, behind⟩ := List.cons.inj headers
    obtain ⟨first, rfl, start⟩ := List.map_eq_singleton_iff.1 behind
    have claimed : Params.unitTestNext.claimed = Params.unitTest.limit :=
      Header.claimed_of_target Params.meets_unitTestNext.1
    rw [Params.dueBits_of_second high, own, start, claimed]
    exact congrArg some stays
  obtain ⟨-, back⟩ := begins.carries_of_due (by decide) _ late mined_unitTestBack <| by
    intro tip rest headers high
    have own : tip.header = Params.unitTestLate := (List.cons.inj headers).1
    rw [Params.dueBits_of_open (by simp [high]), own]
    rfl
  exact back

end Pairs

namespace Params

/-- A header mined on the first one of the unit test network, a quarter of a minute after it. -/
def unitTestQuick : Header := { unitTestNext with time := 1231006520 }

theorem hash_unitTestQuick : unitTestQuick.hash =
    Hash.ofNat 0x2df3646802e6a08619cb4386a52bb026fe4cf252e4c392ffdf5223911ad50ff9 := by
  decide +kernel

/-- A header mined on top of that, four times as hard. -/
def unitTestHard : Header :=
  { unitTestNext with
    previous := Hash.ofNat 0x2df3646802e6a08619cb4386a52bb026fe4cf252e4c392ffdf5223911ad50ff9
    time := 1231006522
    bits := 0x201fffff }

theorem hash_unitTestHard : unitTestHard.hash =
    Hash.ofNat 0x18e35a488e28ed66b3faa41579db1509905ffb2b2ec34b3a9fe009a1366b816e := by
  decide +kernel

end Params

theorem mined_unitTestQuick :
    MinedChain 1231006685 [Params.unitTestQuick, Params.unitTest.genesis] := by
  refine .next .first (by decide) Params.hash_genesis_unitTest.symm ?_ rfl ?_
    ((median_lt_iff (by decide) _).2 (by decide)) (by decide)
  · simp only [List.forall_mem_cons, Params.hash_genesis_unitTest, Params.hash_unitTestQuick]
    decide
  · unfold Header.Meets
    rw [Params.hash_unitTestQuick]
    decide

theorem mined_unitTestHard : Params.unitTest.Mined Params.unitTestHard := by
  refine ⟨Target.ofNat (0x1fffff * 256 ^ 29), ?_, ?_, ?_⟩
  · rfl
  · decide
  · unfold Header.Meets
    rw [Params.hash_unitTestHard]
    decide

namespace Tracker

variable {t : Tracker}

/-- Three headers mined in turn, and a quick one beside the first of them. -/
def rivalry : List Submission :=
  mining 1231006685 [Params.unitTestBack, Params.unitTestLate, Params.unitTestNext,
    Params.unitTest.genesis] ++ [⟨Params.unitTestQuick, 1231006685⟩]

/-- In intervals of two headers that should take a minute, the quick header is stored while the head
stays where it is. -/
theorem Begins.rivalry_stored (begins : Begins (.unitTestPace 2 60) (fun _ _ => false) t) :
    (t.after rivalry).store.catalog.Bears (t.after rivalry).store.head
        [Params.unitTestBack, Params.unitTestLate, Params.unitTestNext, Params.unitTest.genesis] ∧
      (∀ s ∈ (t.after rivalry).store.catalog, s.header ∈ [Params.unitTestQuick,
        Params.unitTestBack, Params.unitTestLate, Params.unitTestNext, Params.unitTest.genesis]) ∧
      ∃ quick, (t.after rivalry).store.catalog.Bears quick
        [Params.unitTestQuick, Params.unitTest.genesis] := by
  have carries := begins.carries_unitTestBack rfl
  rw [rivalry]
  generalize mining 1231006685 [Params.unitTestBack, Params.unitTestLate, Params.unitTestNext,
    Params.unitTest.genesis] = earlier at carries
  have grown := (begins.rooted.after earlier).grown
  have head := begins.bears_head earlier carries
  have first : (t.after earlier).store.catalog.Bears t.store.head [Params.unitTest.genesis] := by
    refine ⟨grown.first_mem, ?_⟩
    rw [grown.branch_first, List.map_singleton, begins.head_header]
    rfl
  have passes : (Params.unitTestPace 2 60).Passes
      ((t.after earlier).store.catalog.branch t.store.head) Params.unitTestQuick 1231006685 := by
    obtain ⟨rest, split, own, -⟩ := first.exists_cons
    have headers := first.branch
    rw [split] at headers ⊢
    apply mined_unitTestQuick.passes_of_due headers (by decide)
    rw [Params.dueBits_of_open (by simp [grown.height_first]), own]
    rfl
  have new : ∀ x ∈ [Params.unitTestBack, Params.unitTestLate, Params.unitTestNext,
      Params.unitTest.genesis], x.hash ≠ Params.unitTestQuick.hash := by
    simp only [List.forall_mem_cons, Params.hash_genesis_unitTest, Params.hash_unitTestNext,
      Params.hash_unitTestLate, Params.hash_unitTestBack, Params.hash_unitTestQuick]
    decide
  obtain ⟨quick, -, bears, only, moves⟩ := begins.exists_entered earlier first carries.only
    Params.hash_genesis_unitTest.symm new (by decide) passes
  have grown' := (begins.rooted.after (earlier ++ [⟨Params.unitTestQuick, 1231006685⟩])).grown
  have lighter : ¬quick.Outweighs (t.after earlier).store.head := by
    have less : quick.work.toNat = 4 := bears.work grown'
    have more : (t.after earlier).store.head.work.toNat = 8 := head.work grown
    show ¬(t.after earlier).store.head.work.toNat < quick.work.toNat
    omega
  rw [if_neg lighter] at moves
  rw [moves]
  exact ⟨head.mono grown (begins.rooted.within_after earlier _), only, quick, bears⟩

/-- Then a header four times as hard, mined on the quick one, becomes the head. -/
theorem Begins.rivalry_decided (begins : Begins (.unitTestPace 2 60) (fun _ _ => false) t) :
    (t.after (rivalry ++ [⟨Params.unitTestHard, 1231006685⟩])).store.catalog.Bears
      (t.after (rivalry ++ [⟨Params.unitTestHard, 1231006685⟩])).store.head
      [Params.unitTestHard, Params.unitTestQuick, Params.unitTest.genesis] := by
  obtain ⟨head, only, quick, bears⟩ := begins.rivalry_stored
  have grown := (begins.rooted.after rivalry).grown
  have passes : (Params.unitTestPace 2 60).Passes ((t.after rivalry).store.catalog.branch quick)
      Params.unitTestHard 1231006685 := by
    obtain ⟨rest, split, own, behind⟩ := bears.exists_cons
    have headers := bears.branch
    rw [split] at headers ⊢
    refine Params.passes_at_pace headers (by decide) mined_unitTestHard ?_
      ((median_lt_iff (by decide) _).2 (by decide)) (by decide) (by decide)
    obtain ⟨first, rfl, start⟩ := List.map_eq_singleton_iff.1 behind
    rw [Params.dueBits_of_second (bears.height grown), own, start]
    rfl
  have new : ∀ x ∈ [Params.unitTestQuick, Params.unitTestBack, Params.unitTestLate,
      Params.unitTestNext, Params.unitTest.genesis], x.hash ≠ Params.unitTestHard.hash := by
    simp only [List.forall_mem_cons, Params.hash_genesis_unitTest, Params.hash_unitTestNext,
      Params.hash_unitTestLate, Params.hash_unitTestBack, Params.hash_unitTestQuick,
      Params.hash_unitTestHard]
    decide
  obtain ⟨hard, -, bears, -, moves⟩ := begins.exists_entered rivalry bears only
    Params.hash_unitTestQuick.symm new (by decide) passes
  have grown' := (begins.rooted.after (rivalry ++ [⟨Params.unitTestHard, 1231006685⟩])).grown
  have heavier : hard.Outweighs (t.after rivalry).store.head := by
    have more : hard.work.toNat = 12 := bears.work grown'
    have less : (t.after rivalry).store.head.work.toNat = 8 := head.work grown
    show (t.after rivalry).store.head.work.toNat < hard.work.toNat
    omega
  rw [moves, if_pos heavier]
  exact bears

end Tracker

end HeaviestChain
