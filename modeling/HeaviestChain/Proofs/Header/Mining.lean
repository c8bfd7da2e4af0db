import HeaviestChain.Header.Mining
import HeaviestChain.Proofs.Params.Sound

/-!
The search for a nonce. Without a bound on its tries it ends exactly if some nonce meets the claimed
target. It ends with the first such nonce in the order that begins at the nonce of the header and
goes on from zero behind the greatest, and it leaves the other fields as they are.
-/

namespace HeaviestChain.Header

/-- The header with another nonce. -/
def withNonce (h : Header) (nonce : UInt32) : Header := { h with nonce }

/-- All nonces from one on: upward to the greatest, then from zero. -/
def nonces (start : UInt32) : List UInt32 :=
  (List.range' start.toNat (UInt32.size - start.toNat) ++ List.range start.toNat).map UInt32.ofNat

/-- The runs of a search that goes on until a header meets the target: the hash that it ends with
and the header then. -/
inductive Grinds (t : Target) : Header → Hash → Header → Prop where
  | met {h : Header} (meets : h.Meets t) : Grinds t h h.hash h
  | missed {h found : Header} {hash : Hash} (misses : ¬h.Meets t)
      (rest : Grinds t h.bump hash found) : Grinds t h hash found

/-- Whether a search ends with a result and leaves a header behind. A target that cannot be read
ends it at once. -/
def Ends (h : Header) (result : Except CompactError Hash) (left : Header) : Prop :=
  match h.target with
  | .error e => result = .error e ∧ left = h
  | .ok t => ∃ hash, result = .ok hash ∧ Grinds t h hash left

/-- Whether a search for a target ends with a header: it is the first one that meets the target and
differs in the nonce alone, and another search leaves it as it is. -/
structure Finds (h : Header) (t : Target) (found : Header) : Prop where
  solved : h.solve = .ok (some found)
  ends : ∀ result left, h.Ends result left ↔ result = .ok found.hash ∧ left = found
  kept : found = h.withNonce found.nonce
  first : ∃ tried rest, nonces h.nonce = tried ++ found.nonce :: rest ∧
    ∀ nonce ∈ tried, ¬(h.withNonce nonce).Meets t
  meets : found.Meets t
  checked : found.meetsOwnTarget = .ok true
  again : found.solve = .ok (some found)

variable {t : Target} {h found other : Header} {a b : Hash}

/-- The nonces are those that come up by counting on from the first. -/
theorem nonces_eq (start : UInt32) :
    nonces start = (List.range UInt32.size).map fun k => start + UInt32.ofNat k := by
  have below : start.toNat < UInt32.size := start.toNat_lt
  have whole : UInt32.size = (UInt32.size - start.toNat) + start.toNat := by omega
  rw [nonces, List.map_append, List.range'_eq_map_range, List.map_map, whole, List.range_add,
    List.map_append, List.map_map, Nat.add_sub_cancel]
  congr 1
  · apply List.map_congr_left
    intro k _
    apply UInt32.toNat_inj.1
    simp
  · apply List.map_congr_left
    intro k _
    apply UInt32.toNat_inj.1
    have full : UInt32.size = 2 ^ 32 := rfl
    simp only [Function.comp_apply, UInt32.toNat_add, UInt32.toNat_ofNat']
    omega

theorem mem_nonces (start nonce : UInt32) : nonce ∈ nonces start := by
  rw [nonces_eq, List.mem_map]
  refine ⟨(nonce - start).toNat, List.mem_range.2 (nonce - start).toNat_lt, ?_⟩
  rw [UInt32.ofNat_toNat, UInt32.add_comm, UInt32.sub_add_cancel]

/-- A search tries the nonces in turn and stops at the first that meets the target. -/
theorem search_eq (tries : Nat) (t : Target) (h : Header) :
    search tries t h =
      (((List.range tries).map fun k => h.nonce + UInt32.ofNat k).find? fun nonce =>
        (h.withNonce nonce).Meets t).map h.withNonce := by
  induction tries generalizing h with
  | zero => rfl
  | succ tries ih =>
    have here : h.nonce + UInt32.ofNat 0 = h.nonce := UInt32.add_zero h.nonce
    have later : (List.range tries).map ((fun k => h.nonce + UInt32.ofNat k) ∘ Nat.succ) =
        (List.range tries).map fun k => h.bump.nonce + UInt32.ofNat k := by
      apply List.map_congr_left
      intro k _
      show h.nonce + UInt32.ofNat (k + 1) = h.nonce + 1 + UInt32.ofNat k
      rw [UInt32.ofNat_add, UInt32.add_assoc, UInt32.add_comm (UInt32.ofNat k)]
      rfl
    rw [List.range_succ_eq_map, List.map_cons, List.map_map, later, here, search]
    by_cases meets : h.Meets t
    · have now : (h.withNonce h.nonce).Meets t := meets
      simp only [meets, if_true, List.find?_cons_of_pos, now, decide_true, Option.map_some]
      rfl
    · have now : ¬(h.withNonce h.nonce).Meets t := meets
      rw [if_neg meets, List.find?_cons_of_neg (by simpa using now), ih]
      rfl

/-- A search through all nonces ends with the first one that meets the target. -/
theorem search_size (t : Target) (h : Header) :
    search UInt32.size t h =
      ((nonces h.nonce).find? fun nonce => (h.withNonce nonce).Meets t).map h.withNonce := by
  rw [search_eq, nonces_eq]

/-- What a bounded search finds an unbounded one ends with. -/
theorem grinds_of_search {tries : Nat} (e : search tries t h = some found) :
    Grinds t h found.hash found := by
  induction tries generalizing h with
  | zero => cases e
  | succ tries ih =>
    rw [search] at e
    split at e
    · rename_i meets
      obtain rfl := Option.some.inj e
      exact .met meets
    · rename_i misses
      exact .missed misses (ih e)

theorem Grinds.unique (ha : Grinds t h a found) (hb : Grinds t h b other) :
    a = b ∧ found = other := by
  induction ha with
  | met meets =>
    cases hb with
    | met _ => exact ⟨rfl, rfl⟩
    | missed misses _ => exact absurd meets misses
  | missed misses _ ih =>
    cases hb with
    | met meets => exact absurd meets misses
    | missed _ rest => exact ih rest

theorem Grinds.exists_meets (grinds : Grinds t h a found) :
    ∃ nonce, (h.withNonce nonce).Meets t := by
  induction grinds with
  | @met h meets => exact ⟨h.nonce, meets⟩
  | missed _ _ ih => exact ih

/-- If some nonce meets the target the first one is found, within as many tries as there are
nonces. -/
theorem exists_search (solvable : ∃ nonce, (h.withNonce nonce).Meets t) :
    ∃ nonce tried rest, search UInt32.size t h = some (h.withNonce nonce) ∧
      (h.withNonce nonce).Meets t ∧ nonces h.nonce = tried ++ nonce :: rest ∧
      ∀ other ∈ tried, ¬(h.withNonce other).Meets t := by
  obtain ⟨nonce, meets⟩ := solvable
  have some : ((nonces h.nonce).find? fun nonce => (h.withNonce nonce).Meets t).isSome :=
    List.find?_isSome.2 ⟨nonce, mem_nonces h.nonce nonce, by simpa using meets⟩
  obtain ⟨first, e⟩ := Option.isSome_iff_exists.1 some
  obtain ⟨meets, tried, rest, split, misses⟩ := List.find?_eq_some_iff_append.1 e
  refine ⟨first, tried, rest, ?_, by simpa using meets, split, ?_⟩
  · rw [search_size, e]
    rfl
  · intro other m
    simpa using misses other m

/-- The unbounded search ends exactly as the one through all nonces does. -/
theorem grinds_iff : Grinds t h a found ↔ search UInt32.size t h = some found ∧ a = found.hash := by
  constructor
  · intro grinds
    obtain ⟨nonce, -, -, e, -⟩ := exists_search grinds.exists_meets
    obtain ⟨rfl, rfl⟩ := grinds.unique (grinds_of_search e)
    exact ⟨e, rfl⟩
  · rintro ⟨e, rfl⟩
    exact grinds_of_search e

theorem solve_of_target (claims : h.target = .ok t) :
    h.solve = .ok (search UInt32.size t h) := by
  rw [solve, claims]

/-- A header that meets the target that it claims is its own solution. -/
theorem solve_of_meets (claims : h.target = .ok t) (meets : h.Meets t) :
    h.solve = .ok (some h) := by
  have here : search UInt32.size t h = some h := by
    show search (UInt32.size - 1 + 1) t h = some h
    rw [search, if_pos meets]
  rw [solve_of_target claims, here]

theorem finds_of_target (claims : h.target = .ok t)
    (solvable : ∃ nonce, (h.withNonce nonce).Meets t) : ∃ found, h.Finds t found := by
  obtain ⟨nonce, tried, rest, e, meets, split, misses⟩ := exists_search solvable
  have same : (h.withNonce nonce).target = .ok t := claims
  refine ⟨h.withNonce nonce, ?_, ?_, rfl, ⟨tried, rest, split, misses⟩, meets, ?_,
    solve_of_meets same meets⟩
  · rw [solve_of_target claims, e]
  · intro result left
    simp only [Ends, claims, grinds_iff, e, Option.some.injEq]
    constructor
    · rintro ⟨hash, rfl, rfl, rfl⟩
      exact ⟨rfl, rfl⟩
    · rintro ⟨rfl, rfl⟩
      exact ⟨_, rfl, rfl, rfl⟩
  · simp only [meetsOwnTarget, same, meets, decide_true]

/-- A search ends with the first nonce that meets the target, if there is one. A target that cannot
be read is reported, and the header is left as it was. -/
theorem first_nonce_found (h : Header) :
    (∀ e, h.target = .error e →
      h.solve = .error e ∧ ∀ result left, h.Ends result left ↔ result = .error e ∧ left = h) ∧
    ∀ t, h.target = .ok t → (∃ nonce, (h.withNonce nonce).Meets t) → ∃ found, h.Finds t found := by
  refine ⟨?_, fun t claims solvable => finds_of_target claims solvable⟩
  intro e fails
  refine ⟨by rw [solve, fails], ?_⟩
  intro result left
  rw [Ends, fails]

/-- From the last nonce but one, which fails as the last one does, the search goes on to zero. -/
theorem first_nonce_found_unitTestBack :
    ∃ h : Header, h = Params.unitTestBack.withNonce 4294967294 ∧
      h.target = .ok Params.unitTest.limit ∧
      (∃ nonce, (h.withNonce nonce).Meets Params.unitTest.limit) ∧
      h.Finds Params.unitTest.limit Params.unitTestBack := by
  have meets : Params.unitTestBack.Meets Params.unitTest.limit := by
    unfold Meets
    rw [Params.hash_unitTestBack]
    decide
  have last : ¬(Params.unitTestBack.withNonce 4294967295).Meets Params.unitTest.limit := by
    decide +kernel
  have before : ¬(Params.unitTestBack.withNonce 4294967294).Meets Params.unitTest.limit := by
    decide +kernel
  refine ⟨_, rfl, rfl, ⟨0, meets⟩, ?_⟩
  obtain ⟨found, finds⟩ := (first_nonce_found (Params.unitTestBack.withNonce 4294967294)).2
    Params.unitTest.limit rfl ⟨0, meets⟩
  have grinds : Grinds Params.unitTest.limit (Params.unitTestBack.withNonce 4294967294)
      Params.unitTestBack.hash Params.unitTestBack := .missed before (.missed last (.met meets))
  have ends := (finds.ends (.ok Params.unitTestBack.hash) Params.unitTestBack).1 ⟨_, rfl, grinds⟩
  rwa [← ends.2] at finds

end HeaviestChain.Header
