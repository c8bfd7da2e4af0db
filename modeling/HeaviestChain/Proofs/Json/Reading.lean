import HeaviestChain.Proofs.Json.Printing

/-!
The reader takes what the printer writes. A written value is handed to whatever waits for it: at
once if a bracket or a quote ends it, and with the next character if it is a number.
-/

namespace HeaviestChain.Json

variable {s t : State} {stack : List Frame} {c : Char} {text token rest : List Char} {v : Value}

theorem run_cons (s : State) (c : Char) (text : List Char) :
    run s (c :: text) = (step s c).bind fun t => run t text := List.foldlM_cons

theorem run_append (s : State) (text rest : List Char) :
    run s (text ++ rest) = (run s text).bind fun t => run t rest := List.foldlM_append

theorem run_cons_of_step (e : step s c = some t) (text : List Char) :
    run s (c :: text) = run t text := by
  rw [run_cons, e]
  rfl

/-- A value that was handed over has been followed by nothing yet. -/
theorem step_of_deliver (e : deliver stack v = some s) (c : Char) : step s c = follow s c := by
  cases stack with
  | nil => cases e; rfl
  | cons frame stack =>
    cases frame with
    | array items => cases e; rfl
    | object fields => cases e
    | member fields key => cases e; rfl

/-- The characters that follow a value inside a container. -/
def Ends (c : Char) : Prop := c = ',' ∨ c = ']' ∨ c = '\x7d'

/-- Whether a value is handed over when the next character comes. -/
def Value.Read (v : Value) : Prop :=
  ∀ (stack : List Frame) (c : Char) (rest : List Char), Ends c →
    run ⟨.value, stack⟩ (v.render ++ c :: rest) =
      (deliver stack v).bind fun s => (follow s c).bind fun s => run s rest

/-- Whether a value is handed over with its last character. -/
def Value.Closed (v : Value) : Prop :=
  ∀ (stack : List Frame) (rest : List Char),
    run ⟨.value, stack⟩ (v.render ++ rest) = (deliver stack v).bind fun s => run s rest

theorem Value.Closed.read (closed : v.Closed) : v.Read := by
  intro stack c rest _
  rw [closed stack (c :: rest)]
  cases e : deliver stack v with
  | none => rfl
  | some s =>
    show run s (c :: rest) = (follow s c).bind _
    rw [run_cons, step_of_deliver e]

/-! ### Words and texts -/

theorem closed_null : Value.null.Closed := fun _ _ => rfl

theorem closed_bool (b : Bool) : (Value.bool b).Closed := by
  intro stack rest
  cases b <;> rfl

theorem Token.Plain.tail (plain : Token.Plain (c :: token)) : Token.Plain token :=
  fun d m => plain d (List.mem_cons_of_mem c m)

theorem Token.Plain.tokenStep (plain : Token.Plain (c :: token)) (read : List Char) :
    tokenStep read .plain c = some (c :: read, .plain) ∧ closesToken .plain c = false := by
  obtain ⟨quote, slash, shown⟩ := plain c (List.mem_cons_self ..)
  refine ⟨?_, by simpa [closesToken] using quote⟩
  simp only [Json.tokenStep]
  rw [if_neg slash, if_neg (Nat.not_lt.2 shown)]

theorem run_text (plain : Token.Plain token) (read : List Char) (stack : List Frame)
    (rest : List Char) :
    run ⟨.text read .plain, stack⟩ (token ++ '\x22' :: rest) =
      (deliver stack (.text (read.reverse ++ token))).bind fun s => run s rest := by
  induction token generalizing read with
  | nil =>
    rw [List.nil_append, run_cons, List.append_nil]
    rfl
  | cons c token ih =>
    obtain ⟨taken, unclosed⟩ := plain.tokenStep read
    have next : step ⟨.text read .plain, stack⟩ c = some ⟨.text (c :: read) .plain, stack⟩ := by
      simp [step, taken, unclosed]
    rw [List.cons_append, run_cons_of_step next, ih plain.tail]
    simp

theorem run_keyToken (plain : Token.Plain token) (read : List Char)
    (fields : List (List Char × Value)) (stack : List Frame) (rest : List Char) :
    run ⟨.keyToken read .plain, .object fields :: stack⟩ (token ++ '\x22' :: rest) =
      run ⟨.colon, .member fields (read.reverse ++ token) :: stack⟩ rest := by
  induction token generalizing read with
  | nil =>
    rw [List.nil_append, run_cons, List.append_nil]
    rfl
  | cons c token ih =>
    obtain ⟨taken, unclosed⟩ := plain.tokenStep read
    have next : step ⟨.keyToken read .plain, .object fields :: stack⟩ c =
        some ⟨.keyToken (c :: read) .plain, .object fields :: stack⟩ := by
      simp [step, taken, unclosed]
    rw [List.cons_append, run_cons_of_step next, ih plain.tail]
    simp

theorem closed_text (plain : Token.Plain token) : (Value.text token).Closed := by
  intro stack rest
  have start : step ⟨.value, stack⟩ '\x22' = some ⟨.text [] .plain, stack⟩ := rfl
  rw [Value.render, List.append_assoc, List.cons_append, run_cons_of_step start]
  exact run_text plain [] stack rest

/-! ### Numbers -/

theorem next?_of_ends {phase : Phase} (ends : Ends c) : phase.next? c = none := by
  obtain rfl | rfl | rfl := ends <;> cases phase <;> rfl

theorem step_numeral_of_ends {phase : Phase} (complete : phase.complete = true) (ends : Ends c) :
    step ⟨.numeral phase token, stack⟩ c =
      (deliver stack (.number token.reverse)).bind fun s => follow s c := by
  simp [step, next?_of_ends ends, complete]

theorem run_digits (all : ∀ d ∈ text, d.isDigit) (read : List Char) (stack : List Frame)
    (rest : List Char) :
    run ⟨.numeral .whole read, stack⟩ (text ++ rest) =
      run ⟨.numeral .whole (text.reverse ++ read), stack⟩ rest := by
  induction text generalizing read with
  | nil => rfl
  | cons c text ih =>
    have digit : c.isDigit := all c (List.mem_cons_self ..)
    have next : step ⟨.numeral .whole read, stack⟩ c =
        some ⟨.numeral .whole (c :: read), stack⟩ := by
      simp [step, Phase.next?, digit]
    rw [List.cons_append, run_cons_of_step next, ih (fun d m => all d (List.mem_cons_of_mem c m))]
    simp

/-- A digit is none of the characters that begin another value. -/
theorem startValue_of_isDigit (digit : c.isDigit) (first : c ≠ '0') (stack : List Frame) :
    startValue stack c = some ⟨.numeral .whole [c], stack⟩ := by
  have quote : c ≠ '\x22' := by rintro rfl; cases digit
  have bracket : c ≠ '[' := by rintro rfl; cases digit
  have brace : c ≠ '\x7b' := by rintro rfl; cases digit
  have minus : c ≠ '-' := by rintro rfl; cases digit
  simp [startValue, quote, bracket, brace, minus, first, digit]

theorem read_number (whole : Numeral.Whole token) : (Value.number token).Read := by
  intro stack c rest ends
  rw [Value.render]
  cases whole with
  | zero =>
    have start : step ⟨.value, stack⟩ '0' = some ⟨.numeral .zero ['0'], stack⟩ := rfl
    rw [List.cons_append, run_cons_of_step start, List.nil_append, run_cons,
      step_numeral_of_ends rfl ends, Option.bind_assoc]
    rfl
  | @digits d digits first all =>
    have digit : d.isDigit := all d (List.mem_cons_self ..)
    have start : step ⟨.value, stack⟩ d = some ⟨.numeral .whole [d], stack⟩ := by
      simp [step, not_isBlank_of_isDigit digit, startValue_of_isDigit digit first]
    rw [List.cons_append, run_cons_of_step start,
      run_digits (fun e m => all e (List.mem_cons_of_mem d m)), run_cons,
      step_numeral_of_ends rfl ends, Option.bind_assoc]
    simp

/-! ### Arrays and objects -/

/-- The first item of an array is read as any value. -/
theorem run_firstItem (written : v.Written) (stack : List Frame) (rest : List Char) :
    run ⟨.firstItem, stack⟩ (v.render ++ rest) = run ⟨.value, stack⟩ (v.render ++ rest) := by
  obtain ⟨c, text, e, blank, closing⟩ := written.render_eq_cons
  have same : step ⟨.firstItem, stack⟩ c = step ⟨.value, stack⟩ c := by
    simp [step, blank, closing]
  rw [e, List.cons_append, run_cons, run_cons, same]

theorem run_items {items : List Value} (read : ∀ w ∈ v :: items, w.Read) (earlier : List Value)
    (stack : List Frame) (rest : List Char) :
    run ⟨.value, .array earlier :: stack⟩ (renderItems (v :: items) ++ ']' :: rest) =
      (deliver stack (.array (earlier.reverse ++ v :: items))).bind fun s => run s rest := by
  induction items generalizing v earlier with
  | nil =>
    rw [renderItems, read v (List.mem_cons_self ..) _ _ _ (.inr (.inl rfl))]
    simp [deliver, follow, separate, isBlank]
  | cons w items ih =>
    have first := read v (List.mem_cons_self ..) (.array earlier :: stack) ','
      (renderItems (w :: items) ++ ']' :: rest) (.inl rfl)
    have later := ih (fun x m => read x (List.mem_cons_of_mem v m)) (v :: earlier)
    rw [renderItems, List.append_assoc, List.cons_append, first]
    simpa [deliver, follow, separate, isBlank] using later

theorem closed_array {items : List Value} (written : ∀ v ∈ items, v.Written)
    (read : ∀ v ∈ items, v.Read) : (Value.array items).Closed := by
  intro stack rest
  have start : step ⟨.value, stack⟩ '[' = some ⟨.firstItem, .array [] :: stack⟩ := rfl
  rw [Value.render, List.append_assoc, List.cons_append, run_cons_of_step start]
  cases items with
  | nil =>
    rw [renderItems, List.nil_append, List.cons_append, run_cons]
    rfl
  | cons v items =>
    have first : ∃ more, renderItems (v :: items) = v.render ++ more := by
      cases items with
      | nil => exact ⟨[], by rw [renderItems, List.append_nil]⟩
      | cons w items => exact ⟨_, by rw [renderItems]⟩
    obtain ⟨more, e⟩ := first
    have items' := run_items read [] stack rest
    rw [e, List.append_assoc] at items' ⊢
    rw [run_firstItem (written v (List.mem_cons_self ..))]
    exact items'

theorem run_member {key : List Char} (plain : Token.Plain key) (read : v.Read)
    (earlier : List (List Char × Value)) (stack : List Frame) {c : Char} (ends : Ends c)
    (rest : List Char) :
    run ⟨.keyToken [] .plain, .object earlier :: stack⟩
        (key ++ '\x22' :: ':' :: v.render ++ c :: rest) =
      (separate (.object ((key, v) :: earlier) :: stack) c).bind fun s => run s rest := by
  have colon : step ⟨.colon, .member earlier key :: stack⟩ ':' =
      some ⟨.value, .member earlier key :: stack⟩ := rfl
  rw [List.append_assoc, List.cons_append, List.cons_append, run_keyToken plain,
    List.reverse_nil, List.nil_append, run_cons_of_step colon, read _ _ _ ends]
  rfl

theorem run_fields {key : List Char} {fields : List (List Char × Value)}
    (keys : ∀ f ∈ (key, v) :: fields, Token.Plain f.1) (read : ∀ f ∈ (key, v) :: fields, f.2.Read)
    (earlier : List (List Char × Value)) (stack : List Frame) (rest : List Char)
    (hs : step s '\x22' = some ⟨.keyToken [] .plain, .object earlier :: stack⟩) :
    run s (renderFields ((key, v) :: fields) ++ '\x7d' :: rest) =
      (deliver stack (.object (earlier.reverse ++ (key, v) :: fields))).bind fun s =>
        run s rest := by
  have plain := keys _ (List.mem_cons_self ..)
  have first := read _ (List.mem_cons_self ..)
  -- the state before a later key differs from that before the first, but takes the quote alike
  induction fields generalizing key v earlier s with
  | nil =>
    rw [renderFields, List.cons_append, List.cons_append, run_cons_of_step hs,
      run_member plain first _ _ (.inr (.inr rfl))]
    simp [separate, isBlank]
  | cons f fields ih =>
    obtain ⟨key', w⟩ := f
    have comma : step ⟨.key, .object ((key, v) :: earlier) :: stack⟩ '\x22' =
        some ⟨.keyToken [] .plain, .object ((key, v) :: earlier) :: stack⟩ := rfl
    have later := ih (fun x m => keys x (List.mem_cons_of_mem _ m))
      (fun x m => read x (List.mem_cons_of_mem _ m)) ((key, v) :: earlier) comma
      (keys _ (by simp)) (read _ (by simp))
    have split : renderFields ((key, v) :: (key', w) :: fields) ++ '\x7d' :: rest =
        '\x22' :: (key ++ '\x22' :: ':' :: v.render ++
          ',' :: (renderFields ((key', w) :: fields) ++ '\x7d' :: rest)) := by
      simp [renderFields]
    rw [split, run_cons_of_step hs, run_member plain first _ _ (.inl rfl)]
    simpa [separate, isBlank] using later

theorem closed_object {fields : List (List Char × Value)} (keys : ∀ f ∈ fields, Token.Plain f.1)
    (read : ∀ f ∈ fields, f.2.Read) : (Value.object fields).Closed := by
  intro stack rest
  have start : step ⟨.value, stack⟩ '\x7b' = some ⟨.firstKey, .object [] :: stack⟩ := rfl
  rw [Value.render, List.append_assoc, List.cons_append, run_cons_of_step start]
  cases fields with
  | nil =>
    rw [renderFields, List.nil_append, List.cons_append, run_cons]
    rfl
  | cons f fields => exact run_fields keys read [] stack rest rfl

theorem Value.Written.read (written : v.Written) : v.Read := by
  induction written with
  | null => exact closed_null.read
  | bool b => exact (closed_bool b).read
  | number whole => exact read_number whole
  | text plain => exact (closed_text plain).read
  | array values ih => exact (closed_array values ih).read
  | object keys _ ih => exact (closed_object keys ih).read

theorem Value.Written.closed_object {fields : List (List Char × Value)}
    (written : (Value.object fields).Written) : (Value.object fields).Closed := by
  cases written with
  | object keys values => exact Json.closed_object keys fun f m => (values f m).read

theorem parse?_render_object {fields : List (List Char × Value)}
    (written : (Value.object fields).Written) :
    parse? (Value.object fields).render = some (.object fields) := by
  have closed := written.closed_object [] []
  rw [List.append_nil] at closed
  rw [parse?, start, closed]
  rfl

end HeaviestChain.Json
