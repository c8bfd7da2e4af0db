import HeaviestChain.Json.Value

/-!
Reading JSON with a machine that takes one character at a time. Its state holds the open containers
with the parts read so far, and what may come next; a value is read when all containers are closed.
Containers nest to any depth.
-/

namespace HeaviestChain.Json

/-- Blanks between tokens. -/
def isBlank (c : Char) : Bool := c = ' ' ∨ c = '\n' ∨ c = '\t' ∨ c = '\r'

/-- How far a numeral has been read. -/
inductive Phase where
  | minus
  | zero
  | whole
  | point
  | fraction
  | mark
  | markSign
  | exponent
  deriving DecidableEq

namespace Phase

/-- The phase after one more character, if the character continues the numeral. A numeral that
begins with zero has no other digit before its point. -/
def next? : Phase → Char → Option Phase
  | minus, c => if c = '0' then some zero else if c.isDigit then some whole else none
  | zero, c => if c = '.' then some point else if c = 'e' ∨ c = 'E' then some mark else none
  | whole, c =>
    if c.isDigit then some whole
    else if c = '.' then some point
    else if c = 'e' ∨ c = 'E' then some mark
    else none
  | point, c => if c.isDigit then some fraction else none
  | fraction, c =>
    if c.isDigit then some fraction else if c = 'e' ∨ c = 'E' then some mark else none
  | mark, c =>
    if c = '+' ∨ c = '-' then some markSign else if c.isDigit then some exponent else none
  | markSign, c => if c.isDigit then some exponent else none
  | exponent, c => if c.isDigit then some exponent else none

/-- Whether the numeral may end here. -/
def complete : Phase → Bool
  | zero | whole | fraction | exponent => true
  | minus | point | mark | markSign => false

end Phase

/-- What an escape in a token still lacks: nothing, the letter after the backslash, or digits. -/
inductive Escape where
  | plain
  | letter
  | digits (count : Nat)

/-- An open container, its parts newest first. A member waits for the value of its key. -/
inductive Frame where
  | array (items : List Value)
  | object (fields : List (List Char × Value))
  | member (fields : List (List Char × Value)) (key : List Char)

/-- What may come next. Tokens being read stand newest character first. -/
inductive Mode where
  | value
  | firstItem
  | firstKey
  | key
  | keyToken (token : List Char) (escape : Escape)
  | colon
  | text (token : List Char) (escape : Escape)
  | numeral (phase : Phase) (token : List Char)
  | literal (rest : List Char) (v : Value)
  | separator
  | done (v : Value)

/-- A mode and the open containers, the innermost first. -/
structure State where
  mode : Mode
  stack : List Frame

/-- Hands a finished value to the container that waits for it. -/
def deliver : List Frame → Value → Option State
  | [], v => some ⟨.done v, []⟩
  | .array items :: stack, v => some ⟨.separator, .array (v :: items) :: stack⟩
  | .member fields key :: stack, v => some ⟨.separator, .object ((key, v) :: fields) :: stack⟩
  | .object _ :: _, _ => none

/-- Takes the first character of a value. -/
def startValue (stack : List Frame) (c : Char) : Option State :=
  if c = '\x22' then some ⟨.text [] .plain, stack⟩
  else if c = '[' then some ⟨.firstItem, .array [] :: stack⟩
  else if c = '\x7b' then some ⟨.firstKey, .object [] :: stack⟩
  else if c = '-' then some ⟨.numeral .minus [c], stack⟩
  else if c = '0' then some ⟨.numeral .zero [c], stack⟩
  else if c.isDigit then some ⟨.numeral .whole [c], stack⟩
  else if c = 'n' then some ⟨.literal ['u', 'l', 'l'] .null, stack⟩
  else if c = 't' then some ⟨.literal ['r', 'u', 'e'] (.bool true), stack⟩
  else if c = 'f' then some ⟨.literal ['a', 'l', 's', 'e'] (.bool false), stack⟩
  else none

/-- Takes a character that follows a value inside a container, or the bracket that closes it. -/
def separate (stack : List Frame) (c : Char) : Option State :=
  if isBlank c then some ⟨.separator, stack⟩
  else
    match stack with
    | .array items :: rest =>
      if c = ',' then some ⟨.value, stack⟩
      else if c = ']' then deliver rest (.array items.reverse)
      else none
    | .object fields :: rest =>
      if c = ',' then some ⟨.key, stack⟩
      else if c = '\x7d' then deliver rest (.object fields.reverse)
      else none
    | _ => none

/-- Takes a character that follows a value. -/
def follow (s : State) (c : Char) : Option State :=
  match s.mode with
  | .done v => if isBlank c then some ⟨.done v, s.stack⟩ else none
  | .separator => separate s.stack c
  | _ => none

/-- Takes one character of a token, its closing quote apart; controls have to be escaped. -/
def tokenStep (token : List Char) (escape : Escape) (c : Char) : Option (List Char × Escape) :=
  match escape with
  | .plain =>
    if c = '\\' then some (c :: token, .letter)
    else if c.toNat < 32 then none
    else some (c :: token, .plain)
  | .letter =>
    if c = 'u' then some (c :: token, .digits 4)
    else if (Token.escaped? c).isSome then some (c :: token, .plain)
    else none
  | .digits count =>
    if (Hex.value? c.toNat).isNone then none
    else if count ≤ 1 then some (c :: token, .plain)
    else some (c :: token, .digits (count - 1))

/-- Whether a character closes a token. -/
def closesToken (escape : Escape) (c : Char) : Bool :=
  match escape with
  | .plain => c = '\x22'
  | _ => false

/-- Takes one character. -/
def step (s : State) (c : Char) : Option State :=
  match s.mode with
  | .value => if isBlank c then some s else startValue s.stack c
  | .firstItem =>
    if isBlank c then some s
    else if c = ']' then separate s.stack c
    else startValue s.stack c
  | .firstKey =>
    if isBlank c then some s
    else if c = '\x22' then some ⟨.keyToken [] .plain, s.stack⟩
    else if c = '\x7d' then separate s.stack c
    else none
  | .key =>
    if isBlank c then some s
    else if c = '\x22' then some ⟨.keyToken [] .plain, s.stack⟩
    else none
  | .keyToken token escape =>
    if closesToken escape c then
      match s.stack with
      | .object fields :: rest => some ⟨.colon, .member fields token.reverse :: rest⟩
      | _ => none
    else (tokenStep token escape c).map fun t => ⟨.keyToken t.1 t.2, s.stack⟩
  | .colon => if isBlank c then some s else if c = ':' then some ⟨.value, s.stack⟩ else none
  | .text token escape =>
    if closesToken escape c then deliver s.stack (.text token.reverse)
    else (tokenStep token escape c).map fun t => ⟨.text t.1 t.2, s.stack⟩
  | .numeral phase token =>
    match phase.next? c with
    | some phase' => some ⟨.numeral phase' (c :: token), s.stack⟩
    | none =>
      if phase.complete then (deliver s.stack (.number token.reverse)).bind (follow · c) else none
  | .literal (expected :: rest) v =>
    if c ≠ expected then none
    else if rest.isEmpty then deliver s.stack v
    else some ⟨.literal rest v, s.stack⟩
  | .literal [] _ => none
  | .separator | .done _ => follow s c

/-- Nothing read. -/
def start : State := ⟨.value, []⟩

/-- The value read, if the text may end here. -/
def finish (s : State) : Option Value :=
  match s.mode, s.stack with
  | .done v, _ => some v
  | .numeral phase token, [] => if phase.complete then some (.number token.reverse) else none
  | _, _ => none

/-- Takes characters in turn. -/
def run (s : State) (text : List Char) : Option State := text.foldlM step s

/-- Reads a text that holds one value, with blanks around its tokens. -/
def parse? (text : List Char) : Option Value := (run start text).bind finish

end HeaviestChain.Json
