/-!
Media types: a type and a subtype, each a token, and parameters. A body is JSON if the subtype says
so, before its last plus sign or behind it.
-/

namespace HeaviestChain.MediaType

/-- The characters of tokens. -/
def isToken (c : Char) : Bool := c.isAlphanum || "!#$%&'*+-.^_`|~".toList.contains c

/-- The characters between quotes: ASCII without controls. -/
def isQuotable (c : Char) : Bool := 32 ≤ c.toNat ∧ c.toNat < 127

/-- How far the parameters have been read. -/
inductive Phase where
  | before
  | name
  | equals
  | value
  | quoted (some : Bool)
  | closed

namespace Phase

/-- The phase after one more character. A quoted value has at least one character. -/
def next? : Phase → Char → Option Phase
  | before, c => if c = ' ' then some before else if isToken c then some name else none
  | name, c => if isToken c then some name else if c = '=' then some equals else none
  | equals, c =>
    if c = '\x22' then some (quoted false) else if isToken c then some value else none
  | value, c => if isToken c then some value else if c = ';' then some before else none
  | quoted any, c =>
    if any && c = '\x22' then some closed else if isQuotable c then some (quoted true) else none
  | closed, c => if c = ' ' then some closed else if c = ';' then some before else none

/-- Whether the parameters may end here. -/
def complete : Phase → Bool
  | before | equals | value | closed => true
  | name | quoted _ => false

end Phase

/-- Whether a text is a list of parameters. -/
def areParameters (text : List Char) : Bool :=
  match text.foldlM Phase.next? .before with
  | some phase => phase.complete
  | none => false

/-- The parts of a subtype before its last plus sign and behind it. A sign at the start separates
nothing. -/
def subtypeParts (subtype : List Char) : List String :=
  let behind := (subtype.reverse.takeWhile fun c => c ≠ '+').reverse
  let before := subtype.take (subtype.length - behind.length - 1)
  if before = [] then [String.ofList subtype] else [String.ofList before, String.ofList behind]

/-- Whether a text is a media type of JSON. -/
def isJson (text : String) : Bool :=
  let cs := text.toList.map Char.toLower
  let top := cs.takeWhile isToken
  match cs.dropWhile isToken with
  | '/' :: rest =>
    let named := top ≠ [] ∧ (subtypeParts (rest.takeWhile isToken)).contains "json"
    match rest.dropWhile isToken with
    | [] => named
    | c :: parameters => named ∧ c = ';' ∧ areParameters parameters
  | _ => false

end HeaviestChain.MediaType
