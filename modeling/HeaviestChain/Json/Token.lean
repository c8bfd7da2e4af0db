import HeaviestChain.Bytes.Hex

/-!
The characters of a JSON text between its quotes. Escaping writes a quote, a backslash and the
controls as escapes and all else as it is; unescaping reads every escape of the format, a character
above the first 65536 as a pair of surrogates.
-/

namespace HeaviestChain.Json.Token

/-- The escape of a character, if it needs one. -/
def escapeOf (c : Char) : List Char :=
  if c = '\x22' then ['\\', '\x22']
  else if c = '\\' then ['\\', '\\']
  else if c = '\x08' then ['\\', 'b']
  else if c = '\x0c' then ['\\', 'f']
  else if c = '\n' then ['\\', 'n']
  else if c = '\r' then ['\\', 'r']
  else if c = '\t' then ['\\', 't']
  else if c.toNat < 32 then
    ['\\', 'u', '0', '0', Hex.digit (c.toNat / 16), Hex.digit (c.toNat % 16)]
  else [c]

/-- The token of a text. -/
def escape (text : List Char) : List Char := text.flatMap escapeOf

/-- What the letter after a backslash stands for; `u` is not among them. -/
def escaped? (letter : Char) : Option Char :=
  if letter = '\x22' then some '\x22'
  else if letter = '\\' then some '\\'
  else if letter = '/' then some '/'
  else if letter = 'b' then some '\x08'
  else if letter = 'f' then some '\x0c'
  else if letter = 'n' then some '\n'
  else if letter = 'r' then some '\r'
  else if letter = 't' then some '\t'
  else none

/-- The sixteen-bit unit of four hexadecimal digits. -/
def unit? (a b c d : Char) : Option Nat :=
  match Hex.value? a.toNat, Hex.value? b.toNat, Hex.value? c.toNat, Hex.value? d.toNat with
  | some w, some x, some y, some z => some (((w * 16 + x) * 16 + y) * 16 + z)
  | _, _, _, _ => none

/-- Reads the escapes of a token; a surrogate outside a pair names no character. -/
def unescape? : List Char → Option (List Char)
  | [] => some []
  | '\\' :: 'u' :: a :: b :: c :: d :: rest =>
    match unit? a b c d with
    | none => none
    | some high =>
      if high < 0xD800 ∨ 0xDFFF < high then (Char.ofNat high :: ·) <$> unescape? rest
      else if 0xDBFF < high then none
      else
        match rest with
        | '\\' :: 'u' :: e :: f :: g :: h :: rest' =>
          match unit? e f g h with
          | none => none
          | some low =>
            if low < 0xDC00 ∨ 0xDFFF < low then none
            else
              (Char.ofNat ((high - 0xD800) * 1024 + (low - 0xDC00) + 0x10000) :: ·) <$>
                unescape? rest'
        | _ => none
  | '\\' :: letter :: rest =>
    match escaped? letter with
    | none => none
    | some c => (c :: ·) <$> unescape? rest
  | c :: rest => if c = '\\' then none else (c :: ·) <$> unescape? rest

end HeaviestChain.Json.Token
