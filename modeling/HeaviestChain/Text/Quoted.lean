/-!
A single character as it is named in a message: between apostrophes, with what has no shape of its
own written as an escape.
-/

namespace HeaviestChain.Text

/-- What stands for a character of the first 256 between apostrophes. Characters without a shape
(controls, the no-break space, the soft hyphen) are named by their code. -/
def characterBody (c : Char) : String :=
  if c = '\x00' then "\\0"
  else if c = '\t' then "\\t"
  else if c = '\n' then "\\n"
  else if c = '\r' then "\\r"
  else if c = '\x27' then "\\'"
  else if c = '\\' then "\\\\"
  else if c.toNat < 32 ∨ 127 ≤ c.toNat ∧ c.toNat ≤ 160 ∨ c.toNat = 173 then
    "\\u\x7b" ++ String.ofList (Nat.toDigits 16 c.toNat) ++ "\x7d"
  else String.singleton c

/-- The character between apostrophes. -/
def quoteCharacter (c : Char) : String := "'" ++ characterBody c ++ "'"

end HeaviestChain.Text
