import HeaviestChain.Bytes.Hex
import HeaviestChain.Bytes.Utf8

/-!
Paths in the targets of requests. Escaped bytes are read in two passes: the first leaves escapes of
the characters that could change how a path is divided, the second, on a single segment, leaves
none.
-/

namespace HeaviestChain.Path

/-- Reads escapes of bytes that are not kept. A percent sign that begins no escape stays. -/
def unescape (kept : List Nat) : List UInt8 → List UInt8
  | p :: hi :: lo :: rest =>
    match p.toNat, Hex.value? hi.toNat, Hex.value? lo.toNat with
    | 0x25, some h, some l =>
      if kept.contains (16 * h + l) then p :: unescape kept (hi :: lo :: rest)
      else UInt8.ofNat (16 * h + l) :: unescape kept rest
    | _, _, _ => p :: unescape kept (hi :: lo :: rest)
  | short => short

/-- The percent sign, the plus sign and the slash. -/
def divisive : List Nat := [0x25, 0x2B, 0x2F]

/-- The characters of a text whose escapes are read, but for the kept ones. -/
def decode (kept : List Nat) (text : List Char) : List Char :=
  Utf8.decodeLenient (unescape kept (Utf8.encode text))

/-- The parts of a text between slashes. -/
def split (text : List Char) : List (List Char) :=
  text.foldr
    (fun c parts =>
      match c, parts with
      | '/', _ => [] :: parts
      | _, [] => [[c]]
      | _, part :: rest => (c :: part) :: rest)
    [[]]

/-- Whether a path may end before this character. -/
def endsPath (c : Char) : Bool := c = '?' ∨ c = '#'

/-- The characters of the name of a scheme. -/
def isScheme (c : Char) : Bool := c.isAlphanum || "+-.~".toList.contains c

/-- A target from its path on. A target that does not begin with its path begins with a scheme and
a host, or has no path. -/
def fromPath (target : List Char) : List Char :=
  match target, target.dropWhile isScheme with
  | '/' :: _, _ => target
  | _, ':' :: '/' :: '/' :: rest => rest.dropWhile fun c => c ≠ '/' ∧ !endsPath c
  | _, _ => []

/-- The segments of the path of a target, without what follows a question mark or a number sign. -/
def segments (target : String) : List String :=
  let path := (fromPath target.toList).takeWhile fun c => !endsPath c
  (split (decode divisive path)).map String.ofList

/-- The text of a segment that stands for a value. -/
def value (segment : String) : List Char := decode [] segment.toList

end HeaviestChain.Path
