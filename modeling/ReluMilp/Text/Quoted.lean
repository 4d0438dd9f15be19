import ReluMilp.Text.PrintableTable

/-!
# Quoted texts

A text between quotes, as it stands inside the text of a list: single quotes unless the text holds
a single and no double one, a backslash before quotes and backslashes, and numbers for characters
that have no glyph.
-/

namespace ReluMilp

/-- Whether a character is shown as it is. -/
def isPrintable (c : Char) : Bool :=
  let n := c.toNat
  if n < 127 then 32 ≤ n else !(unprintableRanges.any fun (first, last) => first ≤ n ∧ n ≤ last)

/-- A number in hexadecimal with at least `width` digits. -/
def hexText (width n : Nat) : List Char :=
  let ds := Nat.toDigits 16 n
  List.replicate (width - ds.length) '0' ++ ds

/-- A character between quotes of the kind `quote`. -/
def quotedChar (quote c : Char) : List Char :=
  let n := c.toNat
  if c = quote || c = '\\' then ['\\', c]
  else if c = '\n' then ['\\', 'n']
  else if c = '\r' then ['\\', 'r']
  else if c = '\t' then ['\\', 't']
  else if isPrintable c then [c]
  else if n < 256 then '\\' :: 'x' :: hexText 2 n
  else if n < 65536 then '\\' :: 'u' :: hexText 4 n
  else '\\' :: 'U' :: hexText 8 n

/-- A text between quotes. -/
def quoted (s : String) : String :=
  let cs := s.toList
  let single := Char.ofNat 39
  let double := Char.ofNat 34
  let quote := if cs.contains single && !cs.contains double then double else single
  String.ofList (quote :: (cs.flatMap (quotedChar quote)) ++ [quote])

end ReluMilp
