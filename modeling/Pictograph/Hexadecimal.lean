/-!
# Hexadecimal text

Identities and code points are shown to the reader of a diagnostic in base sixteen, padded with
zeros to a fixed width. Both letter cases occur: identities use lower case, code points upper case.
-/

namespace Pictograph.Hexadecimal

/-- Left pads digits with zeros up to `width`; a longer text is kept whole. -/
private def padded (width : Nat) (digits : List Char) : String :=
  String.ofList (digits.leftpad width '0')

/-- The lower-case digits of `n`, at least `width` of them. -/
def lower (width n : Nat) : String :=
  padded width (Nat.toDigits 16 n)

/-- The upper-case digits of `n`, at least `width` of them. -/
def upper (width n : Nat) : String :=
  padded width ((Nat.toDigits 16 n).map Char.toUpper)

end Pictograph.Hexadecimal
