/-!
# Texts of octet sequences

Hexadecimal digits, and the base64 alphabet with mandatory padding.  `Base64.decode?` accepts exactly
the texts that `Base64.encode` writes: groups of four, padding only at the end, and no bits set that
belong to no octet.
-/

namespace QueryKernel

/-- Octets as pairs of hexadecimal digits out of a table of sixteen. -/
def hexText (digits : List Char) (octets : List UInt8) : String :=
  String.ofList <| octets.flatMap fun b =>
    [digits.getD (b.toNat / 16) '0', digits.getD (b.toNat % 16) '0']

/-- The digits of `xs:hexBinary`. -/
def upperHexDigits : List Char := "0123456789ABCDEF".toList

/-- Lower-case hexadecimal digits. -/
def lowerHexDigits : List Char := "0123456789abcdef".toList

/-- The octets that pairs of hexadecimal digits stand for, upper or lower case. -/
def hexOctets? : List Char → Option (List UInt8)
  | [] => some []
  | high :: low :: rest => do
      let digit? (c : Char) : Option Nat := lowerHexDigits.findIdx? (· == c.toLower)
      return (16 * (← digit? high) + (← digit? low)).toUInt8 :: (← hexOctets? rest)
  | [_] => none

namespace Base64

/-- The sixty-four digits. -/
def alphabet : List Char :=
  "ABCDEFGHIJKLMNOPQRSTUVWXYZabcdefghijklmnopqrstuvwxyz0123456789+/".toList

/-- The digit of a number below sixty-four. -/
def digit (n : Nat) : Char := alphabet.getD n '='

/-- The number of a digit. -/
def digit? (c : Char) : Option Nat := alphabet.findIdx? (· == c)

/-- Three octets become four digits; a shorter last group is padded. -/
def encode : List UInt8 → List Char
  | [] => []
  | [a] => [digit (a.toNat / 4), digit (a.toNat % 4 * 16), '=', '=']
  | [a, b] =>
      [digit (a.toNat / 4), digit (a.toNat % 4 * 16 + b.toNat / 16), digit (b.toNat % 16 * 4), '=']
  | a :: b :: c :: rest =>
      digit (a.toNat / 4) :: digit (a.toNat % 4 * 16 + b.toNat / 16) ::
        digit (b.toNat % 16 * 4 + c.toNat / 64) :: digit (c.toNat % 64) :: encode rest

/-- Reads groups of four digits; only the last group may be padded. -/
def decode? : List Char → Option (List UInt8)
  | [] => some []
  | [w, x, '=', '='] => do
      let a ← digit? w
      let b ← digit? x
      if b % 16 = 0 then some [UInt8.ofNat (a * 4 + b / 16)] else none
  | [w, x, y, '='] => do
      let a ← digit? w
      let b ← digit? x
      let c ← digit? y
      if c % 4 = 0 then some [UInt8.ofNat (a * 4 + b / 16), UInt8.ofNat (b % 16 * 16 + c / 4)] else none
  | w :: x :: y :: z :: rest => do
      let a ← digit? w
      let b ← digit? x
      let c ← digit? y
      let d ← digit? z
      let octets ← decode? rest
      some (UInt8.ofNat (a * 4 + b / 16) :: UInt8.ofNat (b % 16 * 16 + c / 4) ::
        UInt8.ofNat (c % 4 * 64 + d) :: octets)
  | _ => none

end Base64

end QueryKernel
