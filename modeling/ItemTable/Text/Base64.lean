/-!
Base64 with the standard alphabet and required padding.

`decode?` accepts exactly the texts that `encode` writes: the symbols, the length, the padding and
the unused last bits are all fixed by the bytes.
-/
namespace ItemTable.Text.Base64

def symbol (n : Nat) : Char :=
  if n < 26 then Char.ofNat ('A'.toNat + n)
  else if n < 52 then Char.ofNat ('a'.toNat + (n - 26))
  else if n < 62 then Char.ofNat ('0'.toNat + (n - 52))
  else if n = 62 then '+'
  else '/'

def sextet? (c : Char) : Option Nat :=
  if c.isUpper then some (c.toNat - 'A'.toNat)
  else if c.isLower then some (c.toNat - 'a'.toNat + 26)
  else if c.isDigit then some (c.toNat - '0'.toNat + 52)
  else if c = '+' then some 62
  else if c = '/' then some 63
  else none

/-- Three bytes at a time become four symbols; one or two last bytes are padded. -/
def encode : List UInt8 → List Char
  | a :: b :: c :: rest =>
    let n := a.toNat * 0x10000 + b.toNat * 0x100 + c.toNat
    symbol (n / 0x40000) :: symbol (n / 0x1000 % 64) :: symbol (n / 0x40 % 64) ::
      symbol (n % 64) :: encode rest
  | [a, b] =>
    let n := a.toNat * 0x100 + b.toNat
    [symbol (n / 0x400), symbol (n / 0x10 % 64), symbol (n % 0x10 * 4), '=']
  | [a] => [symbol (a.toNat / 4), symbol (a.toNat % 4 * 0x10), '=', '=']
  | [] => []

/-- The bytes of the last group of four symbols, padded or not. -/
def lastGroup? (p q r s : Char) : Option (List UInt8) := do
  let a ← sextet? p
  let b ← sextet? q
  if r = '=' then
    if s = '=' ∧ b % 0x10 = 0 then some [UInt8.ofNat (a * 4 + b / 0x10)] else none
  else
    let c ← sextet? r
    if s = '=' then
      if c % 4 = 0 then
        some [UInt8.ofNat (a * 4 + b / 0x10), UInt8.ofNat (b % 0x10 * 0x10 + c / 4)]
      else none
    else
      let d ← sextet? s
      some [UInt8.ofNat (a * 4 + b / 0x10), UInt8.ofNat (b % 0x10 * 0x10 + c / 4),
        UInt8.ofNat (c % 4 * 0x40 + d)]

/-- The bytes of a text; nothing if no bytes are written so. -/
def decode? : List Char → Option (List UInt8)
  | [] => some []
  | [p, q, r, s] => lastGroup? p q r s
  | p :: q :: r :: s :: rest => do
    let a ← sextet? p
    let b ← sextet? q
    let c ← sextet? r
    let d ← sextet? s
    let bytes ← decode? rest
    some (UInt8.ofNat (a * 4 + b / 0x10) :: UInt8.ofNat (b % 0x10 * 0x10 + c / 4) ::
      UInt8.ofNat (c % 4 * 0x40 + d) :: bytes)
  | _ => none

end ItemTable.Text.Base64
