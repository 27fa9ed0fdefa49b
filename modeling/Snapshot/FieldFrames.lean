import Mathlib.Algebra.Ring.Nat
import Snapshot.LexicalPath

/-! A list of byte strings written as one: each after its length in four bytes, the highest first. As long as
every string is shorter than the lengths that four bytes can tell, the list can be read back. -/
namespace FieldFrames

open LexicalPath (Bytes)

/-- The number modulo 2³² in four bytes. -/
def putUint32 (n : ℕ) : Bytes :=
  [UInt8.ofNat (n / 2 ^ 24), UInt8.ofNat (n / 2 ^ 16), UInt8.ofNat (n / 2 ^ 8), UInt8.ofNat n]

def frames (fields : List Bytes) : Bytes := fields.flatMap fun field => putUint32 field.length ++ field

def hexDigit (n : ℕ) : UInt8 := if n < 10 then UInt8.ofNat (0x30 + n) else UInt8.ofNat (0x57 + n)

def hexEncode (s : Bytes) : Bytes := s.flatMap fun b => [hexDigit (b.toNat / 16), hexDigit (b.toNat % 16)]

end FieldFrames
