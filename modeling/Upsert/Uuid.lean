import Upsert.Text.Digits

namespace Upsert

structure Uuid where
  octets : List UInt8
  length_eq : octets.length = 16
  deriving DecidableEq

namespace Uuid

def ofOctets? (octets : List UInt8) : Option Uuid :=
  if h : octets.length = 16 then some ⟨octets, h⟩ else none

def text (u : Uuid) : String :=
  let group (skip count : Nat) := Text.hex ((u.octets.drop skip).take count)
  group 0 4 ++ "-" ++ group 4 2 ++ "-" ++ group 6 2 ++ "-" ++ group 8 2 ++ "-" ++ group 10 6

def readDigits? (cs : List Char) : Option Uuid := Text.octetsOfHex? cs >>= ofOctets?

def readHyphenated? (cs : List Char) : Option Uuid := do
  guard (cs.length = 36 ∧ [8, 13, 18, 23].all fun i ↦ cs[i]? == some '-')
  readDigits? (cs.take 8 ++ (cs.drop 9).take 4 ++ (cs.drop 14).take 4 ++ (cs.drop 19).take 4 ++
    cs.drop 24)

/-- Hyphenated, also in braces or behind `urn:uuid:`, or thirty-two digits. -/
def read? (s : String) : Option Uuid :=
  let cs := s.toList
  if cs.length = 32 then readDigits? cs
  else if cs.length = 38 ∧ cs.head? = some '\x7b' ∧ cs.getLast? = some '\x7d' then
    readHyphenated? (cs.drop 1).dropLast
  else if cs.length = 45 ∧ (cs.take 9).map Char.toLower = "urn:uuid:".toList then
    readHyphenated? (cs.drop 9)
  else readHyphenated? cs

end Uuid

end Upsert
