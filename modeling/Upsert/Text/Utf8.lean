namespace Upsert.Text

/-- Why octets are no text: at `index` either `length` octets can start no character, or the octets
end inside a character. -/
inductive Utf8Fault
  | invalid (length index : Nat)
  | incomplete (index : Nat)
  deriving DecidableEq

def Utf8Fault.message : Utf8Fault → String
  | .invalid length index => s!"invalid utf-8 sequence of {length} bytes from index {index}"
  | .incomplete index => s!"incomplete utf-8 byte sequence from index {index}"

def utf8 (s : String) : List UInt8 := s.toList.flatMap String.utf8EncodeChar

/-- How many octets follow a leading one, and the bounds of the first of these. The bounds shut out
spellings that are too long, the surrogates, and numbers past the last character. -/
def utf8Lead (a : Nat) : Option (Nat × Nat × Nat) :=
  if 0xC2 ≤ a ∧ a ≤ 0xDF then some (1, 0x80, 0xBF)
  else if a = 0xE0 then some (2, 0xA0, 0xBF)
  else if a = 0xED then some (2, 0x80, 0x9F)
  else if 0xE1 ≤ a ∧ a ≤ 0xEF then some (2, 0x80, 0xBF)
  else if a = 0xF0 then some (3, 0x90, 0xBF)
  else if 0xF1 ≤ a ∧ a ≤ 0xF3 then some (3, 0x80, 0xBF)
  else if a = 0xF4 then some (3, 0x80, 0x8F)
  else none

def utf8Follows (b : UInt8) : Bool := 0x80 ≤ b.toNat && b.toNat ≤ 0xBF

def decodeUtf8 (index : Nat) : List UInt8 → Except Utf8Fault (List Char)
  | [] => .ok []
  | a :: rest =>
    if a.toNat < 0x80 then
      return Char.ofNat a.toNat :: (← decodeUtf8 (index + 1) rest)
    else
      match utf8Lead a.toNat with
      | none => .error (.invalid 1 index)
      | some (follow, low, high) =>
        match rest with
        | [] => .error (.incomplete index)
        | b :: rest =>
          if b.toNat < low ∨ high < b.toNat then .error (.invalid 1 index)
          else if follow = 1 then do
            return Char.ofNat ((a.toNat - 0xC0) * 64 + (b.toNat - 0x80)) ::
              (← decodeUtf8 (index + 2) rest)
          else
            match rest with
            | [] => .error (.incomplete index)
            | c :: rest =>
              if !utf8Follows c then .error (.invalid 2 index)
              else if follow = 2 then do
                return Char.ofNat ((a.toNat - 0xE0) * 4096 + (b.toNat - 0x80) * 64 +
                  (c.toNat - 0x80)) :: (← decodeUtf8 (index + 3) rest)
              else
                match rest with
                | [] => .error (.incomplete index)
                | d :: rest =>
                  if !utf8Follows d then .error (.invalid 3 index)
                  else do
                    return Char.ofNat ((a.toNat - 0xF0) * 262144 + (b.toNat - 0x80) * 4096 +
                      (c.toNat - 0x80) * 64 + (d.toNat - 0x80)) :: (← decodeUtf8 (index + 4) rest)

def ofUtf8 (octets : List UInt8) : Except Utf8Fault String :=
  String.ofList <$> decodeUtf8 0 octets

end Upsert.Text
