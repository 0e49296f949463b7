namespace Upsert.Text

/-- The code points of Unicode's White_Space, as ranges with both ends. -/
def blankRanges : List (Nat × Nat) :=
  [(0x9, 0xD), (0x20, 0x20), (0x85, 0x85), (0xA0, 0xA0), (0x1680, 0x1680), (0x2000, 0x200A),
    (0x2028, 0x2029), (0x202F, 0x202F), (0x205F, 0x205F), (0x3000, 0x3000)]

def isBlank (c : Char) : Bool :=
  blankRanges.any fun r ↦ r.1 ≤ c.toNat && c.toNat ≤ r.2

def dropBlanks (cs : List Char) : List Char := cs.dropWhile isBlank

def trimmed (cs : List Char) : List Char :=
  (dropBlanks (dropBlanks cs).reverse).reverse

def trim (s : String) : String := String.ofList (trimmed s.toList)

def isBlankText (s : String) : Bool := s.toList.all isBlank

def split (separator : Char) : List Char → List (List Char)
  | [] => [[]]
  | c :: cs =>
    if c = separator then [] :: split separator cs
    else
      match split separator cs with
      | [] => [[c]]
      | piece :: pieces => (c :: piece) :: pieces

def cut? (isEnd : Char → Bool) (cs : List Char) : Option (List Char × List Char) :=
  match cs.dropWhile fun c ↦ !isEnd c with
  | [] => none
  | rest => some (cs.takeWhile fun c ↦ !isEnd c, rest)

def cutOnce (mark : Char) (cs : List Char) : List Char × Option (List Char) :=
  match cut? (· == mark) cs with
  | some (front, rest) => (front, some (rest.drop 1))
  | none => (cs, none)

def doubled (mark : Char) (cs : List Char) : List Char :=
  cs.flatMap fun c ↦ if c = mark then [mark, mark] else [c]

def quoted (mark : Char) (s : String) : String :=
  String.ofList (mark :: doubled mark s.toList ++ [mark])

def quotedName (s : String) : String := quoted '"' s

def quotedLiteral (s : String) : String := quoted '\'' s

end Upsert.Text
