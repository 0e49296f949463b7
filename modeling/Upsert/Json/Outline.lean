import Upsert.Json.Basic

namespace Upsert

/-- The class of the first fault met: the text is malformed, or it ends too early, or what it says is not
what was looked for. -/
inductive Fault
  | malformed
  | unfinished
  | unsuitable
  deriving DecidableEq

mutual

/-- A value. Where it breaks off, `reading` is the fault for a reader of the value, and `skipping` for one
that only looks for its end. -/
inductive Outline
  | null
  | boolean (b : Bool)
  | number (n : Option JsonNumber)
  /-- A fault, for escapes that spell half of a surrogate pair. -/
  | text (s : Except Fault String)
  | array (items : Items)
  | object (members : Members)
  | broken (start : Char) (reading skipping : Fault)
  | absent

inductive Items
  | closed
  | broken (fault : Fault)
  | item (o : Outline) (rest : Items)

inductive Members
  | closed
  | broken (reading skipping closing : Fault)
  | unnamed (start : Outline)
  | member (name : Except Fault String) (o : Outline) (rest : Members)

end

namespace Outline

def isSpace (c : Char) : Bool := c == ' ' || c == '\n' || c == '\r' || c == '\t'

def dropSpace (cs : List Char) : List Char := cs.dropWhile isSpace

def digitLimit : Nat := UInt64.size

def gatherWhole : Nat × Nat → List Char → Nat × Nat
  | st, [] => st
  | (s, left), c :: cs =>
    let next := s * 10 + (Text.digit? c).getD 0
    if left = 0 ∧ next < digitLimit then gatherWhole (next, 0) cs else gatherWhole (s, left + 1) cs

def gatherFraction : Nat × Nat → List Char → Nat × Nat
  | st, [] => st
  | (s, held), c :: cs =>
    let next := s * 10 + (Text.digit? c).getD 0
    if next < digitLimit then gatherFraction (next, held + 1) cs else (s, held)

/-- `s * 10 ^ e` by one product or quotient of rounded numbers, more below `10 ^ -308`. -/
def scaled (e : Int) : Nat → Binary64 → Option Binary64
  | 0, x => some x
  | fuel + 1, x =>
    if 0 ≤ e ∧ e ≤ 308 then
      let y := x.mul (.powerOfTen e.toNat)
      if y.isInfinite then none else some y
    else if -308 ≤ e ∧ e < 0 then some (x.div (.powerOfTen (-e).toNat))
    else if x.isZero then some x
    else if 0 ≤ e then none
    else scaled (e + 308) fuel (x.div (.powerOfTen 308))

def signed (negative : Bool) (x : Binary64) : Binary64 := if negative then x.negate else x

def floatOf (negative : Bool) (s : Nat) (e : Int) : Option JsonNumber :=
  (scaled e 4 (.ofInt s)).bind fun x ↦ JsonNumber.ofFloat? (signed negative x)

/-- A whole number that fits 64 bits, signed where it is negative, or else the nearest float. There is
no negative whole zero. -/
def wholeOf (negative : Bool) (s : Nat) : Option JsonNumber :=
  if !negative then some (.int s)
  else if 1 ≤ s ∧ s ≤ pow2 63 then some (.int (-s))
  else JsonNumber.ofFloat? (signed true (.ofInt s))

/-- An exponent past 31 bits is not worked out: the number is zero or out of range. -/
def exponentOf (negative : Bool) (s : Nat) (e : Int) (down : Bool) (n : Nat) : Option JsonNumber :=
  if pow2 31 ≤ n then if s ≠ 0 ∧ !down then none else JsonNumber.ofFloat? (signed negative .zero)
  else floatOf negative s (if down then e - n else e + n)

def readExponent (negative : Bool) (start : Char) (s : Nat) (e : Int) (cs : List Char) :
    Outline × Option (List Char) :=
  let (down, cs) := match cs with
    | '+' :: cs => (false, cs)
    | '-' :: cs => (true, cs)
    | cs => (false, cs)
  match cs.takeWhile Text.isDigit, cs with
  | [], [] => (.broken start .unfinished .malformed, none)
  | [], _ => (.broken start .malformed .malformed, none)
  | ds, cs =>
    (.number (exponentOf negative s e down (Text.ofDigits ds)), some (cs.drop ds.length))

def isExponentMark (c : Char) : Bool := c == 'e' || c == 'E'

def readNumber (negative : Bool) (start : Char) (cs : List Char) : Outline × Option (List Char) :=
  let whole := cs.takeWhile Text.isDigit
  let rest := cs.dropWhile Text.isDigit
  let (s, left) := gatherWhole (0, 0) whole
  match whole, cs with
  | [], [] => (.broken start .unfinished .malformed, none)
  | [], _ => (.broken start .malformed .malformed, none)
  | '0' :: _ :: _, _ => (.broken start .malformed .malformed, none)
  | _, _ =>
    match rest with
    | '.' :: rest =>
      let fraction := rest.takeWhile Text.isDigit
      let rest := rest.dropWhile Text.isDigit
      let (s, held) := gatherFraction (s, 0) fraction
      let e := (left : Int) - held
      match fraction, rest with
      | [], [] => (.broken start .unfinished .malformed, none)
      | [], _ => (.broken start .malformed .malformed, none)
      | _, c :: more =>
        if isExponentMark c then readExponent negative start s e more
        else (.number (floatOf negative s e), some rest)
      | _, [] => (.number (floatOf negative s e), some [])
    | c :: more =>
      if isExponentMark c then readExponent negative start s left more
      else (.number (if left = 0 then wholeOf negative s else floatOf negative s left), some rest)
    | [] => (.number (if left = 0 then wholeOf negative s else floatOf negative s left), some [])

/-- What has been read of a text: its characters from the last to the first, the first half of a
surrogate pair that waits for the second, and the first fault of a pair. -/
structure TextScan where
  chars : List Char := []
  half : Option Nat := none
  fault : Option Fault := none

namespace TextScan

def unpaired (t : TextScan) : TextScan :=
  if t.half.isSome then { t with half := none, fault := t.fault <|> some .malformed } else t

def push (t : TextScan) (c : Char) : TextScan := { t.unpaired with chars := c :: t.chars }

def pushUnit (t : TextScan) (n : Nat) : TextScan :=
  match t.half with
  | some high =>
    if 0xDC00 ≤ n ∧ n ≤ 0xDFFF then
      { t with half := none, chars := Char.ofNat (0x10000 + (high - 0xD800) * 1024 + (n - 0xDC00)) :: t.chars }
    else t.unpaired
  | none =>
    if 0xD800 ≤ n ∧ n ≤ 0xDBFF then { t with half := some n }
    else if 0xDC00 ≤ n ∧ n ≤ 0xDFFF then { t with fault := t.fault <|> some .malformed }
    else { t with chars := Char.ofNat n :: t.chars }

def result (t : TextScan) : Except Fault String :=
  match t.unpaired.fault with
  | some f => .error f
  | none => .ok (String.ofList t.chars.reverse)

def breaking (t : TextScan) (f : Fault) : Fault := t.fault.getD f

end TextScan

def shortEscape? (c : Char) : Option Char :=
  if c = '"' ∨ c = '\\' ∨ c = '/' then some c
  else if c = 'b' then some '\x08'
  else if c = 'f' then some '\x0c'
  else if c = 'n' then some '\n'
  else if c = 'r' then some '\r'
  else if c = 't' then some '\t'
  else none

def hexUnit? (a b c d : Char) : Option Nat := do
  return (((← Text.hexDigit? a) * 16 + (← Text.hexDigit? b)) * 16 + (← Text.hexDigit? c)) * 16 +
    (← Text.hexDigit? d)

def hasFourOctets (cs : List Char) : Bool :=
  4 ≤ (cs.take 4).foldl (fun n c ↦ n + c.utf8Size) 0

inductive TextReading
  | closed (s : Except Fault String) (rest : List Char)
  | broken (reading skipping : Fault)

def readText (t : TextScan) : List Char → TextReading
  | [] => .broken (t.breaking .unfinished) .unfinished
  | '"' :: rest => .closed t.result rest
  | '\\' :: 'u' :: a :: b :: c :: d :: rest =>
    match hexUnit? a b c d with
    | some n => readText (t.pushUnit n) rest
    | none => .broken (t.breaking .malformed) .malformed
  | '\\' :: 'u' :: rest =>
    let f : Fault := if hasFourOctets rest then .malformed else .unfinished
    .broken (t.breaking f) f
  | '\\' :: c :: rest =>
    match shortEscape? c with
    | some e => readText (t.push e) rest
    | none => .broken (t.unpaired.breaking .malformed) .malformed
  | ['\\'] => .broken (t.breaking .unfinished) .unfinished
  | c :: rest =>
    if c.toNat < 0x20 then .broken (t.unpaired.breaking .malformed) .malformed
    else readText (t.push c) rest

def readWord (start : Char) (value : Outline) : List Char → List Char → Outline × Option (List Char)
  | [], cs => (value, some cs)
  | _ :: _, [] => (.broken start .unfinished .unfinished, none)
  | w :: word, c :: cs =>
    if c = w then readWord start value word cs else (.broken start .malformed .malformed, none)

mutual

def readValue : Nat → List Char → Outline × Option (List Char)
  | 0, _ => (.absent, none)
  | fuel + 1, cs =>
    match dropSpace cs with
    | [] => (.absent, none)
    | '"' :: cs =>
      match readText {} cs with
      | .closed s rest => (.text s, some rest)
      | .broken reading skipping => (.broken '"' reading skipping, none)
    | '[' :: cs =>
      let (items, rest) := readItems fuel true cs
      (.array items, rest)
    | '\x7b' :: cs =>
      let (members, rest) := readMembers fuel true cs
      (.object members, rest)
    | 'n' :: cs => readWord 'n' .null ['u', 'l', 'l'] cs
    | 't' :: cs => readWord 't' (.boolean true) ['r', 'u', 'e'] cs
    | 'f' :: cs => readWord 'f' (.boolean false) ['a', 'l', 's', 'e'] cs
    | '-' :: cs => readNumber true '-' cs
    | c :: cs =>
      if Text.isDigit c then readNumber false c (c :: cs)
      else (.broken c .malformed .malformed, none)

def readItems : Nat → Bool → List Char → Items × Option (List Char)
  | 0, _, _ => (.broken .unfinished, none)
  | fuel + 1, first, cs =>
    match dropSpace cs with
    | [] => (.broken .unfinished, none)
    | c :: rest =>
      if c = ']' then (.closed, some rest)
      else if !first ∧ c ≠ ',' then (.broken .malformed, none)
      else if !first ∧ (dropSpace rest).head? = some ']' then (.broken .malformed, none)
      else
        match readValue fuel (if first then c :: rest else rest) with
        | (o, none) => (.item o .closed, none)
        | (o, some rest) =>
          let (more, rest) := readItems fuel false rest
          (.item o more, rest)

def readMembers : Nat → Bool → List Char → Members × Option (List Char)
  | 0, _, _ => (.broken .unfinished .unfinished .unfinished, none)
  | fuel + 1, first, cs =>
    match dropSpace cs with
    | [] => (.broken .unfinished .unfinished .unfinished, none)
    | c :: rest =>
      if c = '\x7d' then (.closed, some rest)
      else if !first ∧ c ≠ ',' then (.broken .malformed .malformed .malformed, none)
      else
        match if first then c :: rest else dropSpace rest with
        | [] => (.broken .unfinished .unfinished .malformed, none)
        | '"' :: rest =>
          match readText {} rest with
          | .broken reading skipping => (.broken reading skipping .malformed, none)
          | .closed name rest =>
            match dropSpace rest with
            | [] => (.member name .absent .closed, none)
            | ':' :: rest =>
              match readValue fuel rest with
              | (o, none) => (.member name o .closed, none)
              | (o, some rest) =>
                let (more, rest) := readMembers fuel false rest
                (.member name o more, rest)
            | c :: _ => (.member name (.broken c .malformed .malformed) .closed, none)
        | cs =>
          if first then (.unnamed (readValue fuel cs).1, none)
          else (.broken .malformed .malformed .malformed, none)

end

def read (s : String) : Outline × Bool :=
  let cs := s.toList
  let (o, rest) := readValue (2 * cs.length + 3) cs
  (o, (rest.getD []).all isSpace)

end Outline

end Upsert
