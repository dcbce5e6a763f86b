import RecordService.Text.Numeral

/-!
# Socket addresses

The address that a service listens on: a host, and the number of an endpoint there. The host is four
decimal numbers, or eight hexadecimal groups between brackets. A run of groups that are zero may be
left out, and the last two groups may be written as four decimal numbers.

* `RecordService.SocketAddress`: the addresses.
* `RecordService.SocketAddress.read?`, `RecordService.SocketAddress.render`: their text. An address
  is written in the shortest form.
-/

namespace RecordService

/-- A socket address. -/
inductive SocketAddress where
  /-- Four numbers below 256 for the host, and the number of an endpoint there. -/
  | v4 (parts : List Nat) (endpoint : Nat)
  /-- Eight numbers below 65536, the number of a scope, and the number of an endpoint. -/
  | v6 (groups : List Nat) (scope endpoint : Nat)
deriving DecidableEq

namespace SocketAddress

open Text

/-! ### Reading -/

/-- The number below `bound` that the digits of a base at the head of a text write, at least one and
at most `most` of them, and the rest of the text. -/
def readDigits (base bound most : Nat) (s : List Char) : Option (Nat × List Char) :=
  let isDigit := fun c => (hexValue? c).any (· < base)
  let ds := s.takeWhile isDigit
  let n := ds.foldl (fun n c => base * n + (hexValue? c).getD 0) 0
  if ds.isEmpty ∨ most < ds.length ∨ bound ≤ n then none else some (n, s.dropWhile isDigit)

/-- A number below 256 in decimal digits, without superfluous zeros. -/
def readByte (s : List Char) : Option (Nat × List Char) := do
  let (n, r) ← readDigits 10 256 3 s
  if s.head? = some '0' ∧ r.length + 1 < s.length then none else some (n, r)

/-- A decimal number below a bound, in any number of digits. -/
def readNumber (bound : Nat) (s : List Char) : Option (Nat × List Char) :=
  readDigits 10 bound s.length s

/-- Four numbers below 256 with points between them. -/
def readParts (s : List Char) : Option (List Nat × List Char) := do
  let (a, s) ← readByte s
  let (b, s) ← readByte (← literal '.' s)
  let (c, s) ← readByte (← literal '.' s)
  let (d, s) ← readByte (← literal '.' s)
  some ([a, b, c, d], s)

/-- A colon and the number of an endpoint at the end of a text. -/
def readEndpoint (s : List Char) : Option Nat := do
  let (endpoint, s) ← readNumber 65536 (← literal ':' s)
  if s.isEmpty then some endpoint else none

/-- Groups with colons between them, as many as there are but at most `room`: the groups, whether
the last two were written as four decimal numbers, and the rest of the text. In front of the first
group there is a colon if `colon` says so. -/
def readGroups (colon : Bool) : (room : Nat) → List Char → List Nat × Bool × List Char
  | 0, s => ([], false, s)
  | room + 1, s =>
    let behind := if colon then literal ':' s else some s
    match (if room = 0 then none else behind.bind readParts) with
    | some ([a, b, c, d], r) => ([256 * a + b, 256 * c + d], true, r)
    | _ =>
      match behind.bind (readDigits 16 65536 4) with
      | none => ([], false, s)
      | some (g, r) =>
        let (gs, mixed, r) := readGroups true room r
        (g :: gs, mixed, r)

/-- Eight groups. Where two colons stand together, the groups that are missing are zero, at least
one; before that there are no decimal numbers. -/
def readHexGroups (s : List Char) : Option (List Nat × List Char) := do
  let (head, mixed, s) := readGroups false 8 s
  if head.length = 8 then some (head, s)
  else if mixed then none
  else
    let s ← literal ':' (← literal ':' s)
    let (tail, _, s) := readGroups false (7 - head.length) s
    some (head ++ List.replicate (8 - head.length - tail.length) 0 ++ tail, s)

/-- The scope of an address, zero if there is none. -/
def readScope : List Char → Option (Nat × List Char)
  | '%' :: s => readNumber 0x100000000 s
  | s => some (0, s)

/-- The address of four decimal numbers that a text writes. -/
def readV4? (s : List Char) : Option SocketAddress := do
  let (parts, s) ← readParts s
  some (.v4 parts (← readEndpoint s))

/-- The address of eight groups that a text writes. -/
def readV6? (s : List Char) : Option SocketAddress := do
  let (groups, s) ← readHexGroups (← literal '[' s)
  let (scope, s) ← readScope s
  some (.v6 groups scope (← readEndpoint (← literal ']' s)))

/-- The address that a text writes. -/
def read? (s : String) : Option SocketAddress := (readV4? s.toList).or (readV6? s.toList)

/-! ### Writing -/

/-- Numbers below 256 with points between them. -/
def partsText (parts : List Nat) : String := ".".intercalate (parts.map natural)

/-- Groups with colons between them. -/
def groupsText (gs : List Nat) : String :=
  ":".intercalate (gs.map fun g => String.ofList (Nat.toDigits 16 g))

/-- The number of zeros at the head of a list. -/
def zeros (gs : List Nat) : Nat := (gs.takeWhile (· == 0)).length

/-- The first of the longest runs of zeros in a list: where it begins, and its length. -/
def longestZeros (gs : List Nat) : Nat × Nat :=
  (List.range gs.length).foldl (fun best i =>
    if best.2 < zeros (gs.drop i) then (i, zeros (gs.drop i)) else best) (0, 0)

/-- Eight groups. The first of the longest runs of zeros is left out if there are two or more, and
an address that embeds four decimal numbers shows them. -/
def hexText : List Nat → String
  | [0, 0, 0, 0, 0, 0xFFFF, a, b] =>
    "::ffff:" ++ partsText [a / 256, a % 256, b / 256, b % 256]
  | gs =>
    let (start, length) := longestZeros gs
    if 1 < length then groupsText (gs.take start) ++ "::" ++ groupsText (gs.drop (start + length))
    else groupsText gs

/-- The text of an address. -/
def render : SocketAddress → String
  | v4 parts endpoint => partsText parts ++ ":" ++ natural endpoint
  | v6 groups scope endpoint =>
    let scopeText := if scope = 0 then "" else "%" ++ natural scope
    "[" ++ hexText groups ++ scopeText ++ "]:" ++ natural endpoint

end SocketAddress

end RecordService
