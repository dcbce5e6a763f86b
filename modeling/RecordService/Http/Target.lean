import RecordService.Record.Texts
import RecordService.Text.Encoding
import RecordService.Text.Cut

/-!
# Request targets

The target of a request is a path and a query. Both may hold bytes in hexadecimal behind a percent
sign, and each has its own rules about what such bytes mean.

* `RecordService.Http.Target`: the parts of a target.
* `RecordService.Http.segment?`: the text of a path segment.
* `RecordService.Http.Target.parameters`: the parameters of the query.
-/

namespace RecordService.Http

/-- The byte that two hexadecimal digits write. -/
def hexByte? (high low : UInt8) : Option UInt8 := do
  let h ← Text.hexValue? (Char.ofNat high.toNat)
  let l ← Text.hexValue? (Char.ofNat low.toNat)
  some (UInt8.ofNat (16 * h + l))

/-- Bytes with every percent sign and the two hexadecimal digits behind it replaced by the byte that
they write. A percent sign without digits stays. -/
def percentDecode : Bytes → Bytes
  | [] => []
  | 0x25 :: high :: low :: s =>
    match hexByte? high low with
    | some b => b :: percentDecode s
    | none => 0x25 :: percentDecode (high :: low :: s)
  | b :: s => b :: percentDecode s

/-- The text of a path segment, which has to be valid once it is decoded. -/
def segment? (raw : String) : Option String := (percentDecode (Bytes.ofText raw)).text?

/-- The text of a name or a value in a query, where a plus sign is a blank. What is no valid text
after decoding is replaced. -/
def formText (raw : List Char) : String :=
  let spaced := raw.map fun c => if c = '+' then ' ' else c
  (percentDecode (Bytes.ofText (String.ofList spaced))).textLossy

/-- The target of a request. -/
structure Target where
  /-- The parts of the path between its slashes, before decoding. -/
  segments : List String
  /-- The query, before decoding. -/
  query : List Char

namespace Target

/-- The path and the query of a target, which may begin with a scheme and an authority. -/
def local? : List Char → Option (List Char)
  | '/' :: rest => some ('/' :: rest)
  | s =>
    match s.dropWhile (· != ':') with
    | ':' :: '/' :: '/' :: rest => some (rest.dropWhile fun c => c != '/' && c != '?')
    | _ => none

/-- The parts of a target. A fragment does not count. -/
def read? (s : String) : Option Target := do
  let (path, query) := Text.cut '?' (← local? (s.toList.takeWhile (· != '#')))
  some ⟨((path.drop 1).splitOn '/').map String.ofList, query.getD []⟩

/-- One parameter of a query: a name, and a value behind an equals sign. -/
def parameter (raw : List Char) : String × String :=
  let (name, value) := Text.cut '=' raw
  (formText name, formText (value.getD []))

/-- The parameters of the query by name. Of two with one name the later counts. -/
def parameters (t : Target) : Texts :=
  Texts.ofList (((t.query.splitOn '&').filter (!·.isEmpty)).map parameter)

end Target

end RecordService.Http
