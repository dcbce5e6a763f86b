import RecordService.Text.Numeral

/-!
# Media types

The header that says what the body of a request is: a type and a subtype, whose part behind the last
plus sign names the syntax it is written in, and parameters.

* `RecordService.Http.MediaType`: media types.
* `RecordService.Http.MediaType.read?`: the media type that a header names.
-/

namespace RecordService.Http

/-- A media type. Everything but the values of the parameters is in lower case. -/
structure MediaType where
  type : String
  subtype : String
  /-- The syntax that the subtype is written in, if it names one. -/
  syntaxName : Option String
  parameters : List (String × String)

namespace MediaType

/-- The characters of names and of values without quotes. -/
def isToken (c : Char) : Bool := c.isAlphanum || "!#$%&'*+-.^_`|~".toList.contains c

/-- The characters between quotes. -/
def isQuotable (c : Char) : Bool := ' ' ≤ c && c ≤ '~'

/-- A text in lower case. -/
def lower (s : List Char) : String := String.ofList (s.map Char.toLower)

/-- What is behind the semicolon, or nothing at the end. -/
def behindValue : List Char → Option (List Char)
  | [] => some []
  | ';' :: s => some s
  | _ => none

/-- The value of a parameter, and what is behind the semicolon after it. Between quotes there is at
least one character, and without quotes a value is empty only at the very end. -/
def readValue : List Char → Option (List Char × List Char)
  | '"' :: c :: s =>
    if !isQuotable c then none
    else
      match s.dropWhile (fun d => d != '"' && isQuotable d) with
      | '"' :: r => do
        let rest ← behindValue (r.dropWhile (· == ' '))
        some (c :: s.takeWhile (fun d => d != '"' && isQuotable d), rest)
      | _ => none
  | s => do
    let value := s.takeWhile isToken
    let behind := s.dropWhile isToken
    let rest ← behindValue behind
    if value.isEmpty ∧ !behind.isEmpty then none else some (value, rest)

theorem length_behindValue {s r : List Char} (h : behindValue s = some r) :
    r.length ≤ s.length := by
  unfold behindValue at h
  split at h <;> simp at h <;> simp [← h]

theorem length_readValue {s v r : List Char} (h : readValue s = some (v, r)) :
    r.length ≤ s.length := by
  unfold readValue at h
  split at h
  · rename_i c s
    split at h
    · simp at h
    · split at h
      · rename_i behind hd
        simp only [bind, Option.bind_eq_some_iff, Option.some.injEq, Prod.mk.injEq] at h
        obtain ⟨rest, hr, -, rfl⟩ := h
        have h₁ := length_behindValue hr
        have h₂ := (List.dropWhile_suffix (· == ' ') (l := behind)).length_le
        have h₃ := (List.dropWhile_suffix (fun d => d != '"' && isQuotable d) (l := s)).length_le
        rw [hd] at h₃
        simp only [List.length_cons] at h₁ h₂ h₃ ⊢
        omega
      · simp at h
  · simp only [bind, Option.bind_eq_some_iff] at h
    obtain ⟨rest, hr, h⟩ := h
    split at h
    · simp at h
    · simp only [Option.some.injEq, Prod.mk.injEq] at h
      have h₁ := length_behindValue hr
      have h₂ := (List.dropWhile_suffix isToken (l := s)).length_le
      rw [← h.2]
      omega

/-- The parameters of a media type, after the first semicolon. -/
def readParameters (s : List Char) : Option (List (String × String)) :=
  match _h : s.dropWhile (· == ' ') with
  | [] => some []
  | c :: t =>
    match _ht : (c :: t).dropWhile isToken with
    | '=' :: v =>
      if !isToken c then none
      else
        match _hv : readValue v with
        | none => none
        | some (value, rest) =>
          ((lower ((c :: t).takeWhile isToken), String.ofList value) :: ·) <$> readParameters rest
    | _ => none
termination_by s.length
decreasing_by
  have h₁ := (List.dropWhile_suffix (· == ' ') (l := s)).length_le
  have h₂ := (List.dropWhile_suffix isToken (l := c :: t)).length_le
  have h₃ := length_readValue _hv
  rw [_h] at h₁
  rw [_ht] at h₂
  simp only [List.length_cons] at h₁ h₂
  omega

/-- A subtype and the syntax that it names behind its last plus sign. A plus sign in front does not
count. -/
def splitSyntax (s : List Char) : String × Option String :=
  let behind := s.reverse.takeWhile (· != '+')
  let before := s.take (s.length - (behind.length + 1))
  if behind.length < s.length ∧ !before.isEmpty then (lower before, some (lower behind.reverse))
  else (lower s, none)

/-- The media type that a header names. -/
def read? (s : String) : Option MediaType := do
  let cs := s.toList
  let type := cs.takeWhile isToken
  let subtype ← (cs.dropWhile isToken).head?.bind fun c =>
    if c = '/' then some ((cs.dropWhile isToken).drop 1) else none
  let name := subtype.takeWhile isToken
  let parameters ← match subtype.dropWhile isToken with
    | [] => some []
    | ';' :: r => if name.isEmpty then none else readParameters r
    | _ => none
  if type.isEmpty then none
  else some ⟨lower type, (splitSyntax name).1, (splitSyntax name).2, parameters⟩

/-- Whether a body of this type is a JSON document. -/
def isJson (t : MediaType) : Bool :=
  t.type == "application" && (t.subtype == "json" || t.syntaxName == some "json")

/-- The text that separates the parts of a form with several parts. -/
def boundary? (t : MediaType) : Option String :=
  if t.type == "multipart" && t.subtype == "form-data" then t.parameters.lookup "boundary" else none

end MediaType

end RecordService.Http
