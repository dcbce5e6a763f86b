import RecordService.Http.Address

/-!
# Query options

The parameters of a query whose names begin with a dollar sign say which records are read. Other
parameters are ignored.

* `RecordService.Http.ListOptions`: the options of a list.
* `RecordService.Http.ListOptions.read`: the options that parameters give.
* `RecordService.Http.countFilter`: the filter of a count, which has no other option.
-/

namespace RecordService.Http

/-- The options of a list of records. -/
structure ListOptions where
  top : Option Int := none
  skip : Option Int := none
  filter : Option String := none
  order : Option String := none
  /-- Whether the number of all records that pass the filter is asked for as well. -/
  count : Bool := false
deriving DecidableEq

/-- The integer that a parameter gives. -/
def integerOption (name raw : String) : Except RequestError Int :=
  match Text.readInteger? (Text.trim raw) with
  | some n => .ok n
  | none => .error (.badRequest s!"{name} must be an integer (got '{raw}')")

/-- The truth value that the parameter for counting gives. -/
def countOption (raw : String) : Except RequestError Bool :=
  if raw = "true" then .ok true
  else if raw = "false" then .ok false
  else .error (.badRequest s!"$count must be true or false (got '{raw}')")

namespace ListOptions

/-- The options with one more parameter. -/
def visit (o : ListOptions) (name raw : String) : Except RequestError ListOptions :=
  match name with
  | "$top" => do return { o with top := some (← integerOption name raw) }
  | "$skip" => do return { o with skip := some (← integerOption name raw) }
  | "$filter" => .ok { o with filter := some raw }
  | "$orderby" => .ok { o with order := some raw }
  | "$count" => do return { o with count := ← countOption raw }
  | _ => if isKeyword name then .error (unknownKeyword name) else .ok o

/-- The options that parameters give, visited one after the other. -/
def read (parameters : List (String × String)) : Except RequestError ListOptions :=
  parameters.foldlM (fun o p => o.visit p.1 p.2) {}

end ListOptions

/-- The filter that parameters give for a count. Every other option is refused. -/
def countFilter (parameters : List (String × String)) : Except RequestError (Option String) :=
  parameters.foldlM (fun filter p =>
    if p.1 = "$filter" then .ok (some p.2)
    else if isKeyword p.1 then .error (unknownKeyword p.1)
    else .ok filter) none

end RecordService.Http
