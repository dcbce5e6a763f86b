import RecordService.Http.Service
import RecordService.Settings.Address

/-!
# Settings

The settings of the service come from named texts, such as the environment of a process. A setting
that is missing or blank has a default.

* `RecordService.Settings`: the settings.
* `RecordService.Settings.read`: the settings that texts give, or the first one without a meaning.
-/

namespace RecordService

/-- The settings of the service. -/
structure Settings where
  /-- Where the service listens. -/
  bindAddress : SocketAddress
  /-- The file with the schema document. -/
  schemaPath : String
  /-- The database that keeps the records; without one they are kept in memory. -/
  databaseUrl : Option String
  maxConnections : Nat
  /-- The most bytes in the body of a request to a set or a record. -/
  bodyLimit : Nat
deriving DecidableEq

namespace Settings

/-- The address that the service listens on by default. -/
def defaultAddress : SocketAddress := .v4 [127, 0, 0, 1] 3000

/-- The schema document that is read by default. -/
def defaultSchemaPath : String := "schema.json"

/-- The number of connections by default. -/
def defaultMaxConnections : Nat := 5

/-- A text without the blanks around it, unless nothing is left. -/
def given (lookup : String → Option String) (name : String) : Option String :=
  ((lookup name).map Text.trim).filter (!·.isEmpty)

/-- The value of a setting, or its default. -/
def valueOr {α : Type} (lookup : String → Option String) (name : String) (read : String → Option α)
    (default : α) : Except SchemaError α :=
  match given lookup name with
  | none => .ok default
  | some raw =>
    match read raw with
    | some a => .ok a
    | none => .error (.invalidSetting name raw)

/-- The settings that texts give. -/
def read (lookup : String → Option String) : Except SchemaError Settings := do
  let bindAddress ← valueOr lookup "BIND_ADDR" SocketAddress.read? defaultAddress
  let maxConnections ←
    valueOr lookup "DATABASE_MAX_CONNECTIONS" (Text.readNatural? 0x100000000) defaultMaxConnections
  let readUnsigned := Text.readNatural? (Text.maxUnsigned + 1)
  let bodyLimit ← valueOr lookup "MAX_JSON_BODY_BYTES" readUnsigned Http.defaultBodyLimit
  return {
    bindAddress
    schemaPath := (given lookup "SCHEMA_PATH").getD defaultSchemaPath
    databaseUrl := given lookup "DATABASE_URL"
    maxConnections
    bodyLimit }

end Settings

end RecordService
