import RecordService.Bytes
import RecordService.Record.Basic

/-!
# Statements

A statement for the database is a text with holes: the names of schemas, tables and columns, which
are quoted, and the placeholders for its arguments. The arguments themselves are sent beside the
text and never become part of it.

* `RecordService.Sql.Piece`: a part of a statement.
* `RecordService.Sql.quote`: a quoted name.
* `RecordService.Sql.Statement`: a statement with its arguments.
-/

namespace RecordService.Sql

/-- A part of the text of a statement. -/
inductive Piece where
  /-- Fixed text. -/
  | fixed (s : String)
  /-- The name of a schema, table or column. -/
  | name (s : String)
  /-- The place of the argument with this number, counted from one. -/
  | placeholder (n : Nat)
deriving DecidableEq

/-- A name between double quotes, with the double quotes inside doubled. -/
def quote (s : String) : String :=
  String.ofList ('"' :: s.toList.flatMap (fun c => if c = '"' then [c, c] else [c]) ++ ['"'])

/-- The text of a part. -/
def Piece.render : Piece → String
  | fixed s => s
  | name s => quote s
  | placeholder n => "$" ++ Text.natural n

/-- The text of several parts. -/
def render (ps : List Piece) : String := String.join (ps.map Piece.render)

/-- What takes the place of a placeholder. -/
inductive Argument where
  | value (v : Value)
  | content (bytes : Bytes)
deriving DecidableEq

/-- A statement with its arguments. -/
structure Statement where
  pieces : List Piece
  arguments : List Argument := []
deriving DecidableEq

/-- The text of a statement. -/
def Statement.text (s : Statement) : String := render s.pieces

/-- Lists of parts with the parts `separator` between them. -/
def separated (separator : List Piece) : List (List Piece) → List Piece
  | [] => []
  | [ps] => ps
  | ps :: pss => ps ++ separator ++ separated separator pss

end RecordService.Sql
