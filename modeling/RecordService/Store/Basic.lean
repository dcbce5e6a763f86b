import RecordService.Bytes
import RecordService.Error
import RecordService.Query.Selection
import RecordService.Record.Basic

/-!
# Stores

A store keeps records and their binary content. Binary content is written through a sink, which
takes effect only when it is committed, and read through a source, which keeps showing the content
it was opened on.

* `RecordService.RecordStore`: the operations of a store, as actions of a monad.
-/

namespace RecordService

/-- A store of records whose operations are actions of `m`. -/
class RecordStore (m : Type → Type) where
  /-- Binary content that is being written. -/
  Sink : Type
  /-- Binary content that is being read. -/
  Source : Type
  /-- The records of a selection. -/
  select : RecordType → Selection → ExceptT StorageError m (List Record)
  /-- The number of records that pass a filter. -/
  count : RecordType → Option Filter → ExceptT StorageError m Nat
  /-- The record with an identity. -/
  get : RecordType → Int → ExceptT StorageError m (Option Record)
  /-- Keeps a new record under a new identity, without binary content. -/
  insert : Record → ExceptT StorageError m Record
  /-- Gives the stored record with the same identity the values of this one. Binary content stays.
  -/
  update : Record → ExceptT StorageError m Record
  /-- Removes the record with an identity. -/
  delete : RecordType → Int → ExceptT StorageError m Unit
  /-- Starts to write the content of a binary attribute of a stored record. -/
  openSink : RecordType → Int → String → ExceptT StorageError m Sink
  /-- Writes some more bytes. -/
  write : Sink → Bytes → ExceptT StorageError m Sink
  /-- Makes what was written the content of the attribute, and gives its length. -/
  commit : Sink → ExceptT StorageError m Nat
  /-- Starts to read the content of a binary attribute, unless it has none. -/
  openSource : RecordType → Int → String → ExceptT StorageError m (Option Source)
  /-- Reads at most a number of bytes. No bytes at all mean that the content is at its end. -/
  read : Source → Nat → m (Except StorageError Bytes × Source)
  /-- Reads all the rest. -/
  drain : Source → ExceptT StorageError m Bytes

namespace RecordStore

variable {m : Type → Type} [Monad m] [RecordStore m]

/-- Reads `n` bytes, or fewer if the content ends before. When a read fails, what was read before it
is lost, but the source can be read further. -/
def gather (s : Source m) (n : Nat) : m (Except StorageError Bytes × Source m) :=
  if n = 0 then pure (.ok [], s)
  else do
    match ← read s n with
    | (.error e, s) => pure (.error e, s)
    | (.ok [], s) => pure (.ok [], s)
    | (.ok (b :: bs), s) => do
      let (rest, s) ← gather s (n - (bs.length + 1))
      pure (rest.map fun more => (b :: bs) ++ more, s)
termination_by n
decreasing_by omega

end RecordStore

end RecordService
