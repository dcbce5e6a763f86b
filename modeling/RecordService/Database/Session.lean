import RecordService.Database.Reply
import RecordService.Sql.Statement

/-!
# Conversations with a database

The store in a database sends statements and goes on with what the database answers. A session is
such a conversation: either it is over, or it sends a statement and has a continuation for every
reply.

* `RecordService.Session`: conversations, a monad.
* `RecordService.Session.run`: a conversation with a database given by its answers.
* `RecordService.Session.query`: one statement and what is made of the reply.
-/

namespace RecordService

/-- A conversation with a database that ends with a result. -/
inductive Session (α : Type) where
  /-- It is over. -/
  | done (a : α)
  /-- It sends a statement and goes on with the reply. -/
  | send (s : Sql.Statement) (next : Reply → Session α)

namespace Session

/-- A session followed by another one. -/
def andThen {α β : Type} (f : α → Session β) : Session α → Session β
  | done a => f a
  | send s next => send s fun r => (next r).andThen f

instance : Monad Session where
  pure := done
  bind s f := s.andThen f

/-- Sends one statement. -/
def ask (s : Sql.Statement) : Session Reply := send s done

/-- A session with a database that is described by a state and its answers to statements. -/
def run {α σ : Type} (answer : σ → Sql.Statement → Reply × σ) : Session α → σ → α × σ
  | done a, db => (a, db)
  | send s next, db => (next (answer db s).1).run answer (answer db s).2

/-- Sends one statement and reads the reply. -/
def query {α : Type} (s : Sql.Statement) (read : Reply → Except DatabaseError α) :
    ExceptT StorageError Session α :=
  ExceptT.mk (ask s >>= fun r => pure ((read r).mapError StorageError.database))

end Session

end RecordService
