import RecordService.Proofs.Database.Staging
import RecordService.Proofs.Outcome
import RecordService.Proofs.Reads

/-!
# Content is read to its end

A database may reply anything to a reader of content: a length that the content does not have, and
then no bytes, fewer bytes than were asked for, or more. The reader believes what it gets. What it has
not asked for becomes less with every reply, and nothing is left of it with an empty one, so that
there are no more queries than the length says, and the reads come to an end
(`RecordService.ContentReader.Exhausts`). What they give is what the replies brought.

The buffer of a reader may be kept in another way: the last chunk stays as it is, and a position in it
says how much was handed out. This reader, whose numbers are signed, sends the same and gives the
same, and the part that it takes from the chunk is always there
(`RecordService.ContentCursor.result_eq`).

* `RecordService.Session.exchange`: one read, with the statements that it sends.
* `RecordService.ContentReader.Steps`: what one read may do.
* `RecordService.ContentReader.Stands`: what is known between two reads.
* `RecordService.ContentCursor`: a reader that keeps its chunk in place.
* `RecordService.Database.reads_exhaust_content`: reads of a source that was opened.
-/

namespace RecordService

/-! ### Reads with their statements -/

/-- What a read comes to: what it gives, and the statements that it sends, with the replies. -/
structure Exchange (α : Type) where
  result : α
  sent : List (Sql.Statement × Reply)

namespace Exchange

/-- The bytes that a read gives. -/
def data (x : Exchange (Except StorageError Bytes)) : Bytes :=
  match x.result with
  | .ok b => b
  | .error _ => []

variable (reads : Nat → Exchange (Except StorageError Bytes))

/-- The bytes that the reads before read number `k` give. -/
def delivered (k : Nat) : Bytes := Reads.upTo (fun i => (reads i).data) k

/-- The statements that the reads before read number `k` send. -/
def log (k : Nat) : List (Sql.Statement × Reply) := Reads.upTo (fun i => (reads i).sent) k

end Exchange

namespace Session

variable {α ρ σ : Type}

/-- One read of a source, with a database. -/
def exchange (answer : σ → Sql.Statement → Reply × σ) (read : Nat → ρ → Session (α × ρ))
    (room : Nat) (source : ρ × σ) : Exchange α × (ρ × σ) :=
  let out := (read room source.1).run answer source.2
  (⟨out.1.1, (read room source.1).exchanged answer source.2⟩, (out.1.2, out.2))

variable {answer : σ → Sql.Statement → Reply × σ} {db : σ}
variable {read : Nat → ρ → Session (α × ρ)} {room : Nat} {r : ρ}

theorem exchange_of_done {out : α × ρ} (h : read room r = .done out) :
    exchange answer read room (r, db) = (⟨out.1, []⟩, (out.2, db)) := by
  rw [exchange, h]
  rfl

theorem exchange_of_send {s : Sql.Statement} {next : Reply → Session (α × ρ)} (out : α × ρ)
    (h : read room r = .send s next) (hnext : next (answer db s).1 = .done out) :
    exchange answer read room (r, db) =
      (⟨out.1, [(s, (answer db s).1)]⟩, (out.2, (answer db s).2)) := by
  rw [exchange, h]
  simp only [run, exchanged, hnext]

/-- Whether sessions send the same, whatever is replied, and end with results that are related. -/
inductive Alike {α β : Type} (R : α → β → Prop) : Session α → Session β → Prop
  | done {a : α} {b : β} (h : R a b) : Alike R (.done a) (.done b)
  | send {s : Sql.Statement} {next : Reply → Session α} {next' : Reply → Session β}
      (h : ∀ reply, Alike R (next reply) (next' reply)) : Alike R (.send s next) (.send s next')

/-- **Sessions that are alike run alike**, with any database. -/
theorem Alike.run {α β : Type} {R : α → β → Prop} {x : Session α} {y : Session β}
    (h : Alike R x y) (answer : σ → Sql.Statement → Reply × σ) (db : σ) :
    R (x.run answer db).1 (y.run answer db).1 ∧ (x.run answer db).2 = (y.run answer db).2 ∧
      x.exchanged answer db = y.exchanged answer db := by
  induction h generalizing db with
  | done h => exact ⟨h, rfl, rfl⟩
  | send _ ih =>
    obtain ⟨hresult, hdb, hsent⟩ := ih (answer db _).1 (answer db _).2
    exact ⟨hresult, hdb, congrArg (_ :: ·) hsent⟩

end Session

namespace ContentReader

/-- The bytes that some replies brought. -/
def received (log : List (Sql.Statement × Reply)) : Bytes :=
  log.flatMap fun e => match chunkOf e.2 with
    | .ok chunk => chunk
    | .error _ => []

/-- The number of replies that are no chunks. -/
def refused (log : List (Sql.Statement × Reply)) : Nat :=
  log.countP fun e => !(chunkOf e.2).isOk

@[simp] theorem received_append (log log' : List (Sql.Statement × Reply)) :
    received (log ++ log') = received log ++ received log' :=
  List.flatMap_append

@[simp] theorem refused_append (log log' : List (Sql.Statement × Reply)) :
    refused (log ++ log') = refused log + refused log' :=
  List.countP_append

section

variable {s : Sql.Statement} {reply : Reply} {chunk : Bytes} {e : StorageError}

theorem received_of_ok (h : chunkOf reply = .ok chunk) : received [(s, reply)] = chunk := by
  simp [received, h]

theorem received_of_error (h : chunkOf reply = .error e) : received [(s, reply)] = [] := by
  simp [received, h]

theorem refused_of_error (h : chunkOf reply = .error e) : refused [(s, reply)] = 1 := by
  simp [refused, h, Except.isOk, Except.toBool]

end

/-- What a read may do, whatever is replied. -/
inductive Steps (room : Nat) (r : ContentReader) :
    Exchange (Except StorageError Bytes) → ContentReader → Prop
  /-- It asks for nothing, since there is something in the buffer or nothing left to ask for. -/
  | hold (h : r.buffer ≠ [] ∨ r.length ≤ r.offset) :
      Steps room r ⟨.ok (r.buffer.take room), []⟩ { r with buffer := r.buffer.drop room }
  /-- It asks for a chunk. -/
  | receive {reply : Reply} {chunk : Bytes} (hbuffer : r.buffer = []) (hoffset : r.offset < r.length)
      (hchunk : chunkOf reply = .ok chunk) :
      Steps room r ⟨.ok (chunk.take room), [(r.request, reply)]⟩
        { r.receive chunk with buffer := chunk.drop room }
  /-- It asks for a chunk in vain. -/
  | fail {reply : Reply} {e : StorageError} (hbuffer : r.buffer = []) (hoffset : r.offset < r.length)
      (hchunk : chunkOf reply = .error e) :
      Steps room r ⟨.error e, [(r.request, reply)]⟩ r

section

variable {r : ContentReader} {room : Nat}

theorem read_of_asks (hbuffer : r.buffer = []) (hoffset : r.offset < r.length) :
    r.read room = .send r.request fun reply =>
      match chunkOf reply with
      | .ok chunk => .done ((r.receive chunk).handOut room)
      | .error e => .done (.error e, r) :=
  if_pos ⟨List.isEmpty_iff.mpr hbuffer, hoffset⟩

theorem read_of_holds (h : r.buffer ≠ [] ∨ r.length ≤ r.offset) :
    r.read room = .done (r.handOut room) := by
  refine if_neg fun hask => ?_
  rcases h with hbuffer | hoffset
  · exact hbuffer (List.isEmpty_iff.mp hask.1)
  · exact absurd hask.2 (Nat.not_lt.mpr hoffset)

/-- One read, with a database. -/
def exchange {σ : Type} (answer : σ → Sql.Statement → Reply × σ) :
    Nat → ContentReader × σ → Exchange (Except StorageError Bytes) × (ContentReader × σ) :=
  Session.exchange answer fun room r => r.read room

/-- **A read does one of these**, with any database. -/
theorem steps_exchange {σ : Type} (answer : σ → Sql.Statement → Reply × σ) (room : Nat)
    (source : ContentReader × σ) :
    Steps room source.1 (exchange answer room source).1 (exchange answer room source).2.1 := by
  obtain ⟨r, db⟩ := source
  set out := exchange answer room (r, db)
  by_cases hholds : r.buffer ≠ [] ∨ r.length ≤ r.offset
  · have hout : out = _ := Session.exchange_of_done (read_of_holds hholds)
    rw [hout]
    exact .hold hholds
  · obtain ⟨hbuffer, hoffset⟩ : r.buffer = [] ∧ r.offset < r.length := by
      simpa [not_or] using hholds
    cases hchunk : chunkOf (answer db r.request).1 with
    | ok chunk =>
      have hout : out = _ := Session.exchange_of_send ((r.receive chunk).handOut room)
        (read_of_asks hbuffer hoffset) (by rw [hchunk])
      rw [hout]
      exact .receive hbuffer hoffset hchunk
    | error e =>
      have hout : out = _ := Session.exchange_of_send (.error e, r)
        (read_of_asks hbuffer hoffset) (by rw [hchunk])
      rw [hout]
      exact .fail hbuffer hoffset hchunk

end

/-! ### Between two reads -/

/-- What is known of a reader between two reads: it has delivered what it received, the buffer apart,
and it has received as much as it asked for, unless it is at the end. Every chunk has brought it
nearer to the end. -/
structure Stands (t : RecordType) (column : String) (id : Int) (n : Nat) (r : ContentReader)
    (delivered : Bytes) (log : List (Sql.Statement × Reply)) : Prop where
  type : r.type = t
  column : r.column = column
  id : r.id = id
  length : r.length = n
  buffer : delivered ++ r.buffer = received log
  offset : r.offset < r.length → r.offset = (received log).length
  queries : log.length + (r.length - r.offset) ≤ r.length + refused log

section

variable {t : RecordType} {column : String} {id : Int} {n room : Nat} {r r' : ContentReader}
variable {delivered : Bytes} {log : List (Sql.Statement × Reply)}
variable {x : Exchange (Except StorageError Bytes)}

/-- What is received comes behind what was received before. -/
theorem Stands.receive (h : Stands t column id n r delivered log) {reply : Reply} {chunk : Bytes}
    (hbuffer : r.buffer = []) (hoffset : r.offset < r.length) (hchunk : chunkOf reply = .ok chunk) :
    Stands t column id n (r.receive chunk) delivered (log ++ [(r.request, reply)]) where
  type := h.type
  column := h.column
  id := h.id
  length := h.length
  buffer := by
    rw [received_append, received_of_ok hchunk, ← h.buffer, hbuffer, List.append_nil]
    rfl
  offset := by
    intro hlt
    rw [received_append, received_of_ok hchunk, List.length_append, ← h.offset hoffset]
    by_cases hempty : chunk.isEmpty
    · simp [ContentReader.receive, hempty] at hlt
    · simp [ContentReader.receive, hempty]
  queries := by
    have hless := r.remaining_receive chunk hoffset
    have hqueries := h.queries
    have hlength : (r.receive chunk).length = r.length := rfl
    rw [List.length_append, List.length_singleton, refused_append]
    omega

/-- What is handed out comes behind what was delivered before. -/
theorem Stands.handOut (h : Stands t column id n r delivered log) (room : Nat) :
    Stands t column id n { r with buffer := r.buffer.drop room } (delivered ++ r.buffer.take room)
      log :=
  { h with buffer := by rw [List.append_assoc, List.take_append_drop, h.buffer] }

/-- **A read keeps what is known.** -/
theorem Stands.step (h : Stands t column id n r delivered log) (hread : Steps room r x r') :
    Stands t column id n r' (delivered ++ x.data) (log ++ x.sent) := by
  cases hread with
  | hold _ =>
    rw [List.append_nil]
    exact h.handOut room
  | receive hbuffer hoffset hchunk => exact (h.receive hbuffer hoffset hchunk).handOut room
  | fail hbuffer hoffset hchunk =>
    have hqueries := h.queries
    refine { h with buffer := ?_, offset := ?_, queries := ?_ }
    · rw [received_append, received_of_error hchunk, List.append_nil, ← h.buffer]
      exact congrArg (· ++ r.buffer) (List.append_nil _)
    · rw [received_append, received_of_error hchunk, List.append_nil]
      exact h.offset
    · rw [List.length_append, List.length_singleton, refused_append, refused_of_error hchunk]
      omega

/-- A read sends nothing, or asks for the next bytes, if there are any left. -/
theorem Steps.sent (hread : Steps room r x r') :
    x.sent = [] ∨ r.offset < r.length ∧ ∃ reply, x.sent = [(r.request, reply)] := by
  cases hread with
  | hold _ => exact .inl rfl
  | receive _ hoffset _ => exact .inr ⟨hoffset, _, rfl⟩
  | fail _ hoffset _ => exact .inr ⟨hoffset, _, rfl⟩

/-- **What a read asks for** comes behind what was received. -/
theorem Stands.asks (h : Stands t column id n r delivered log) (hread : Steps room r x r') :
    x.sent = [] ∨ ∃ want reply, 1 ≤ want ∧ want ≤ maxChunk ∧
      x.sent = [(Sql.contentChunk t column ((received log).length + 1) want id, reply)] := by
  refine hread.sent.imp_right fun ⟨hoffset, reply, hsent⟩ => ?_
  have hrequest : r.request =
      Sql.contentChunk t column ((received log).length + 1) r.want id := by
    rw [request, h.type, h.column, h.id, h.offset hoffset]
  refine ⟨r.want, reply, ?_, Nat.min_le_right _ _, by rw [hsent, hrequest]⟩
  simp only [want, maxChunk]
  omega

/-- A read fails exactly if its reply is no chunk. -/
theorem Steps.fails (hread : Steps room r x r') {e : StorageError} :
    x.result = .error e ↔ ∃ q ∈ x.sent, chunkOf q.2 = .error e := by
  cases hread with
  | hold _ => simp
  | receive _ _ hchunk => simp [hchunk]
  | fail _ _ hchunk => simp [hchunk]

/-- A read gives no more than there is room for. -/
theorem Steps.length_le (hread : Steps room r x r') {b : Bytes} (hb : x.result = .ok b) :
    b.length ≤ room := by
  cases hread with
  | hold _ => exact Except.ok.inj hb ▸ List.length_take_le _ _
  | receive _ _ _ => exact Except.ok.inj hb ▸ List.length_take_le _ _
  | fail _ _ _ => cases hb

/-! ### The end -/

/-- Whether a reader has nothing in its buffer and nothing left to ask for. -/
def Ended (r : ContentReader) : Prop := r.buffer = [] ∧ r.length ≤ r.offset

/-- The end stays the end. -/
theorem Ended.step (h : r.Ended) (hread : Steps room r x r') : x = ⟨.ok [], []⟩ ∧ r'.Ended := by
  obtain ⟨hbuffer, hoffset⟩ := h
  cases hread with
  | hold _ => exact ⟨by rw [hbuffer, List.take_nil], by rw [hbuffer, List.drop_nil], hoffset⟩
  | receive _ hlt _ => exact absurd hlt (Nat.not_lt.mpr hoffset)
  | fail _ hlt _ => exact absurd hlt (Nat.not_lt.mpr hoffset)

/-- **A read that gives no bytes is at the end.** -/
theorem Steps.ended (hread : Steps room r x r') (hroom : 0 < room) (hnone : x.result = .ok []) :
    r'.Ended := by
  have hempty : ∀ {b : Bytes}, b.take room = [] → b = [] := fun h =>
    (List.take_eq_nil_iff.mp h).resolve_left hroom.ne'
  cases hread with
  | hold h =>
    have hbuffer := hempty (Except.ok.inj hnone)
    refine ⟨by simp only [hbuffer, List.drop_nil], h.resolve_left (not_not.mpr hbuffer)⟩
  | receive _ _ _ =>
    obtain rfl := hempty (Except.ok.inj hnone)
    exact ⟨List.drop_nil, Nat.le_refl _⟩
  | fail _ _ _ => cases hnone

/-- **A read that gives bytes brings the end nearer**: there is less to ask for, or less in the
buffer. -/
theorem Steps.nearer (hread : Steps room r x r') (hroom : 0 < room) (hsome : x.result ≠ .ok [])
    (hok : ∀ e, x.result ≠ .error e) :
    Prod.Lex (· < ·) (· < ·) (r'.length - r'.offset, r'.buffer.length)
      (r.length - r.offset, r.buffer.length) := by
  cases hread with
  | hold _ =>
    refine .right _ ?_
    have hbuffer : r.buffer ≠ [] := by
      rintro hbuffer
      exact hsome (by rw [hbuffer, List.take_nil])
    have hpos := List.length_pos_iff.mpr hbuffer
    rw [List.length_drop]
    omega
  | receive _ hoffset _ => exact .left _ _ (r.remaining_receive _ hoffset)
  | fail _ _ _ => exact absurd rfl (hok _)

end

/-! ### Reads one after the other -/

/-- How reads of `n` bytes of content go to the end, whatever is replied. -/
structure Exhausts (t : RecordType) (column : String) (id : Int) (n : Nat) (rooms : Nat → Nat)
    (reads : Nat → Exchange (Except StorageError Bytes)) : Prop where
  /-- A read sends one statement or none. It asks for something, but not for more than 64 KiB, behind
  what was received. -/
  asks : ∀ k, (reads k).sent = [] ∨ ∃ want reply, 1 ≤ want ∧ want ≤ 65536 ∧
    (reads k).sent =
      [(Sql.contentChunk t column ((received (Exchange.log reads k)).length + 1) want id, reply)]
  /-- A read fails exactly if the reply is no chunk. -/
  fails : ∀ k e, (reads k).result = .error e ↔ ∃ q ∈ (reads k).sent, chunkOf q.2 = .error e
  /-- A read gives no more than there is room for. -/
  room : ∀ k b, (reads k).result = .ok b → b.length ≤ rooms k
  /-- No more chunks are received than there are bytes. -/
  queries : ∀ k, (Exchange.log reads k).length ≤ n + refused (Exchange.log reads k)
  /-- What was delivered was received before. -/
  delivered : ∀ k, Exchange.delivered reads k <+: received (Exchange.log reads k)
  /-- When a read gives no bytes, all that was received was delivered, and that is the end. -/
  ended : ∀ k, (reads k).result = .ok [] →
    Exchange.delivered reads k = received (Exchange.log reads (k + 1)) ∧
      ∀ m, k < m → reads m = ⟨.ok [], []⟩
  /-- There is such a read, unless reads fail again and again. -/
  ends : (∃ k, ∀ m, k ≤ m → ∀ e, (reads m).result ≠ .error e) → ∃ k, (reads k).result = .ok []

section

variable {t : RecordType} {column : String} {id : Int} {n : Nat} {rooms : Nat → Nat}
variable {readers : Nat → ContentReader} {reads : Nat → Exchange (Except StorageError Bytes)}
variable (hreads : ∀ k, Steps (rooms k) (readers k) (reads k) (readers (k + 1)))

include hreads

/-- What is known between two reads, for any number of reads. -/
theorem stands_of_steps (hstart : readers 0 = { type := t, column := column, id := id, length := n })
    (k : Nat) :
    Stands t column id n (readers k) (Exchange.delivered reads k) (Exchange.log reads k) := by
  induction k with
  | zero =>
    rw [hstart]
    exact ⟨rfl, rfl, rfl, rfl, rfl, fun _ => rfl, Nat.le_of_eq (Nat.zero_add _)⟩
  | succ k ih =>
    rw [Exchange.delivered, Exchange.log, Reads.upTo_succ, Reads.upTo_succ]
    exact ih.step (hreads k)

/-- Nothing comes behind the end. -/
theorem eq_of_ended {k m : Nat} (h : (readers k).Ended) (hm : k ≤ m) : reads m = ⟨.ok [], []⟩ := by
  have hended : (readers m).Ended := by
    induction m, hm using Nat.le_induction with
    | base => exact h
    | succ m _ ih => exact (ih.step (hreads m)).2
  exact (hended.step (hreads m)).1

variable (hrooms : ∀ k, 0 < rooms k)

include hrooms

/-- **The end is reached**, by what there is to ask for and what is in the buffer. -/
theorem exists_ended (k : Nat) (hok : ∀ m, k ≤ m → ∀ e, (reads m).result ≠ .error e) :
    ∃ k, (reads k).result = .ok [] := by
  by_cases hnone : (reads k).result = .ok []
  · exact ⟨k, hnone⟩
  · have hnearer := (hreads k).nearer (hrooms k) hnone (hok k (Nat.le_refl k))
    exact exists_ended (k + 1) fun m hm => hok m (Nat.le_of_succ_le hm)
termination_by ((readers k).length - (readers k).offset, (readers k).buffer.length)
decreasing_by exact hnearer

/-- **Reads go to the end**, if each of them does what a read may do. -/
theorem exhausts_of_steps
    (hstart : readers 0 = { type := t, column := column, id := id, length := n }) :
    Exhausts t column id n rooms reads where
  asks k := (stands_of_steps hreads hstart k).asks (hreads k)
  fails k _ := (hreads k).fails
  room k _ hb := (hreads k).length_le hb
  queries k := by
    have hqueries := (stands_of_steps hreads hstart k).queries
    have hlength := (stands_of_steps hreads hstart k).length
    omega
  delivered k := ⟨_, (stands_of_steps hreads hstart k).buffer⟩
  ended k hnone := by
    have hended := (hreads k).ended (hrooms k) hnone
    refine ⟨?_, fun m hm => eq_of_ended hreads hended hm⟩
    have hbuffer := (stands_of_steps hreads hstart (k + 1)).buffer
    rw [hended.1, List.append_nil] at hbuffer
    rw [← hbuffer, Exchange.delivered, Exchange.delivered, Reads.upTo_succ, Exchange.data, hnone,
      List.append_nil]
  ends := fun ⟨k, hok⟩ => exists_ended hreads hrooms k hok

end

/-- **The last read**, if all replies are chunks. -/
theorem Exhausts.exists_last {t : RecordType} {column : String} {id : Int} {n : Nat}
    {rooms : Nat → Nat} {reads : Nat → Exchange (Except StorageError Bytes)}
    (h : Exhausts t column id n rooms reads)
    (hchunks : ∀ k, ∀ q ∈ (reads k).sent, ∃ chunk, chunkOf q.2 = .ok chunk) :
    ∃ k, (reads k).result = .ok [] ∧ (Exchange.log reads (k + 1)).length ≤ n ∧
      Exchange.delivered reads k = received (Exchange.log reads (k + 1)) := by
  have hok : ∀ k e, (reads k).result ≠ .error e := by
    intro k e he
    obtain ⟨q, hq, herror⟩ := (h.fails k e).mp he
    obtain ⟨chunk, hchunk⟩ := hchunks k q hq
    rw [hchunk] at herror
    cases herror
  have hnone : ∀ k, refused (Exchange.log reads k) = 0 := by
    intro k
    refine List.countP_eq_zero.mpr fun q hq => ?_
    obtain ⟨i, -, hi⟩ := List.mem_flatMap.mp hq
    obtain ⟨chunk, hchunk⟩ := hchunks i q hi
    simp [hchunk, Except.isOk, Except.toBool]
  obtain ⟨k, hlast⟩ := h.ends ⟨0, fun m _ => hok m⟩
  have hqueries := h.queries (k + 1)
  rw [hnone, Nat.add_zero] at hqueries
  exact ⟨k, hlast, hqueries, (h.ended k hlast).1⟩

end ContentReader

/-! ### The chunk in place -/

/-- The bytes from one place up to another one, if there are such places. -/
def Bytes.slice? (b : Bytes) (start stop : Nat) : Option Bytes :=
  if start ≤ stop ∧ stop ≤ b.length then some ((b.take stop).drop start) else none

/-- Content that is being read, with the length that was replied, whatever its sign. The last chunk is
kept as it is: what is in front of `position` has been handed out. -/
structure ContentCursor where
  type : RecordType
  column : String
  id : Int
  length : Int
  offset : Int := 0
  chunk : Bytes := []
  position : Nat := 0

namespace ContentCursor

/-- The number of bytes to ask for next. -/
def want (c : ContentCursor) : Int := min (c.length - c.offset) 65536

/-- The statement that asks for the next bytes. -/
def request (c : ContentCursor) : Sql.Statement :=
  Sql.contentChunk c.type c.column (c.offset + 1).toNat c.want.toNat c.id

/-- The reader with a chunk received. The empty chunk ends the content. -/
def receive (c : ContentCursor) (chunk : Bytes) : ContentCursor :=
  { c with
    offset := if chunk.isEmpty then c.length else c.offset + chunk.length
    chunk
    position := 0 }

/-- Hands out at most `room` bytes of the chunk. There is no result if they are not there. -/
def handOut (c : ContentCursor) (room : Nat) :
    Option (Except StorageError Bytes) × ContentCursor :=
  let n := min room (c.chunk.length - c.position)
  ((c.chunk.slice? c.position (c.position + n)).map .ok, { c with position := c.position + n })

/-- Reads at most `room` bytes. -/
def read (c : ContentCursor) (room : Nat) :
    Session (Option (Except StorageError Bytes) × ContentCursor) :=
  if c.chunk.length ≤ c.position then
    if c.length ≤ c.offset then .done (some (.ok []), c)
    else
      .send c.request fun reply =>
        match ContentReader.chunkOf reply with
        | .ok chunk => .done ((c.receive chunk).handOut room)
        | .error e => .done (some (.error e), c)
  else .done (c.handOut room)

/-- The reader that stands at the same place. -/
def reader (c : ContentCursor) : ContentReader where
  type := c.type
  column := c.column
  id := c.id
  length := c.length.toNat
  offset := c.offset.toNat
  buffer := c.chunk.drop c.position

variable {c : ContentCursor}

theorem reader_handOut (h : c.position ≤ c.chunk.length) (room : Nat) :
    (c.handOut room).1 = some (c.reader.handOut room).1 ∧
      (c.handOut room).2.reader = (c.reader.handOut room).2 := by
  have hlength : c.reader.buffer.length = c.chunk.length - c.position := List.length_drop
  rw [ContentReader.handOut_min, hlength]
  set n := min room (c.chunk.length - c.position) with hn
  have hslice : c.chunk.slice? c.position (c.position + n) =
      some ((c.chunk.drop c.position).take n) := by
    rw [Bytes.slice?, if_pos ⟨Nat.le_add_right _ _, by omega⟩, List.drop_take, Nat.add_sub_cancel_left]
  refine ⟨?_, ?_⟩
  · rw [handOut, ← hn, hslice]
    rfl
  · simp only [handOut, ← hn, reader, ContentReader.handOut, List.drop_drop]

/-- The numbers are never negative, the length apart. -/
theorem offset_receive (h : 0 ≤ c.offset) (hlt : c.offset < c.length) (chunk : Bytes) :
    0 ≤ (c.receive chunk).offset := by
  simp only [receive]
  split <;> omega

theorem reader_receive (h : 0 ≤ c.offset) (chunk : Bytes) :
    (c.receive chunk).reader = c.reader.receive chunk := by
  have hoffset : (if chunk.isEmpty then c.length else c.offset + chunk.length).toNat =
      if chunk.isEmpty then c.length.toNat else c.offset.toNat + chunk.length := by
    split <;> omega
  simp only [receive, reader, ContentReader.receive, hoffset, List.drop_zero]

theorem request_reader (h : 0 ≤ c.offset) : c.reader.request = c.request := by
  have hoffset : (c.offset + 1).toNat = c.offset.toNat + 1 := by omega
  have hwant : c.want.toNat = c.reader.want := by
    simp only [want, ContentReader.want, ContentReader.maxChunk, reader]
    omega
  rw [request, hoffset, hwant]
  rfl

/-- **A read of a chunk in place** sends and gives what a read does that keeps a buffer, and the bytes
that it hands out are there. -/
theorem read_alike (h : 0 ≤ c.offset) (room : Nat) :
    Session.Alike (fun out out' => out.1 = some out'.1 ∧ 0 ≤ out.2.offset ∧ out.2.reader = out'.2)
      (c.read room) (c.reader.read room) := by
  by_cases hheld : c.chunk.length ≤ c.position
  · have hbuffer : c.reader.buffer = [] := List.drop_eq_nil_of_le hheld
    by_cases hend : c.length ≤ c.offset
    · rw [read, if_pos hheld, if_pos hend,
        ContentReader.read_of_holds (.inr (Int.toNat_le_toNat hend)), ContentReader.handOut, hbuffer,
        List.take_nil, List.drop_nil, ← hbuffer]
      exact .done ⟨rfl, h, rfl⟩
    · have hlt := Int.not_le.mp hend
      have hoffset : c.reader.offset < c.reader.length := by
        simp only [reader]
        omega
      rw [read, if_pos hheld, if_neg hend, ContentReader.read_of_asks hbuffer hoffset,
        request_reader h]
      refine .send fun reply => ?_
      cases ContentReader.chunkOf reply with
      | ok chunk =>
        obtain ⟨hresult, hrest⟩ := reader_handOut (c := c.receive chunk) (Nat.zero_le _) room
        rw [reader_receive h] at hresult hrest
        exact .done ⟨hresult, offset_receive h hlt chunk, hrest⟩
      | error e => exact .done ⟨rfl, h, rfl⟩
  · have hbuffer : c.reader.buffer ≠ [] := by
      rw [← List.length_pos_iff]
      simp only [reader, List.length_drop]
      omega
    obtain ⟨hresult, hrest⟩ := reader_handOut (Nat.le_of_not_le hheld) room
    rw [read, if_neg hheld, ContentReader.read_of_holds (.inl hbuffer)]
    exact .done ⟨hresult, h, hrest⟩

/-- One read, with a database. -/
def exchange {σ : Type} (answer : σ → Sql.Statement → Reply × σ) :
    Nat → ContentCursor × σ →
      Exchange (Option (Except StorageError Bytes)) × (ContentCursor × σ) :=
  Session.exchange answer fun room c => c.read room

/-- **Reads of a chunk in place** send and give what reads of a buffer do. -/
theorem result_eq {σ : Type} (answer : σ → Sql.Statement → Reply × σ) (rooms : Nat → Nat)
    (h : 0 ≤ c.offset) (db : σ) (k : Nat) :
    Reads.result (exchange answer) rooms (c, db) k =
      ⟨some (Reads.result (ContentReader.exchange answer) rooms (c.reader, db) k).result,
        (Reads.result (ContentReader.exchange answer) rooms (c.reader, db) k).sent⟩ := by
  refine (Reads.alike
    (Q := fun (x : Exchange (Option (Except StorageError Bytes)))
      (y : Exchange (Except StorageError Bytes)) => x = ⟨some y.result, y.sent⟩)
    (R := fun (s : ContentCursor × σ) (s' : ContentReader × σ) =>
      0 ≤ s.1.offset ∧ s.1.reader = s'.1 ∧ s.2 = s'.2)
    (s := (c, db)) (t := (c.reader, db)) ?_ rooms ⟨h, rfl, rfl⟩ k).1
  rintro room ⟨c, db⟩ ⟨_, _⟩ ⟨hc, rfl, rfl⟩
  obtain ⟨⟨hresult, hoffset, hrest⟩, hdb, hsent⟩ := (read_alike hc room).run answer db
  refine ⟨?_, hoffset, hrest, hdb⟩
  simp only [exchange, ContentReader.exchange, Session.exchange, hresult, hsent]

end ContentCursor

/-! ### Any replies -/

namespace Database

variable {σ : Type}

/-- A source that is opened has the length that the database replied. -/
theorem exists_length_of_openSource {answer : σ → Sql.Statement → Reply × σ} {db opened : σ}
    {t : RecordType} {id : Int} {column : String} {r : ContentReader}
    (h : (openSource t id column).run.run answer db = (.ok (some r), opened)) :
    ∃ n reply row,
      (Sql.contentLength t column id, reply) ∈ (openSource t id column).run.exchanged answer db ∧
        reply.first? = .ok (some row) ∧ Column.integer.readOptional row 0 = .ok (some n) ∧
        r = { type := t, column := column, id := id, length := n.toNat } := by
  obtain ⟨_, db₁, hblob, h₁⟩ := Session.run_bind_eq_ok h
  obtain ⟨_, db₂, hstart, h₂⟩ := Session.run_bind_eq_ok h₁
  obtain ⟨_, db₃, hrepeatable, h₃⟩ := Session.run_bind_eq_ok h₂
  obtain ⟨length, db₄, hlength, h₄⟩ := Session.run_bind_eq_ok h₃
  have hmem : (Sql.contentLength t column id, (answer db₃ (Sql.contentLength t column id)).1) ∈
      (openSource t id column).run.exchanged answer db := by
    rw [openSource, Session.exchanged_bind_of_ok hblob, Session.exchanged_bind_of_ok hstart,
      Session.exchanged_bind_of_ok hrepeatable, Session.exchanged_bind_of_ok hlength,
      Session.exchanged_query, Session.exchanged_query, Session.exchanged_query]
    simp
  have hread := Session.query_eq_ok hlength
  obtain _ | _ | n := length
  · cases h₄
  · cases h₄
  · have hr : some _ = some r := Except.ok.inj (congrArg Prod.fst h₄)
    obtain ⟨_ | row, hfirst, hrow⟩ := Outcome.bind_eq_ok_iff.mp hread
    · cases hrow
    · obtain ⟨length, hn, hlength⟩ := Outcome.map_eq_ok_iff.mp hrow
      rw [Option.some.inj hlength] at hn
      exact ⟨n, _, row, hmem, hfirst, hn, (Option.some.inj hr).symm⟩

/-- **Content is read to its end, whatever the database replies.** A source that is opened has the
length that was replied, or none if that is negative. Whatever the length and the replies, reads of
the source go to its end: they ask for 1 to 64 KiB behind what they received, for no more chunks than
there are bytes, and give what they received and nothing else. A reader that keeps its chunk in place
does the same, and always finds the bytes that it hands out. If all replies are chunks, of any size
or `null`, there is a read that gives no bytes, and up to it all bytes that were received have been
delivered. -/
theorem reads_exhaust_content (answer : σ → Sql.Statement → Reply × σ) (t : RecordType)
    (column : String) (id : Int) {rooms : Nat → Nat} (hrooms : ∀ k, 0 < rooms k) :
    (∀ db r opened, (openSource t id column).run.run answer db = (.ok (some r), opened) →
      ∃ n reply row,
        (Sql.contentLength t column id, reply) ∈ (openSource t id column).run.exchanged answer db ∧
          reply.first? = .ok (some row) ∧ Column.integer.readOptional row 0 = .ok (some n) ∧
          r = { type := t, column := column, id := id, length := n.toNat }) ∧
      ∀ (n : Int) (opened : σ),
        let r : ContentReader := { type := t, column := column, id := id, length := n.toNat }
        let c : ContentCursor := { type := t, column := column, id := id, length := n }
        let reads := Reads.result (ContentReader.exchange answer) rooms (r, opened)
        (∀ k, Reads.result (ContentCursor.exchange answer) rooms (c, opened) k =
            ⟨some (reads k).result, (reads k).sent⟩) ∧
          ContentReader.Exhausts t column id n.toNat rooms reads ∧
          ((∀ k, ∀ q ∈ (reads k).sent, ∃ chunk, ContentReader.chunkOf q.2 = .ok chunk) →
            ∃ k, (reads k).result = .ok [] ∧ (Exchange.log reads (k + 1)).length ≤ n.toNat ∧
              Exchange.delivered reads k =
                ContentReader.received (Exchange.log reads (k + 1))) := by
  refine ⟨fun db r opened h => exists_length_of_openSource h, fun n opened => ?_⟩
  intro r c reads
  have hsteps : ∀ k, ContentReader.Steps (rooms k)
      (Reads.after (ContentReader.exchange answer) rooms (r, opened) k).1 (reads k)
      (Reads.after (ContentReader.exchange answer) rooms (r, opened) (k + 1)).1 :=
    fun k => ContentReader.steps_exchange answer _ _
  have hexhausts : ContentReader.Exhausts t column id n.toNat rooms reads :=
    ContentReader.exhausts_of_steps hsteps hrooms rfl
  exact ⟨ContentCursor.result_eq answer rooms (Int.le_refl 0) opened, hexhausts,
    hexhausts.exists_last⟩

open Memory (photo)

/-- A database that gives some replies one after the other, whatever it is asked, and `null` then. -/
def scripted : List Reply → Sql.Statement → Reply × List Reply
  | [], _ => (.rows [[.null]], [])
  | reply :: replies, _ => (reply, replies)

/-- A picture of five bytes, so it is said, of which first two arrive and then four more. -/
theorem reads_exhaust_content_photo :
    let rooms : Nat → Nat := fun _ => 3
    let said : List Reply := [.affected 0, .affected 0, .rows [[.integer 5]]]
    let sent : List Reply := [.rows [[.bytes [1, 2]]], .rows [[.bytes [3, 4, 5, 6]]]]
    let r : ContentReader := { type := photo, column := "Picture", id := 1, length := 5 }
    let reads := Reads.result (ContentReader.exchange scripted) rooms (r, sent)
    (∀ k, 0 < rooms k) ∧
      (openSource photo 1 "Picture").run.run scripted (said ++ sent) = (.ok (some r), sent) ∧
      (∃ reply, (Sql.contentLength photo "Picture" 1, reply) ∈
        (openSource photo 1 "Picture").run.exchanged scripted (said ++ sent)) ∧
      Exchange.delivered reads 3 = [1, 2, 3, 4, 5, 6] ∧ (reads 3).result = .ok [] ∧
      (∀ m, 3 < m → reads m = ⟨.ok [], []⟩) ∧
      ∃ k, (reads k).result = .ok [] ∧ (Exchange.log reads (k + 1)).length ≤ 5 ∧
        Exchange.delivered reads k = ContentReader.received (Exchange.log reads (k + 1)) := by
  intro rooms said sent r reads
  have hrooms : ∀ k, 0 < rooms k := fun _ => Nat.zero_lt_succ 2
  have hopened : (openSource photo 1 "Picture").run.run scripted (said ++ sent) =
      (.ok (some r), sent) := rfl
  obtain ⟨hlength, hreads⟩ := reads_exhaust_content scripted photo "Picture" 1 hrooms
  obtain ⟨_, reply, _, hmem, -⟩ := hlength _ _ _ hopened
  obtain ⟨-, hexhausts, hlast⟩ := hreads 5 sent
  have hend : (reads 3).result = .ok [] := rfl
  have hrest : ∀ m, 3 < m → reads m = ⟨.ok [], []⟩ := (hexhausts.ended 3 hend).2
  have hchunks : ∀ k, ∀ q ∈ (reads k).sent, ∃ chunk, ContentReader.chunkOf q.2 = .ok chunk := by
    intro k q hq
    match k with
    | 0 => exact ⟨[1, 2], by rw [List.mem_singleton.mp hq]; rfl⟩
    | 1 => exact ⟨[3, 4, 5, 6], by rw [List.mem_singleton.mp hq]; rfl⟩
    | 2 => exact absurd hq List.not_mem_nil
    | 3 => exact absurd hq List.not_mem_nil
    | k + 4 =>
      rw [hrest (k + 4) (Nat.lt_add_left k (Nat.lt_succ_self 3))] at hq
      cases hq
  exact ⟨hrooms, hopened, ⟨reply, hmem⟩, rfl, hend, hrest, hlast hchunks⟩

end Database

end RecordService
