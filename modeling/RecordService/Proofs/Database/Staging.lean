import RecordService.Proofs.Database.Reading
import RecordService.Proofs.Outcome
import RecordService.Proofs.Sql.Assignment

/-!
# Content that is written to a database

A store in a database sends content chunk by chunk to a staging table, and at the end one statement
puts the chunks together. The chunks are numbered as they are sent, and the empty ones are not sent
at all. A store in memory keeps all chunks as they come. Both come to the same content and the same
length (`RecordService.Database.staged_as_in_memory`), the one without any bytes included, which is
not the same as no content.

* `RecordService.Session.exchanged`: the statements of a session, with the replies to them.
* `RecordService.RecordStore.storeChunks`: writes chunks and commits them, in any store.
* `RecordService.Sql.Reading.Appends`, `RecordService.Sql.Reading.Assembles`: what the statements
  for content are read as.
* `RecordService.ContentWriter.exchanged_storeChunks`: the statements that are sent for some chunks.
-/

namespace RecordService

/-! ### Statements of a session -/

namespace Session

variable {α β σ : Type} {answer : σ → Sql.Statement → Reply × σ} {db db' : σ}

/-- The statements that a session sends, in their order, with the replies to them. -/
def exchanged (answer : σ → Sql.Statement → Reply × σ) :
    Session α → σ → List (Sql.Statement × Reply)
  | done _, _ => []
  | send s next, db =>
    (s, (answer db s).1) :: (next (answer db s).1).exchanged answer (answer db s).2

/-- Whether all statements of a session succeed. -/
def Succeeds (answer : σ → Sql.Statement → Reply × σ) (x : Session α) (db : σ) : Prop :=
  ∀ e ∈ x.exchanged answer db, ∃ n, e.2.count = .ok n

theorem succeeds_of_answer (h : ∀ db s, ∃ n, (answer db s).1.count = .ok n) (x : Session α)
    (db : σ) : Succeeds answer x db := by
  induction x generalizing db with
  | done a => simp [Succeeds, exchanged]
  | send s next ih => exact List.forall_mem_cons.mpr ⟨h db s, ih _ _⟩

/-- Sessions one after the other send their statements one after the other. -/
theorem exchanged_bind (s : Session α) (f : α → Session β) (db : σ) :
    (s >>= f).exchanged answer db = s.exchanged answer db ++
      (f (s.run answer db).1).exchanged answer (s.run answer db).2 := by
  induction s generalizing db with
  | done a => rfl
  | send st next ih => exact congrArg (_ :: ·) (ih (answer db st).1 (answer db st).2)

/-- What comes behind a session has run if it succeeds, and so has the session. -/
theorem run_bind_eq_ok {x : ExceptT StorageError Session α} {f : α → ExceptT StorageError Session β}
    {b : β} (h : (x >>= f).run.run answer db = (.ok b, db')) :
    ∃ a between, x.run.run answer db = (.ok a, between) ∧
      (f a).run.run answer between = (.ok b, db') := by
  have hx : (x >>= f).run.run answer db =
      (ExceptT.bindCont f (x.run.run answer db).1).run answer (x.run.run answer db).2 :=
    run_bind x.run (ExceptT.bindCont f) db
  rw [hx] at h
  rcases hrun : x.run.run answer db with ⟨e | a, between⟩
  · rw [hrun] at h
    cases h
  · rw [hrun] at h
    exact ⟨a, between, rfl, h⟩

/-- What comes behind a session that succeeds is sent behind what the session sends. -/
theorem exchanged_bind_of_ok {x : ExceptT StorageError Session α} {a : α}
    (h : x.run.run answer db = (.ok a, db')) (f : α → ExceptT StorageError Session β) :
    (x >>= f).run.exchanged answer db =
      x.run.exchanged answer db ++ (f a).run.exchanged answer db' := by
  have hx : (x >>= f).run.exchanged answer db = x.run.exchanged answer db ++
      (ExceptT.bindCont f (x.run.run answer db).1).exchanged answer (x.run.run answer db).2 :=
    exchanged_bind x.run (ExceptT.bindCont f) db
  rw [h] at hx
  exact hx

theorem exchanged_query {s : Sql.Statement} {read : Reply → Except DatabaseError α} :
    (query s read).run.exchanged answer db = [(s, (answer db s).1)] := rfl

/-- A query succeeds only if its reply can be read. What the database did with the statement is not
known beyond the reply. -/
theorem query_eq_ok {s : Sql.Statement} {read : Reply → Except DatabaseError α} {a : α}
    (h : (query s read).run.run answer db = (.ok a, db')) : read (answer db s).1 = .ok a :=
  Outcome.mapError_eq_ok_iff.mp (congrArg Prod.fst h)

/-- A statement that succeeds, and what comes behind it in the state that it leaves. -/
theorem run_query_count (s : Sql.Statement) (f : Nat → ExceptT StorageError Session β) {n : Nat}
    (h : (answer db s).1.count = .ok n) :
    (query s Reply.count >>= f).run.run answer db = (f n).run.run answer (answer db s).2 ∧
      (query s Reply.count >>= f).run.exchanged answer db =
        (s, (answer db s).1) :: (f n).run.exchanged answer (answer db s).2 := by
  have hquery : (query s Reply.count).run.run answer db = (.ok n, (answer db s).2) :=
    run_query_of_ok h
  exact ⟨run_bind_of_ok hquery f, exchanged_bind_of_ok hquery f⟩

/-- **The first statement of a session that succeeds**, and what comes behind it. -/
theorem Succeeds.query {s : Sql.Statement} {f : Nat → ExceptT StorageError Session β}
    (h : Succeeds answer (query s Reply.count >>= f).run db) :
    ∃ n, (query s Reply.count >>= f).run.run answer db = (f n).run.run answer (answer db s).2 ∧
      (query s Reply.count >>= f).run.exchanged answer db =
        (s, (answer db s).1) :: (f n).run.exchanged answer (answer db s).2 ∧
      Succeeds answer (f n).run (answer db s).2 := by
  have hfirst : ∃ n, (answer db s).1.count = .ok n :=
    h (s, (answer db s).1) (List.mem_cons_self ..)
  obtain ⟨n, hn⟩ := hfirst
  obtain ⟨hrun, hsent⟩ := run_query_count s f hn
  refine ⟨n, hrun, hsent, fun e he => h e ?_⟩
  rw [hsent]
  exact List.mem_cons_of_mem _ he

end Session

/-! ### Statements for content -/

namespace Sql.Reading

/-- The staging table. -/
def stage : TableName := ⟨"pg_temp", "entity_rest_blob_stage"⟩

/-- What an expression that is an argument gives a column. -/
def cell? (arguments : List Argument) (ws : List (String × Expression)) (column : String) :
    Option Argument :=
  match ws.lookup column with
  | some (.argument n _) => argument? arguments n
  | _ => none

/-- Whether a statement appends a row with a number and a chunk to the staging table. -/
def Appends (s : Statement) (row : Nat × Bytes) : Prop :=
  ∃ ws, HasWrite s (.insert stage ws) ∧ ws.map Prod.fst = ["seq", "chunk"] ∧
    cell? s.arguments ws "seq" = some (.value (.integer row.1)) ∧
    cell? s.arguments ws "chunk" = some (.content row.2)

/-- Whether a statement gives a column of the row with an identity the chunks of the staging table,
in the order of their numbers. -/
def Assembles (s : Statement) (t : RecordType) (column : String) (id : Int) : Prop :=
  ∃ n, HasWrite s (.update (nameOf t) [(column, .joined stage "chunk" "seq")]
      Schema.identityName n) ∧
    argument? s.arguments n = some (identityArgument id)

/-- The chunks of some rows in the order of their numbers, `none` if there are no rows. -/
def aggregated? (rows : List (Nat × Bytes)) : Option Bytes :=
  if rows.isEmpty then none
  else some ((rows.mergeSort fun a b => a.1 ≤ b.1).flatMap Prod.snd)

/-- What the chunks of some rows are put together to. It is never `null`. -/
def assembled (rows : List (Nat × Bytes)) : Bytes := (aggregated? rows).getD []

theorem spells_stageChunk (seq : Nat) (chunk : Bytes) :
    Spells (stageChunk seq chunk).pieces
      [.word "insert", .word "into", .word "pg_temp", .symbol ".", .word "entity_rest_blob_stage",
        .symbol "(", .word "seq", .symbol ",", .word "chunk", .symbol ")", .word "values",
        .symbol "(", .argument 1, .symbol ",", .argument 2, .symbol ")"] := by
  have hinto : run .nothing
      "INSERT INTO pg_temp.entity_rest_blob_stage (seq, chunk) VALUES (".toList =
      some ([.word "insert", .word "into", .word "pg_temp", .symbol ".",
        .word "entity_rest_blob_stage", .symbol "(", .word "seq", .symbol ",", .word "chunk",
        .symbol ")", .word "values", .symbol "("], .nothing) := by decide +kernel
  have hcomma : run .nothing ", ".toList = some ([.symbol ","], .nothing) := by decide
  have hsecond := ((spells_placeholder 2).append spells_closing ends_closing).cons_fixed hcomma
  exact ((spells_placeholder 1).append hsecond (ends_fixed _ (by decide))).cons_fixed hinto

/-- **A chunk is appended** with its number. This is read from the text of the statement, by the
grammar of such statements. -/
theorem appends_stageChunk (seq : Nat) (chunk : Bytes) :
    Appends (stageChunk seq chunk) (seq, chunk) := by
  refine ⟨_, ⟨_, (spells_stageChunk seq chunk).scan, .insert rfl (.more rfl (.last rfl ?_))
    (.more rfl (.last rfl ?_)) rfl .nothing⟩, rfl, rfl, rfl⟩ <;> simp

/-- **The chunks are put together** in the order of their numbers, by what the text of the statement
says. -/
theorem assembles_assemble (t : RecordType) (column : String) (id : Int) :
    Assembles (assemble t column id) t column id := by
  have hupdate : run .nothing "UPDATE ".toList = some ([.word "update"], .nothing) := by decide
  have hset : run .nothing " SET ".toList = some ([.word "set"], .nothing) := by decide
  have hjoined : run .nothing (" = COALESCE((SELECT string_agg(chunk, ''::bytea ORDER BY seq) " ++
      "FROM pg_temp.entity_rest_blob_stage), ''::bytea)").toList =
      some ([.symbol "=", .word "coalesce", .symbol "(", .symbol "(", .word "select",
        .word "string_agg", .symbol "(", .word "chunk", .symbol ",", .constant "", .symbol "::",
        .word "bytea", .word "order", .word "by", .word "seq", .symbol ")", .word "from",
        .word "pg_temp", .symbol ".", .word "entity_rest_blob_stage", .symbol ")", .symbol ",",
        .constant "", .symbol "::", .word "bytea", .symbol ")"], .nothing) := by decide +kernel
  have hcolumn := (spells_name column).append (spells_fixed hjoined complete_nothing)
    (ends_fixed _ (by decide))
  have hfront := ((spells_tableName t).cons_fixed hupdate).append (hcolumn.cons_fixed hset)
    (ends_fixed _ (by decide))
  have hall := hfront.append (spells_byIdentity 1) (ends_fixed _ (by decide))
  exact ⟨1, ⟨_, hall.scan, .update rfl (.last rfl (by simp)) rfl .nothing⟩, rfl⟩

end Sql.Reading

/-! ### Writing chunks -/

/-- Writes chunks to a sink, one after the other, and commits it. -/
def RecordStore.storeChunks {m : Type → Type} [Monad m] [RecordStore m] (sink : Sink m) :
    List Bytes → ExceptT StorageError m Nat
  | [] => commit sink
  | chunk :: chunks => do
    let sink ← write sink chunk
    storeChunks sink chunks

namespace ContentWriter

/-- The rows that are staged for some chunks, numbered from `seq` on. -/
def staged (seq : Nat) : List Bytes → List (Nat × Bytes)
  | [] => []
  | chunk :: chunks => if chunk.isEmpty then staged seq chunks
    else (seq, chunk) :: staged (seq + 1) chunks

theorem map_fst_staged (seq : Nat) (chunks : List Bytes) :
    (staged seq chunks).map Prod.fst = List.range' seq (staged seq chunks).length := by
  fun_induction staged seq chunks with
  | case1 => rfl
  | case2 seq chunk chunks hempty ih => exact ih
  | case3 seq chunk chunks hempty ih => rw [List.map_cons, ih, List.length_cons, List.range'_succ]

theorem ne_nil_of_mem_staged {seq : Nat} {chunks : List Bytes} {row : Nat × Bytes}
    (h : row ∈ staged seq chunks) : row.2 ≠ [] := by
  fun_induction staged seq chunks with
  | case1 => simp at h
  | case2 seq chunk chunks hempty ih => exact ih h
  | case3 seq chunk chunks hempty ih =>
    rcases List.mem_cons.mp h with rfl | h
    · simpa using hempty
    · exact ih h

theorem flatMap_staged (seq : Nat) (chunks : List Bytes) :
    (staged seq chunks).flatMap Prod.snd = chunks.flatten := by
  fun_induction staged seq chunks with
  | case1 => rfl
  | case2 seq chunk chunks hempty ih =>
    rw [List.isEmpty_iff.mp hempty, List.flatten_cons, List.nil_append, ih]
  | case3 seq chunk chunks hempty ih => rw [List.flatMap_cons, List.flatten_cons, ih]

/-- **Staged rows are put together to the chunks**, the empty ones and no chunks at all included. -/
theorem assembled_staged (seq : Nat) (chunks : List Bytes) :
    Sql.Reading.assembled (staged seq chunks) = chunks.flatten := by
  have hsorted : (staged seq chunks).mergeSort (fun a b => a.1 ≤ b.1) = staged seq chunks := by
    refine List.mergeSort_of_pairwise ?_
    have hnumbers : ((staged seq chunks).map Prod.fst).Pairwise (· < ·) := by
      rw [map_fst_staged]
      exact List.pairwise_lt_range'
    exact (List.pairwise_map.mp hnumbers).imp fun h => by simpa using Nat.le_of_lt h
  rw [← flatMap_staged seq, Sql.Reading.assembled, Sql.Reading.aggregated?, hsorted]
  cases staged seq chunks <;> rfl

variable {σ : Type} {answer : σ → Sql.Statement → Reply × σ} {db : σ}

/-- A commit that succeeds puts the rows together and gives the number of bytes that were
written. -/
theorem run_commit (w : ContentWriter) (h : Session.Succeeds answer w.commit.run db) :
    (w.commit.run.exchanged answer db).map Prod.fst =
        [Sql.assemble w.type w.column w.id, Sql.commit] ∧
      ∃ after, w.commit.run.run answer db = (.ok w.written, after) := by
  unfold commit at h ⊢
  obtain ⟨_, hrun, hsent, h⟩ := h.query
  obtain ⟨_, hrun', hsent', -⟩ := h.query
  refine ⟨?_, _, hrun.trans hrun'⟩
  rw [hsent, hsent']
  rfl

/-- An empty chunk is not sent, and takes no number. -/
theorem storeChunks_cons_of_isEmpty (w : ContentWriter) {chunk : Bytes} (h : chunk.isEmpty)
    (chunks : List Bytes) :
    RecordStore.storeChunks (m := Session) w (chunk :: chunks) =
      RecordStore.storeChunks (m := Session) w chunks := by
  have hwrite : w.write chunk = pure w := if_pos h
  change w.write chunk >>= _ = _
  rw [hwrite]
  rfl

/-- Another chunk is sent with a number, and the next one gets the next number. -/
theorem storeChunks_cons_of_not_isEmpty (w : ContentWriter) {chunk : Bytes} (h : ¬chunk.isEmpty)
    (chunks : List Bytes) :
    RecordStore.storeChunks (m := Session) w (chunk :: chunks) =
      Session.query (Sql.stageChunk w.sequence chunk) Reply.count >>= fun _ =>
        RecordStore.storeChunks (m := Session)
          { w with sequence := w.sequence + 1, written := w.written + chunk.length } chunks := by
  have hwrite : w.write chunk = Session.query (Sql.stageChunk w.sequence chunk) Reply.count >>=
      fun _ => pure { w with sequence := w.sequence + 1, written := w.written + chunk.length } :=
    if_neg h
  change w.write chunk >>= _ = _
  rw [hwrite]
  refine congrArg (Session.send _) (funext fun reply => ?_)
  cases reply <;> rfl

/-- **What is sent for some chunks**: a row for each that is not empty, and then the end of it. The
induction is on the chunks, with the number of the next row left open. -/
theorem exchanged_storeChunks (w : ContentWriter) (chunks : List Bytes)
    (h : Session.Succeeds answer (RecordStore.storeChunks (m := Session) w chunks).run db) :
    ((RecordStore.storeChunks (m := Session) w chunks).run.exchanged answer db).map Prod.fst =
        (staged w.sequence chunks).map (fun row => Sql.stageChunk row.1 row.2) ++
          [Sql.assemble w.type w.column w.id, Sql.commit] ∧
      ∃ after, (RecordStore.storeChunks (m := Session) w chunks).run.run answer db =
        (.ok (w.written + chunks.flatten.length), after) := by
  induction chunks generalizing w db with
  | nil => exact run_commit w h
  | cons chunk chunks ih =>
    by_cases hempty : chunk.isEmpty
    · rw [storeChunks_cons_of_isEmpty w hempty] at h ⊢
      rw [staged, if_pos hempty, List.isEmpty_iff.mp hempty, List.flatten_cons, List.nil_append]
      exact ih w h
    · rw [storeChunks_cons_of_not_isEmpty w hempty] at h ⊢
      obtain ⟨_, hrun, hsent, h⟩ := h.query
      obtain ⟨hrest, after, hafter⟩ := ih _ h
      refine ⟨?_, after, ?_⟩
      · rw [hsent, List.map_cons, hrest, staged, if_neg hempty]
        rfl
      · rw [hrun, hafter, List.flatten_cons, List.length_append, Nat.add_assoc]

end ContentWriter

/-! ### The store in memory -/

/-- A store in memory commits all chunks, and counts their bytes. -/
theorem Memory.run_storeChunks (sink : MemorySink) (chunks : List Bytes) (m : Memory) :
    (RecordStore.storeChunks (m := StateM Memory) sink chunks).run.run m =
      (change fun m => m.commit (chunks.foldl MemorySink.write sink)).run.run m := by
  induction chunks generalizing sink with
  | nil => rfl
  | cons chunk chunks ih => exact ih (sink.write chunk)

namespace Database

variable {σ : Type} {answer : σ → Sql.Statement → Reply × σ} {before db : σ} {t : RecordType}
  {id : Int} {name : String}

/-- A sink that is opened leads to the column that it was opened for, and is empty. -/
theorem openSink_eq_ok {writer : ContentWriter}
    (h : (openSink t id name).run.run answer before = (.ok writer, db)) :
    writer = { type := t, column := name, id } := by
  obtain ⟨_, _, -, h⟩ := Session.run_bind_eq_ok h
  obtain ⟨_, _, -, h⟩ := Session.run_bind_eq_ok h
  obtain ⟨row, _, -, h⟩ := Session.run_bind_eq_ok h
  cases row with
  | none => cases h
  | some _ =>
    obtain ⟨_, _, -, h⟩ := Session.run_bind_eq_ok h
    cases h
    rfl

/-- **Content that is written to a database is the content that is stored in memory.** A sink of
each of the two stores was opened for the same attribute, and the same chunks are written, of
whatever lengths. If the database carries out all statements, the rows that are staged are numbered
from zero on, none of them is empty, and what they are put together to is the content, all chunks
one behind the other. The commit gives its length. If the record is still there, the commit in
memory gives the same length and puts the same content in place. -/
theorem staged_as_in_memory {d : Schema.Document} {r : Registry}
    (hd : Registry.ofDocument d = .ok r) (ht : t ∈ r.types) {writer : RecordStore.Sink Session}
    (hwriter : (RecordStore.openSink (m := Session) t id name).run.run answer before =
      (.ok writer, db))
    {m₀ : Memory} {sink : RecordStore.Sink (StateM Memory)}
    (hsink : (RecordStore.openSink (m := StateM Memory) t id name).run.run m₀ = (.ok sink, m₀))
    (chunks : List Bytes)
    (hsucceeds : Session.Succeeds answer (RecordStore.storeChunks writer chunks).run db) :
    ∃ rows : List (Nat × Bytes),
      rows.map Prod.fst = List.range rows.length ∧ (∀ row ∈ rows, row.2 ≠ []) ∧
      Sql.Reading.assembled rows = chunks.flatten ∧
      (∃ appends assembly,
        ((RecordStore.storeChunks writer chunks).run.exchanged answer db).map Prod.fst =
            appends ++ [assembly, Sql.commit] ∧
          List.Forall₂ Sql.Reading.Appends appends rows ∧
          Sql.Reading.Assembles assembly t name id) ∧
      (∃ after, (RecordStore.storeChunks writer chunks).run.run answer db =
        (.ok chunks.flatten.length, after)) ∧
      ∀ calls : List Memory.Call, (∀ c ∈ calls, c.UsesTypesOf r) →
        ((Memory.run calls).memory.row? t id).isSome →
          ∃ m', (RecordStore.storeChunks sink chunks).run.run (Memory.run calls).memory =
              (.ok chunks.flatten.length, m') ∧
            m'.content t id name = .ok (some chunks.flatten) := by
  obtain rfl := openSink_eq_ok hwriter
  obtain ⟨hsent, after, hrun⟩ := ContentWriter.exchanged_storeChunks _ chunks hsucceeds
  rw [Nat.zero_add] at hrun
  refine ⟨ContentWriter.staged 0 chunks, ?_, fun _ => ContentWriter.ne_nil_of_mem_staged,
    ContentWriter.assembled_staged 0 chunks,
    ⟨_, _, hsent, ?_, Sql.Reading.assembles_assemble t name id⟩, ⟨after, hrun⟩, ?_⟩
  · rw [ContentWriter.map_fst_staged, List.range_eq_range']
  · rw [List.forall₂_map_left_iff]
    exact List.forall₂_same.mpr fun row _ => Sql.Reading.appends_stageChunk row.1 row.2
  · intro calls hcalls hrow
    have hr := Registry.resolved_of_ofDocument hd
    have hm := (Memory.invariant_run hr hcalls).memory
    have hopened : m₀.openSink t id name = .ok sink := congrArg Prod.fst hsink
    obtain ⟨hentity, rfl, hindex, hempty⟩ := Memory.openSink_eq_ok hopened
    obtain ⟨row, hrow⟩ := Option.isSome_iff_exists.mp hrow
    have htable := hm.table hr ht
    have hconsistent := (htable.rows _ row (htable.row?_eq_some_iff.mp hrow)).2.2
    -- the sink with all chunks leads to where it led before
    have hsink := MemorySink.foldl_write chunks sink
    have hstaged : (chunks.foldl MemorySink.write sink).staged = chunks.flatten := by
      rw [MemorySink.staged] at hempty
      rw [hsink, MemorySink.staged, List.reverse_append, List.reverse_reverse, List.flatten_append,
        hempty, List.nil_append]
    rw [hsink] at hstaged
    obtain ⟨m', hcommit⟩ := Memory.exists_commit (s := { sink with
      chunks := chunks.reverse ++ sink.chunks }) hentity hrow
    have hcontent := Memory.content_commit_self hcommit hentity hrow hconsistent hindex
    rw [hstaged] at hcommit hcontent
    refine ⟨m', ?_, hcontent⟩
    rw [Memory.run_storeChunks, hsink]
    exact Memory.run_change_of_ok hcommit

/-! ### A picture -/

open Memory (photo album)

/-- A database that carries out all statements and has a row with any identity, which keeps in mind
what it was sent. -/
def carryingOut (sent : List Sql.Statement) (s : Sql.Statement) : Reply × List Sql.Statement :=
  let reply :=
    if s.pieces.head? = some (.fixed "SELECT 1 FROM ") then .rows [[.integer 1]]
    else .affected s.arguments.length
  (reply, sent ++ [s])

theorem count_carryingOut (sent : List Sql.Statement) (s : Sql.Statement) :
    ∃ n, (carryingOut sent s).1.count = .ok n := by
  unfold carryingOut
  dsimp only
  split
  · exact ⟨1, rfl⟩
  · exact ⟨s.arguments.length, rfl⟩

/-- Of four chunks, two of them empty, two rows are staged. Without any chunk, there is content
without any bytes. -/
theorem staged_as_in_memory_photo :
    let m := (Memory.run photo.calls).memory
    let writer : ContentWriter := { type := photo, column := "Picture", id := 2 }
    let sink : MemorySink := { entity := "Photo", id := 2, index := 1 }
    ∃ db, (RecordStore.openSink (m := Session) photo 2 "Picture").run.run carryingOut [] =
        (.ok writer, db) ∧
      (RecordStore.openSink (m := StateM Memory) photo 2 "Picture").run.run m = (.ok sink, m) ∧
      (∃ rows after m', rows.map Prod.fst = List.range rows.length ∧
        Sql.Reading.assembled rows = [1, 2, 3] ∧
        (RecordStore.storeChunks (m := Session) writer [[], [1, 2], [], [3]]).run.run
          carryingOut db = (.ok 3, after) ∧
        (RecordStore.storeChunks (m := StateM Memory) sink [[], [1, 2], [], [3]]).run.run m =
          (.ok 3, m') ∧
        m'.content photo 2 "Picture" = .ok (some [1, 2, 3])) ∧
      ∃ rows after m', Sql.Reading.assembled rows = [] ∧
        (RecordStore.storeChunks (m := Session) writer []).run.run carryingOut db = (.ok 0, after) ∧
        (RecordStore.storeChunks (m := StateM Memory) sink []).run.run m = (.ok 0, m') ∧
        m'.content photo 2 "Picture" = .ok (some []) := by
  intro m writer sink
  have halbum : Registry.ofDocument album = .ok ⟨[photo]⟩ := rfl
  have hcalls : ∀ c ∈ photo.calls, c.UsesTypesOf ⟨[photo]⟩ := by
    simp [photo.calls, Memory.Call.UsesTypesOf, photo.claimed]
  obtain ⟨db, hwriter⟩ : ∃ db, (RecordStore.openSink (m := Session) photo 2 "Picture").run.run
      carryingOut [] = (.ok writer, db) := ⟨_, rfl⟩
  have hsink : (RecordStore.openSink (m := StateM Memory) photo 2 "Picture").run.run m =
      (.ok sink, m) := rfl
  refine ⟨db, hwriter, hsink, ?_, ?_⟩
  · obtain ⟨rows, hnumbers, -, hrows, -, ⟨after, hrun⟩, hmemory⟩ :=
      staged_as_in_memory halbum (List.mem_singleton_self _) hwriter hsink
        [[], [1, 2], [], [3]] (Session.succeeds_of_answer count_carryingOut _ _)
    obtain ⟨m', hcommit, hcontent⟩ := hmemory photo.calls hcalls rfl
    exact ⟨rows, after, m', hnumbers, hrows, hrun, hcommit, hcontent⟩
  · obtain ⟨rows, -, -, hrows, -, ⟨after, hrun⟩, hmemory⟩ :=
      staged_as_in_memory halbum (List.mem_singleton_self _) hwriter hsink
        [] (Session.succeeds_of_answer count_carryingOut _ _)
    obtain ⟨m', hcommit, hcontent⟩ := hmemory photo.calls hcalls rfl
    exact ⟨rows, after, m', hrows, hrun, hcommit, hcontent⟩

end Database

end RecordService
