import Mathlib.Algebra.BigOperators.Group.List.Basic
import Mathlib.Data.List.TakeDrop
import RecordService.Database.Store
import RecordService.Proofs.Feed
import RecordService.Proofs.Store.Transfer

/-!
# Content that is read from a database

The bytes of some content are counted three times when they are read from a database: from one in the
statements, which ask for at most 64 KiB, from the front of the buffer that was received, and by the
sizes of the reads. A reader stands at one place of the content all the same. What is in its buffer
and what it has not asked for are the rest of the content (`RecordService.ContentReader.Gives`), and
a read takes the front of it. So reads give the content and nothing else, and a copy cannot tell the
reader from the source of a store in memory (`RecordService.Database.source_gives_content`).

* `RecordService.Database.Serves`: a database that keeps some content.
* `RecordService.Bytes.ReadAs`: what reads of given sizes may give.
* `RecordService.RecordStore.copyWithin`: copies from any source.
* `RecordService.ContentReader.Gives.run_read`: one read.
-/

namespace RecordService

/-! ### Sessions -/

namespace Session

variable {α β σ : Type} {answer : σ → Sql.Statement → Reply × σ} {db db' : σ}

theorem run_bind (s : Session α) (f : α → Session β) (db : σ) :
    (s >>= f).run answer db = (f (s.run answer db).1).run answer (s.run answer db).2 := by
  induction s generalizing db with
  | done a => rfl
  | send st next ih => exact ih (answer db st).1 (answer db st).2

theorem run_bind_of_ok {x : ExceptT StorageError Session α} {a : α}
    (h : x.run.run answer db = (.ok a, db')) (f : α → ExceptT StorageError Session β) :
    (x >>= f).run.run answer db = (f a).run.run answer db' := by
  have hx : (x >>= f).run.run answer db =
      (ExceptT.bindCont f (x.run.run answer db).1).run answer (x.run.run answer db).2 :=
    run_bind x.run (ExceptT.bindCont f) db
  rw [h] at hx
  exact hx

/-- A query succeeds if its reply can be read. -/
theorem run_query_of_ok {s : Sql.Statement} {read : Reply → Except DatabaseError α} {a : α}
    (h : read (answer db s).1 = .ok a) :
    (query s read).run.run answer db = (.ok a, (answer db s).2) := by
  have hrun : (query s read).run.run answer db =
      ((read (answer db s).1).mapError StorageError.database, (answer db s).2) := rfl
  rw [hrun, h]
  rfl

end Session

/-! ### Reads of some content -/

/-- What reads of at most these sizes may give of some content: in order, without gaps, and at the
end of the content nothing any more. -/
structure Bytes.ReadAs (content : Bytes) (sizes : List Nat) (pieces : List Bytes) : Prop where
  length_le : List.Forall₂ (fun (piece : Bytes) n => piece.length ≤ n) pieces sizes
  flatten : pieces.flatten <+: content
  /-- A read gives nothing exactly if the reads before it gave everything. -/
  eq_nil_iff : ∀ (k : Nat) (piece : Bytes), pieces[k]? = some piece →
    (piece = [] ↔ (pieces.take k).flatten = content)
  /-- As many reads as there are bytes are enough. -/
  complete : content.length ≤ sizes.length → pieces.flatten = content

/-- Reads may give less than they have room for, as long as they give something. -/
theorem Bytes.readAs_splitLengths {content : Bytes} {sizes taken : List Nat}
    (h : List.Forall₂ (fun n size => 0 < n ∧ n ≤ size) taken sizes) :
    content.ReadAs sizes (taken.splitLengths content) := by
  have hpos : ∀ n ∈ taken, 0 < n := by
    intro n hn
    obtain ⟨i, hi, rfl⟩ := List.mem_iff_getElem.mp hn
    exact ((List.forall₂_iff_get.mp h).2 i hi (h.length_eq ▸ hi)).1
  refine ⟨?_, ?_, fun k piece hpiece => ?_, fun hlength => ?_⟩
  · rw [List.forall₂_iff_get]
    refine ⟨(List.length_splitLengths _ _).trans h.length_eq, fun i hi hi' => ?_⟩
    have htaken := (List.forall₂_iff_get.mp h).2 i (h.length_eq ▸ hi') hi'
    exact (List.length_splitLengths_getElem_le _ _).trans htaken.2
  · rw [Bytes.flatten_splitLengths_eq_take]
    exact List.take_prefix _ _
  · rw [Bytes.eq_nil_of_splitLengths hpos hpiece, List.take_splitLength,
      Bytes.flatten_splitLengths_eq_take, List.take_eq_self_iff]
  · refine List.flatten_splitLengths _ _ (hlength.trans ?_)
    rw [← h.length_eq]
    exact List.length_le_sum_of_one_le _ hpos

/-! ### Copies from a source -/

namespace RecordStore

/-- Passes a source on to a sink, one buffer at a time, and counts the bytes from `total` on. There
is no result if `reads` reads are not enough. -/
def copyWithin {m : Type → Type} [Monad m] {ρ σ ε : Type}
    (next : ρ → Except StorageError Bytes × ρ) (failed : StorageError → ε)
    (write : σ → Bytes → ExceptT ε m σ) (reads : Nat) (sink : σ) (total : Nat) (source : ρ) :
    ExceptT ε m (Option (σ × Nat)) :=
  match reads with
  | 0 => return none
  | reads + 1 =>
    match next source with
    | (.error e, _) => throw (failed e)
    | (.ok [], _) => return some (sink, total)
    | (.ok (b :: bs), source) => do
      let sink ← write sink (b :: bs)
      copyWithin next failed write reads sink (total + (b :: bs).length) source

/-- One read of a buffer, from a source of a store whose actions `run` on states. -/
def readBuffer {n : Type → Type} [RecordStore n] {τ : Type}
    (run : {α : Type} → n α → τ → α × τ) (source : Source n × τ) :
    Except StorageError Bytes × (Source n × τ) :=
  let ((result, rest), state) := run (read source.1 Feed.chunkSize) source.2
  (result, rest, state)

section

variable {m : Type → Type} [Monad m] {ρ ρ' σ ε : Type}
variable {next : ρ → Except StorageError Bytes × ρ} {next' : ρ' → Except StorageError Bytes × ρ'}
variable (failed : StorageError → ε) (write : σ → Bytes → ExceptT ε m σ)

/-- **Sources that give the same are copied in the same way**, read by read. -/
theorem copyWithin_congr {R : ρ → ρ' → Prop}
    (hnext : ∀ s s', R s s' → ∃ result rest rest', next s = (result, rest) ∧
      next' s' = (result, rest') ∧ R rest rest')
    (reads : Nat) (sink : σ) (total : Nat) {s : ρ} {s' : ρ'} (h : R s s') :
    copyWithin next failed write reads sink total s =
      copyWithin next' failed write reads sink total s' := by
  induction reads generalizing sink total s s' with
  | zero => rfl
  | succ reads ih =>
    obtain ⟨result, rest, rest', hs, hs', hrest⟩ := hnext s s' h
    rw [copyWithin, copyWithin, hs, hs']
    match result with
    | .error e => rfl
    | .ok [] => rfl
    | .ok (b :: bs) => exact bind_congr fun sink => ih sink _ hrest

/-- A copy from a source that has all the content ready is the copy of the feed that delivers it. -/
theorem copyWithin_eq_copyFrom [LawfulMonad m] {R : ρ → Bytes → Prop}
    (hnext : ∀ s content, R s content → ∃ rest,
      next s = (.ok (content.take Feed.chunkSize), rest) ∧ R rest (content.drop Feed.chunkSize))
    (broken : String → ε) (reads : Nat) (sink : σ) (total : Nat) {s : ρ} {content : Bytes}
    (h : R s content) (hreads : content.length ≤ Feed.chunkSize * reads) :
    copyWithin next failed write (reads + 1) sink total s =
      some <$> Feed.copyFrom broken write sink total [.bytes content] := by
  induction reads generalizing sink total s content with
  | zero =>
    obtain rfl : content = [] := List.eq_nil_of_length_eq_zero (Nat.le_zero.mp hreads)
    obtain ⟨rest, hs, -⟩ := hnext s [] h
    rw [copyWithin, hs, Feed.copyFrom_empty, Feed.copyFrom_nil, map_pure]
    rfl
  | succ reads ih =>
    obtain ⟨rest, hs, hrest⟩ := hnext s content h
    rw [copyWithin, hs]
    match content with
    | [] =>
      rw [Feed.copyFrom_empty, Feed.copyFrom_nil, map_pure]
      rfl
    | b :: bs =>
      have hlength : ((b :: bs).drop Feed.chunkSize).length ≤ Feed.chunkSize * reads := by
        rw [List.length_drop]
        rw [Nat.mul_succ] at hreads
        omega
      rw [Feed.copyFrom_bytes _ _ _ _ (List.cons_ne_nil b bs), map_bind]
      exact bind_congr fun sink => ih sink _ hrest hlength

end

end RecordStore

/-! ### Readers -/

namespace Database

/-- A database that keeps `content` in a column of the row with an identity. A transaction that is
started in the state `db` leads to the states `inside`, and there the database knows the length of
the content, and the bytes in any part of it that four bytes are enough to ask for. -/
structure Serves {σ : Type} (answer : σ → Sql.Statement → Reply × σ) (db : σ) (inside : σ → Prop)
    (t : RecordType) (id : Int) (column : String) (content : Bytes) : Prop where
  start : ∃ n, (answer db Sql.start).1.count = .ok n
  repeatableRead : ∃ n, (answer (answer db Sql.start).2 Sql.repeatableRead).1.count = .ok n
  started : inside (answer (answer db Sql.start).2 Sql.repeatableRead).2
  length : ∀ db, inside db →
    (answer db (Sql.contentLength t column id)).1 = .rows [[.integer content.length]] ∧
      inside (answer db (Sql.contentLength t column id)).2
  chunk : ∀ db, inside db → ∀ offset length, 0 < offset → offset < 2 ^ 31 → length < 2 ^ 31 →
    (answer db (Sql.contentChunk t column offset length id)).1 =
        .rows [[.bytes ((content.drop (offset - 1)).take length)]] ∧
      inside (answer db (Sql.contentChunk t column offset length id)).2

end Database

namespace ContentReader

/-- Whether a reader reads some content and still has to give `rest` of it: what it has received, but
not handed out, and what it has not asked for. -/
structure Gives (t : RecordType) (id : Int) (column : String) (content : Bytes) (r : ContentReader)
    (rest : Bytes) : Prop where
  type : r.type = t
  id : r.id = id
  column : r.column = column
  length : r.length = content.length
  offset_le : r.offset ≤ r.length
  rest : r.buffer ++ content.drop r.offset = rest

/-- Whether the buffer can be handed out in whole chunks of a copy, the last one of the content
apart. -/
def Aligned (r : ContentReader) : Prop := r.offset = r.length ∨ Feed.chunkSize ∣ r.buffer.length

section

variable {σ : Type} {answer : σ → Sql.Statement → Reply × σ} {db : σ} {inside : σ → Prop}
variable {t : RecordType} {id : Int} {column : String} {content rest : Bytes} {r : ContentReader}

/-- **Opening** gives a reader that has the whole content to give. -/
theorem run_openSource (hserves : Database.Serves answer db inside t id column content)
    (hblob : (t.blobIndex? column).isSome) :
    ∃ (r : ContentReader) (db' : σ),
      (RecordStore.openSource (m := Session) t id column).run.run answer db = (.ok (some r), db') ∧
        inside db' ∧ r.Gives t id column content content ∧ r.Aligned := by
  obtain ⟨n, hstart⟩ := hserves.start
  obtain ⟨k, hrepeatable⟩ := hserves.repeatableRead
  obtain ⟨hreply, hinside⟩ := hserves.length _ hserves.started
  have hrequire : Database.requireBlob t column = pure () := if_pos hblob
  refine ⟨{ type := t, column, id, length := content.length }, _, ?_, hinside, ?_, ?_⟩
  · change (Database.openSource t id column).run.run answer db = _
    rw [Database.openSource, hrequire]
    refine (Session.run_bind_of_ok (a := ()) rfl _).trans ?_
    refine (Session.run_bind_of_ok (Session.run_query_of_ok hstart) _).trans ?_
    refine (Session.run_bind_of_ok (Session.run_query_of_ok hrepeatable) _).trans ?_
    exact Session.run_bind_of_ok (a := some (some (content.length : Int)))
      (Session.run_query_of_ok (by rw [hreply]; rfl)) _
  · exact ⟨rfl, rfl, rfl, rfl, Nat.zero_le _, rfl⟩
  · exact .inr (Nat.dvd_zero _)

/-- **What is received comes behind what was received before**, and it is something. So the requests
go through the content without gaps. -/
theorem Gives.receive (h : r.Gives t id column content rest) (hoffset : r.offset < r.length) :
    let chunk := (content.drop r.offset).take r.want
    chunk ≠ [] ∧ (r.receive chunk).Gives t id column content (content.drop r.offset) ∧
      (r.receive chunk).Aligned := by
  intro chunk
  have hlength := h.length
  have hchunk : chunk.length = r.want := by
    simp only [chunk, List.length_take, List.length_drop, want]
    omega
  have hwant : 0 < r.want := by
    simp only [want, maxChunk]
    omega
  have hne : chunk ≠ [] := by
    rw [← List.length_pos_iff, hchunk]
    exact hwant
  have hreceive : r.receive chunk = { r with offset := r.offset + r.want, buffer := chunk } := by
    simp [ContentReader.receive, hne, hchunk]
  rw [hreceive]
  refine ⟨hne, ⟨h.type, h.id, h.column, hlength, ?_, ?_⟩, ?_⟩
  · simp only [want]
    omega
  · rw [← List.drop_drop, List.take_append_drop]
  · -- a chunk that does not end the content has the full size
    simp only [Aligned, hchunk, want, maxChunk, Feed.chunkSize]
    omega

/-- What is handed out is the front of what is still to be given, if the buffer holds that much of it
or all of it. -/
theorem Gives.handOut (h : r.Gives t id column content rest) {n : Nat}
    (hn : n ≤ r.buffer.length ∨ content.drop r.offset = []) :
    ∃ r' : ContentReader, r.handOut n = (.ok (rest.take n), r') ∧
      r'.Gives t id column content (rest.drop n) ∧ r'.buffer = r.buffer.drop n ∧
      r'.offset = r.offset ∧ r'.length = r.length := by
  have hfront : r.buffer.take n = rest.take n ∧
      r.buffer.drop n ++ content.drop r.offset = rest.drop n := by
    rw [← h.rest]
    rcases hn with hn | hn
    · exact ⟨(List.take_append_of_le_length hn).symm, (List.drop_append_of_le_length hn).symm⟩
    · rw [hn, List.append_nil, List.append_nil]
      exact ⟨rfl, rfl⟩
  refine ⟨{ r with buffer := r.buffer.drop n }, by rw [ContentReader.handOut, hfront.1], ?_, rfl, rfl,
    rfl⟩
  exact ⟨h.type, h.id, h.column, h.length, h.offset_le, hfront.2⟩

/-- More room than the buffer needs makes no difference, so a read may offer any room. -/
theorem handOut_min (r : ContentReader) (room : Nat) :
    r.handOut room = r.handOut (min room r.buffer.length) := by
  rw [ContentReader.handOut, ContentReader.handOut, ← List.take_eq_take_min,
    ← List.drop_eq_drop_min]

variable {start : σ} (hserves : Database.Serves answer start inside t id column content)
variable (hlength : content.length < 2 ^ 31)

include hserves hlength

/-- The database answers a reader with the bytes behind those that it has received. -/
theorem Gives.answer_request (h : r.Gives t id column content rest) (hdb : inside db)
    (hoffset : r.offset < r.length) :
    chunkOf (answer db r.request).1 = .ok ((content.drop r.offset).take r.want) ∧
      inside (answer db r.request).2 := by
  have hcontent := h.length
  have hrequest : r.request = Sql.contentChunk t column (r.offset + 1) r.want id := by
    rw [request, h.type, h.column, h.id]
  have hwant : r.want < 2 ^ 31 := by
    simp only [want, maxChunk]
    omega
  obtain ⟨hreply, hinside⟩ := hserves.chunk db hdb _ _ (Nat.succ_pos r.offset) (by omega) hwant
  rw [hrequest, hreply]
  exact ⟨rfl, hinside⟩

/-- **A read hands out a part of the buffer**, which is filled before if need be, so that it is only
empty at the end of the content. -/
theorem Gives.run_read (hdb : inside db) (h : r.Gives t id column content rest) (room : Nat) :
    ∃ (filled : ContentReader) (db' : σ),
      (r.read room).run answer db = (filled.handOut room, db') ∧ inside db' ∧
        filled.Gives t id column content rest ∧ (filled.buffer = [] → rest = []) ∧
        (r.Aligned → filled.Aligned) := by
  have hcontent := h.length
  by_cases hask : r.buffer.isEmpty ∧ r.offset < r.length
  · obtain ⟨hne, hgives, haligned⟩ := h.receive hask.2
    obtain ⟨hreply, hinside⟩ := h.answer_request hserves hlength hdb hask.2
    obtain rfl : content.drop r.offset = rest := by
      rw [← h.rest, List.isEmpty_iff.mp hask.1, List.nil_append]
    refine ⟨_, _, ?_, hinside, hgives, fun hempty => absurd hempty hne, fun _ => haligned⟩
    rw [ContentReader.read, if_pos hask, Session.run, hreply]
    rfl
  · refine ⟨r, db, by rw [ContentReader.read, if_neg hask, Session.run], hdb, h, ?_,
      fun haligned => haligned⟩
    intro hempty
    have hend : r.offset = content.length := by
      have hoffset := h.offset_le
      have hnot : ¬r.offset < r.length := fun hlt => hask ⟨List.isEmpty_iff.mpr hempty, hlt⟩
      omega
    rw [← h.rest, hempty, hend, List.drop_length, List.nil_append]

/-- **All the rest at once**, with as many requests as it takes. -/
theorem Gives.run_drain (hdb : inside db) (h : r.Gives t id column content rest) :
    ∃ db', r.drain.run answer db = (.ok rest, db') := by
  -- by the bytes that the reader has not asked for
  induction hn : r.length - r.offset using Nat.strong_induction_on generalizing r db rest with
  | _ n ih =>
    rw [drain]
    split
    · next hoffset =>
      obtain ⟨-, hgives, -⟩ := h.receive hoffset
      obtain ⟨hreply, hinside⟩ := h.answer_request hserves hlength hdb hoffset
      obtain ⟨db', hdrain⟩ := ih _ (hn ▸ r.remaining_receive _ hoffset) hinside hgives rfl
      refine ⟨db', ?_⟩
      rw [Session.run, hreply]
      rw [Session.run_bind, hdrain, ← h.rest]
      rfl
    · next hoffset =>
      have hend : content.drop r.offset = [] := by
        have hcontent := h.length
        exact List.drop_eq_nil_of_le (by omega)
      refine ⟨db, ?_⟩
      rw [Session.run, ← h.rest, hend, List.append_nil]

/-- **One read** gives the front of what is still to be given: something if there is anything, and not
more than there is room for. -/
theorem Gives.run_read_of_pos (hdb : inside db) (h : r.Gives t id column content rest) {room : Nat}
    (hroom : 0 < room) :
    ∃ (n : Nat) (r' : ContentReader) (db' : σ), (0 < n ∧ n ≤ room) ∧
      (r.read room).run answer db = ((.ok (rest.take n), r'), db') ∧ inside db' ∧
        r'.Gives t id column content (rest.drop n) := by
  obtain ⟨filled, db', hrun, hinside, hgives, hend, -⟩ := h.run_read hserves hlength hdb room
  rw [hrun]
  by_cases hempty : filled.buffer = []
  · obtain rfl := hend hempty
    have hnone : content.drop filled.offset = [] := (List.append_eq_nil_iff.mp hgives.rest).2
    obtain ⟨r', hout, hrest, -⟩ := hgives.handOut (n := room) (.inr hnone)
    exact ⟨room, r', db', ⟨hroom, Nat.le_refl _⟩, by rw [hout], hinside, hrest⟩
  · obtain ⟨r', hout, hrest, -⟩ := hgives.handOut (.inl (Nat.min_le_right room _))
    have hpos := List.length_pos_iff.mpr hempty
    exact ⟨_, r', db', ⟨lt_min hroom hpos, Nat.min_le_left _ _⟩, by rw [handOut_min, hout], hinside,
      hrest⟩

/-- **One read of a copy** gives as much as its buffer takes, as long as there is so much. -/
theorem Gives.run_read_chunk (hdb : inside db) (h : r.Gives t id column content rest)
    (haligned : r.Aligned) :
    ∃ (r' : ContentReader) (db' : σ),
      (r.read Feed.chunkSize).run answer db = ((.ok (rest.take Feed.chunkSize), r'), db') ∧
        inside db' ∧ r'.Gives t id column content (rest.drop Feed.chunkSize) ∧ r'.Aligned := by
  obtain ⟨filled, db', hrun, hinside, hgives, hend, halign⟩ :=
    h.run_read hserves hlength hdb Feed.chunkSize
  have hroom : Feed.chunkSize ≤ filled.buffer.length ∨ content.drop filled.offset = [] := by
    rcases halign haligned with hoffset | hdvd
    · refine .inr (List.drop_eq_nil_of_le ?_)
      rw [hoffset, hgives.length]
    · rcases Nat.eq_zero_or_pos filled.buffer.length with hzero | hpos
      · have hrest := hgives.rest
        rw [hend (List.eq_nil_of_length_eq_zero hzero)] at hrest
        exact .inr (List.append_eq_nil_iff.mp hrest).2
      · exact .inl (Nat.le_of_dvd hpos hdvd)
  obtain ⟨r', hout, hrest, hbuffer, hoffset, hlength'⟩ := hgives.handOut hroom
  refine ⟨r', db', by rw [hrun, hout], hinside, hrest, ?_⟩
  rw [Aligned, hbuffer, hoffset, hlength', List.length_drop]
  exact (halign haligned).imp_right fun hdvd => Nat.dvd_sub hdvd (Nat.dvd_refl _)

/-- **Reads one after the other** take piece after piece from the front of what is still to be
given. -/
theorem Gives.run_readPieces (hdb : inside db) (h : r.Gives t id column content rest)
    {sizes : List Nat} (hsizes : ∀ n ∈ sizes, 0 < n) :
    ∃ (taken : List Nat) (r' : ContentReader) (db' : σ),
      List.Forall₂ (fun n size => 0 < n ∧ n ≤ size) taken sizes ∧
        (RecordStore.readPieces (m := Session) r sizes).run answer db =
          ((.ok (taken.splitLengths rest), r'), db') := by
  induction sizes generalizing r db rest with
  | nil => exact ⟨[], r, db, .nil, rfl⟩
  | cons size sizes ih =>
    obtain ⟨hsize, hsizes⟩ := List.forall_mem_cons.mp hsizes
    obtain ⟨n, r₁, db₁, hn, hread, hdb₁, hgives⟩ := h.run_read_of_pos hserves hlength hdb hsize
    obtain ⟨taken, r₂, db₂, htaken, hmore⟩ := ih hdb₁ hgives hsizes
    refine ⟨n :: taken, r₂, db₂, .cons hn htaken, ?_⟩
    have hread : (RecordStore.read (m := Session) r size).run answer db =
        ((.ok (rest.take n), r₁), db₁) := hread
    rw [RecordStore.readPieces, Session.run_bind, hread]
    dsimp only
    rw [Session.run_bind, hmore, List.splitLengths_cons]
    rfl

end

end ContentReader

/-! ### Copies from the stores -/

open RecordStore (copyWithin)

/-- A read of a copy from a source in a database. -/
def Database.nextChunk {σ : Type} (answer : σ → Sql.Statement → Reply × σ)
    (source : RecordStore.Source Session × σ) :
    Except StorageError Bytes × (RecordStore.Source Session × σ) :=
  RecordStore.readBuffer (fun action => action.run answer) source

/-- A read of a copy from a source in memory. -/
def Memory.nextChunk (source : RecordStore.Source (StateM Memory) × Memory) :
    Except StorageError Bytes × (RecordStore.Source (StateM Memory) × Memory) :=
  RecordStore.readBuffer (fun action => action.run) source

/-- A copy from a source in memory is the copy of a feed that has the content ready. -/
theorem Memory.copyWithin_eq_copy {m : Type → Type} [Monad m] [LawfulMonad m] {σ ε : Type}
    (failed : StorageError → ε) (broken : String → ε) (write : σ → Bytes → ExceptT ε m σ)
    {reads : Nat} (sink : σ) (content : Bytes) (state : Memory)
    (hreads : content.length ≤ Feed.chunkSize * reads) :
    copyWithin Memory.nextChunk failed write (reads + 1) sink 0 (content, state) =
      some <$> Feed.copy broken write sink [.bytes content] := by
  refine RecordStore.copyWithin_eq_copyFrom (R := fun source rest => source.1 = rest) failed write
    ?_ broken reads sink 0 rfl hreads
  rintro ⟨source, state⟩ rest rfl
  exact ⟨_, rfl, rfl⟩

/-- Whether a source in a database and one in memory stand at one place of the same content. -/
structure Database.Together {σ : Type} (inside : σ → Prop) (t : RecordType) (id : Int)
    (column : String) (content : Bytes) (source : ContentReader × σ) (kept : Bytes × Memory) :
    Prop where
  inside : inside source.2
  gives : source.1.Gives t id column content kept.1
  aligned : source.1.Aligned

/-- **The two sources go on together**: a read of a copy takes the same from both. So a copy cannot
tell a database from memory. -/
theorem Database.Together.next {σ : Type} {answer : σ → Sql.Statement → Reply × σ} {db : σ}
    {inside : σ → Prop} {t : RecordType} {id : Int} {column : String} {content : Bytes}
    (hserves : Serves answer db inside t id column content) (hlength : content.length < 2 ^ 31)
    {source : ContentReader × σ} {kept : Bytes × Memory}
    (h : Together inside t id column content source kept) :
    ∃ result rest rest', nextChunk answer source = (result, rest) ∧
      Memory.nextChunk kept = (result, rest') ∧ Together inside t id column content rest rest' := by
  obtain ⟨r', db', hread, hinside, hgives, haligned⟩ :=
    h.gives.run_read_chunk hserves hlength h.inside h.aligned
  have hnext : nextChunk answer source = (.ok (kept.1.take Feed.chunkSize), r', db') :=
    congrArg (fun result => (result.1.1, result.1.2, result.2)) hread
  exact ⟨_, _, _, hnext, rfl, hinside, hgives, haligned⟩

/-- **Content that is read from a database is the content that is stored.** A source in a database
that keeps some content can be opened. Whatever the sizes of the reads, they give this content from
its front, nothing only at its end, and so all of it at last; and so does reading it at once. No copy
can tell the source from one in memory that was opened on the same content: with any number of reads
both do the same to any sink, and with enough of them this is the copy of the content. -/
theorem Database.source_gives_content {σ : Type} {answer : σ → Sql.Statement → Reply × σ} {db : σ}
    {inside : σ → Prop} {t : RecordType} {id : Int} {column : String} {content : Bytes}
    (hserves : Serves answer db inside t id column content) (hblob : (t.blobIndex? column).isSome)
    (hlength : content.length < 2 ^ 31) :
    ∃ (source : RecordStore.Source Session) (opened : σ),
      (RecordStore.openSource (m := Session) t id column).run.run answer db =
          (.ok (some source), opened) ∧
        (∀ sizes : List Nat, (∀ n ∈ sizes, 0 < n) → ∃ pieces rest after,
          (RecordStore.readPieces (m := Session) source sizes).run answer opened =
              ((.ok pieces, rest), after) ∧
            content.ReadAs sizes pieces) ∧
        (∃ after, (RecordStore.drain (m := Session) source).run.run answer opened =
          (.ok content, after)) ∧
        ∀ m : Memory, m.content t id column = .ok (some content) →
          ∃ kept : RecordStore.Source (StateM Memory),
            (RecordStore.openSource (m := StateM Memory) t id column).run.run m =
                (.ok (some kept), m) ∧
              ∀ {n : Type → Type} [Monad n] [LawfulMonad n] {τ ε : Type}
                (failed : StorageError → ε) (broken : String → ε)
                (write : τ → Bytes → ExceptT ε n τ) (reads : Nat) (sink : τ),
                copyWithin (nextChunk answer) failed write reads sink 0 (source, opened) =
                    copyWithin Memory.nextChunk failed write reads sink 0 (kept, m) ∧
                  (content.length ≤ Feed.chunkSize * reads →
                    copyWithin (nextChunk answer) failed write (reads + 1) sink 0 (source, opened) =
                      some <$> Feed.copy broken write sink [.bytes content]) := by
  obtain ⟨source, opened, hopen, hinside, hgives, haligned⟩ :=
    ContentReader.run_openSource hserves hblob
  refine ⟨source, opened, hopen, fun sizes hsizes => ?_, hgives.run_drain hserves hlength hinside,
    fun m hm => ⟨content, ?_, ?_⟩⟩
  · obtain ⟨taken, rest, after, htaken, hread⟩ :=
      hgives.run_readPieces hserves hlength hinside hsizes
    exact ⟨_, rest, after, hread, Bytes.readAs_splitLengths htaken⟩
  · exact congrArg (fun result => (result, m)) hm
  · intro n _ _ τ ε failed broken write reads sink
    have htogether : Together inside t id column content (source, opened) (content, m) :=
      ⟨hinside, hgives, haligned⟩
    have hcopy (reads : Nat) :
        copyWithin (nextChunk answer) failed write reads sink 0 (source, opened) =
          copyWithin Memory.nextChunk failed write reads sink 0 (content, m) :=
      RecordStore.copyWithin_congr failed write (fun _ _ => Together.next hserves hlength) reads sink
        0 htogether
    refine ⟨hcopy reads, fun hreads => ?_⟩
    rw [hcopy, Memory.copyWithin_eq_copy failed broken write sink content m hreads]

/-! ### A picture -/

open Memory (photo)

/-- A database that keeps the picture of the first photo, and nothing else. -/
def Database.keeping (picture : Bytes) (_ : Unit) (s : Sql.Statement) : Reply × Unit :=
  let reply :=
    match s.arguments with
    | [] => .affected 0
    | [.value (.integer offset), .value (.integer length), _] =>
      if s = Sql.contentChunk photo "Picture" offset.toNat length.toNat 1 then
        .rows [[.bytes ((picture.drop (offset.toNat - 1)).take length.toNat)]]
      else .rows []
    | _ =>
      if s = Sql.contentLength photo "Picture" 1 then .rows [[.integer picture.length]] else .rows []
  (reply, ())

theorem Database.serves_keeping (picture : Bytes) :
    Serves (keeping picture) () (fun _ => True) photo 1 "Picture" picture where
  start := ⟨0, rfl⟩
  repeatableRead := ⟨0, rfl⟩
  started := trivial
  length _ _ := by
    refine ⟨?_, trivial⟩
    simp [keeping, Sql.contentLength, Sql.identityArgument]
  chunk _ _ offset length _ _ _ := by
    refine ⟨?_, trivial⟩
    simp [keeping, Sql.contentChunk, Sql.identityArgument]

/-- A picture that takes two chunks of the database, and nine of a copy. -/
theorem Database.source_gives_content_photo :
    let picture : Bytes := List.replicate 70000 7
    let m : Memory :=
      ⟨[("Photo", ⟨1, [(1, ⟨[.integer 1, .blob 70000, .null], [none, some picture, none]⟩)]⟩)]⟩
    let write : List Bytes → Bytes → ExceptT StorageError Id (List Bytes) :=
      fun chunks chunk => return chunk :: chunks
    ∃ (source : RecordStore.Source Session) (pieces : List Bytes)
        (rest : RecordStore.Source Session) (kept : RecordStore.Source (StateM Memory)),
      (RecordStore.openSource (m := Session) photo 1 "Picture").run.run (keeping picture) () =
          (.ok (some source), ()) ∧
        (RecordStore.readPieces (m := Session) source (List.replicate 70000 3)).run
          (keeping picture) () = ((.ok pieces, rest), ()) ∧
        pieces.flatten = picture ∧
        (RecordStore.openSource (m := StateM Memory) photo 1 "Picture").run.run m =
          (.ok (some kept), m) ∧
        copyWithin (nextChunk (keeping picture)) id write 4 [] 0 (source, ()) =
          copyWithin Memory.nextChunk id write 4 [] 0 (kept, m) ∧
        copyWithin (nextChunk (keeping picture)) id write 10 [] 0 (source, ()) =
          some <$> Feed.copy .io write [] [.bytes picture] := by
  intro picture m write
  have hlength : picture.length = 70000 := List.length_replicate
  obtain ⟨source, opened, hopen, hread, -, hcopy⟩ :=
    source_gives_content (serves_keeping picture) (by decide) (by omega)
  have hsizes : ∀ n ∈ List.replicate 70000 3, 0 < n := by
    intro n hn
    obtain rfl := List.eq_of_mem_replicate hn
    decide
  obtain ⟨pieces, rest, after, hpieces, hreads⟩ := hread _ hsizes
  obtain ⟨kept, hkept, hsame⟩ := hcopy m rfl
  have hcomplete := hreads.complete (by rw [hlength, List.length_replicate])
  have hcopied := (hsame id .io write 9 []).2 (by rw [hlength]; decide)
  exact ⟨source, pieces, rest, kept, hopen, hpieces, hcomplete, hkept, (hsame id .io write 4 []).1,
    hcopied⟩

end RecordService
