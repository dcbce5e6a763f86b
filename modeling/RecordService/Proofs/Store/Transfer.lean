import Mathlib.Algebra.GroupWithZero.Nat
import Mathlib.Data.List.SplitLengths
import RecordService.Proofs.Query.Typing
import RecordService.Proofs.Store.Effect
import RecordService.Proofs.Store.Lookup

/-!
# Uploads are read back

The bytes of an upload are cut three times: as they arrive, by the buffer they are copied through,
and by the reads of a download. In between, reads of the feed may be interrupted. None of this shows
in what is stored: an upload stores exactly the bytes of its feed, with their length as the value,
and a download gives them back, whatever the sizes of the reads
(`RecordService.Content.upload_then_download`).

* `RecordService.Feed.Delivers`: the bytes that a feed comes with, if it does not break.
* `RecordService.Feed.Takes`: what one read of such a feed may give.
* `RecordService.Feed.run_copyFrom`: the copy of a feed writes all of its bytes.
* `RecordService.RecordStore.readPieces`: reads of given sizes, one after the other.
* `RecordService.Memory.Yields`: a source that gives some content, however it is read.
* `RecordService.Content.run_upload_of_delivers`, `RecordService.Content.run_download`: what the two
  operations do if nothing is in their way.
-/

namespace RecordService

/-! ### Records -/

namespace Record

/-- A path leads to a property of every record of its type, whatever its values are. -/
theorem owns_of_resolve {x : Record} {s : String} {p : Path} (hp : Path.resolve x.type s = .ok p) :
    x.owns p := by
  obtain ⟨-, hentity, -, a, ha, -⟩ := Path.resolve_eq_ok hp
  have hlt : p.index < x.values.length := by
    rw [x.length_values]
    exact (List.getElem?_eq_some_iff.mp ha).1
  simp [owns, hentity, hlt]

theorem value_setAt {x : Record} {p : Path} (h : x.owns p) (v : Value) :
    (x.setAt p.index v).value p = .ok v := by
  have howns : (x.setAt p.index v).owns p := by simpa [owns, setAt] using h
  have hlt : p.index < x.values.length := by
    simp only [owns, Bool.and_eq_true, decide_eq_true_eq] at h
    exact h.2
  rw [value, if_pos howns]
  simp [setAt, hlt]

end Record

theorem Value.showing_ne_text (content : Option Bytes) (s : String) :
    Value.showing content ≠ .text s := by
  cases content <;> simp [Value.showing]

/-! ### Feeds -/

namespace Feed

/-- Whether a feed delivers some content and then ends: in pieces of any sizes, and with any
interruptions between them. -/
inductive Delivers : Feed → Bytes → Prop
  | ended : Delivers [] []
  | interrupted {f : Feed} {content : Bytes} (rest : Delivers f content) :
      Delivers (.interrupted :: f) content
  | bytes {f : Feed} {content : Bytes} (b : Bytes) (rest : Delivers f content) :
      Delivers (.bytes b :: f) (b ++ content)

variable {f rest : Feed} {content : Bytes} {room : Nat} {result : ReadResult}

/-- What a read may give if `content` is still to be delivered, and what it leaves. -/
def Takes (content : Bytes) : ReadResult → Feed → Prop
  | .ended, _ => content = []
  | .interrupted, rest => rest.Delivers content
  | .bytes b, rest => ∃ more, content = b ++ more ∧ rest.Delivers more
  | .broken _, _ => False

/-- **What a read takes is the front of the content**, and the rest is delivered after it. -/
theorem Delivers.read (h : f.Delivers content) (hr : f.read room = (result, rest)) :
    Takes content result rest := by
  fun_induction Feed.read room f generalizing content with
  | case1 =>
    obtain ⟨rfl, rfl⟩ := Prod.mk.inj hr
    cases h
    rfl
  | case2 f ih =>
    -- an empty delivery is passed over
    cases h with
    | bytes _ h => exact ih h hr
  | case3 b bs f hd =>
    obtain ⟨rfl, rfl⟩ := Prod.mk.inj hr
    cases h with
    | bytes _ h => exact ⟨_, rfl, h⟩
  | case4 b bs f c cs hd =>
    obtain ⟨rfl, rfl⟩ := Prod.mk.inj hr
    cases h with
    | bytes _ h =>
      -- what does not fit is delivered next
      refine ⟨_, ?_, .bytes (c :: cs) h⟩
      rw [← hd, ← List.append_assoc, List.take_append_drop]
  | case5 f =>
    obtain ⟨rfl, rfl⟩ := Prod.mk.inj hr
    cases h with
    | interrupted h => exact h
  | case6 text f => cases h

variable {σ ε : Type} {write : σ → Bytes → ExceptT ε (StateM Memory) σ}

/-- **The copy of a feed writes its content**, cut into chunks in some way, and counts it. How the
bytes arrive decides only where the cuts are. -/
theorem run_copyFrom (failed : String → ε) {next : σ → Bytes → σ}
    (hwrite : ∀ s chunk m, (write s chunk).run.run m = (.ok (next s chunk), m))
    (h : f.Delivers content) (sink : σ) (total : Nat) (m : Memory) :
    ∃ chunks : List Bytes, chunks.flatten = content ∧
      (copyFrom failed write sink total f).run.run m =
        (.ok (chunks.foldl next sink, total + content.length), m) := by
  -- by the reads: each takes one chunk from the front of the content, or nothing
  fun_induction copyFrom failed write sink total f generalizing content with
  | case1 sink total f rest hr =>
    obtain rfl : content = [] := h.read hr
    exact ⟨[], rfl, rfl⟩
  | case2 sink total f text rest hr => exact (h.read hr).elim
  | case3 sink total f rest hr ih => exact ih (h.read hr)
  | case4 sink total f b rest hr ih =>
    obtain ⟨more, rfl, hrest⟩ := h.read hr
    obtain ⟨chunks, rfl, hcopy⟩ := ih (next sink b) hrest
    refine ⟨b :: chunks, rfl, ?_⟩
    rw [Memory.run_bind, hwrite]
    dsimp only
    rw [hcopy, List.length_append, Nat.add_assoc, List.foldl_cons]

end Feed

/-! ### Sinks -/

namespace MemorySink

/-- A sink with some more chunks leads where it did before. The chunks are kept with the last one
first. -/
theorem foldl_write (chunks : List Bytes) (s : MemorySink) :
    chunks.foldl write s = { s with chunks := chunks.reverse ++ s.chunks } := by
  induction chunks generalizing s with
  | nil => rfl
  | cons chunk chunks ih => simp [ih, write]

end MemorySink

namespace Memory

variable {m : Memory} {t : RecordType} {id : Int}

/-- The binary attribute with a name, at the position where the name is found. -/
theorem blobIndex_of_index? {name : String} {i : Nat} {a : Attribute} (hi : t.index? name = some i)
    (ha : t.attributes[i]? = some a) (hblob : a.kind = .blob) : blobIndex t name = .ok i := by
  have hindex : t.blobIndex? name = some i := by
    simp [RecordType.blobIndex?, hi, ha, hblob]
  rw [blobIndex, hindex]

theorem openSink_of_row? {name : String} {i : Nat} {row : Row} (hi : blobIndex t name = .ok i)
    (hrow : m.row? t id = some row) :
    m.openSink t id name = .ok { entity := t.name, id, index := i } := by
  rw [openSink, hi, hrow]
  rfl

/-- What a commit does depends on where its sink leads and on what was written to it, but not on how
it was cut into chunks. -/
theorem commit_congr {s s' : MemorySink} (hentity : s.entity = s'.entity) (hid : s.id = s'.id)
    (hindex : s.index = s'.index) (hstaged : s.staged = s'.staged) : m.commit s = m.commit s' := by
  simp only [commit, hentity, hid, hindex, hstaged]

/-- A commit succeeds if the record is there. Whether it was there when the sink was opened does not
matter. -/
theorem exists_commit {s : MemorySink} {row : Row} (hentity : s.entity = t.name)
    (hrow : m.row? t s.id = some row) : ∃ m', m.commit s = .ok (s.staged.length, m') := by
  have hsome : ((m.table s.entity).row? s.id).isSome := by
    rw [hentity]
    exact Option.isSome_of_eq_some hrow
  exact ⟨_, if_pos hsome⟩

end Memory

/-! ### Reading in pieces -/

namespace RecordStore

variable {m : Type → Type} [Monad m] [RecordStore m]

/-- Reads pieces of at most these sizes, one after the other. A read that fails is the last one. -/
def readPieces (s : Source m) : List Nat → m (Except StorageError (List Bytes) × Source m)
  | [] => pure (.ok [], s)
  | n :: ns => do
    match ← read s n with
    | (.error e, s) => pure (.error e, s)
    | (.ok piece, s) =>
      let (pieces, s) ← readPieces s ns
      pure (pieces.map (piece :: ·), s)

end RecordStore

/-- The pieces of a list are its beginning, as long as all pieces together. -/
theorem Bytes.flatten_splitLengths_eq_take (sizes : List Nat) (content : Bytes) :
    (sizes.splitLengths content).flatten = content.take sizes.sum := by
  induction sizes generalizing content with
  | nil => simp
  | cons n ns ih => simp [ih, List.take_add]

/-- A piece that has room is empty only behind the end of the list. So an empty read tells the end,
and nothing else does. -/
theorem Bytes.eq_nil_of_splitLengths {sizes : List Nat} (hsizes : ∀ n ∈ sizes, 0 < n)
    {content piece : Bytes} {k : Nat} (hpiece : (sizes.splitLengths content)[k]? = some piece) :
    piece = [] ↔ content.length ≤ (sizes.take k).sum := by
  induction sizes generalizing content k with
  | nil => simp at hpiece
  | cons n ns ih =>
    obtain ⟨hn, hns⟩ := List.forall_mem_cons.mp hsizes
    cases k with
    | zero =>
      obtain rfl : content.take n = piece := by simpa using hpiece
      simp [List.take_eq_nil_iff, hn.ne']
    | succ k =>
      have hpiece : (ns.splitLengths (content.drop n))[k]? = some piece := by simpa using hpiece
      rw [ih hns hpiece, List.length_drop, List.take_succ_cons, List.sum_cons]
      omega

namespace Memory

/-- Reading takes piece after piece from the front of a source, and leaves the store. -/
theorem run_readPieces (source : Bytes) (sizes : List Nat) (m : Memory) :
    (RecordStore.readPieces (m := StateM Memory) source sizes).run m =
      ((.ok (sizes.splitLengths source), source.drop sizes.sum), m) := by
  induction sizes generalizing source with
  | nil => rfl
  | cons n ns ih =>
    have hread : (RecordStore.read (m := StateM Memory) source n).run m =
        ((.ok (source.take n), source.drop n), m) := rfl
    rw [RecordStore.readPieces, StateT.run_bind, hread]
    change (RecordStore.readPieces (m := StateM Memory) (source.drop n) ns >>= fun p =>
      pure (p.1.map (source.take n :: ·), p.2)).run m = _
    rw [StateT.run_bind, ih (source.drop n), List.drop_drop, List.splitLengths_cons, List.sum_cons]
    rfl

/-- Whether a source gives `content` and nothing else, in whatever pieces it is read: the pieces are
a beginning of the content, each has at most the size that was asked for, and an empty one shows
that the reads before it asked for all of the content. -/
def Yields (m : Memory) (source : RecordStore.Source (StateM Memory)) (content : Bytes) : Prop :=
  ∀ sizes : List Nat, (∀ n ∈ sizes, 0 < n) → ∃ pieces rest,
    (RecordStore.readPieces source sizes).run m = ((.ok pieces, rest), m) ∧
      pieces.flatten = content.take sizes.sum ∧
      List.Forall₂ (fun (piece : Bytes) n => piece.length ≤ n) pieces sizes ∧
      ∀ (k : Nat) (piece : Bytes), pieces[k]? = some piece →
        (piece = [] ↔ content.length ≤ (sizes.take k).sum)

/-- A source yields the content that it was opened on. -/
theorem yields_self (m : Memory) (content : Bytes) : m.Yields content content := by
  intro sizes hsizes
  refine ⟨_, _, run_readPieces content sizes m, Bytes.flatten_splitLengths_eq_take sizes content,
    ?_, fun k piece => Bytes.eq_nil_of_splitLengths hsizes⟩
  rw [List.forall₂_iff_get]
  exact ⟨List.length_splitLengths content sizes, fun i _ _ =>
    List.length_splitLengths_getElem_le content sizes⟩

end Memory

/-! ### Transfers -/

open Memory

theorem Records.run_findById (t : RecordType) (id : Int) (m : Memory) :
    (findById (m := StateM Memory) t id).run.run m = (.ok (m.get t id), m) := rfl

namespace Content

variable {x : Record} {p : Path} {a : Attribute} {id : Int} {m m' : Memory}

/-- A binary attribute of a stored record: what an upload and a download ask for before they turn to
the store. -/
theorem requireBlob_eq_ok_iff :
    requireBlob x p = .ok (a, id) ↔ (∃ v, x.value p = .ok v) ∧
      x.type.attributes[p.index]? = some a ∧ a.kind = .blob ∧ x.id = some id := by
  unfold requireBlob
  constructor
  · intro h
    obtain ⟨v, hv, h⟩ := Outcome.bind_eq_ok_iff.mp h
    split at h
    · simp at h
    · next b hb =>
      split at h
      · simp at h
      · next hblob =>
        split at h
        · simp at h
        · next k hk =>
          cases h
          exact ⟨⟨v, hv⟩, hb, by simpa using hblob, hk⟩
  · rintro ⟨⟨v, hv⟩, ha, hblob, hid⟩
    exact Outcome.bind_eq_ok_iff.mpr ⟨v, hv, by simp [ha, hblob, hid]⟩

theorem requireBlob_eq_ok (howns : x.owns p) (ha : x.type.attributes[p.index]? = some a)
    (hblob : a.kind = .blob) (hid : x.id = some id) : requireBlob x p = .ok (a, id) :=
  requireBlob_eq_ok_iff.mpr ⟨⟨_, if_pos howns⟩, ha, hblob, hid⟩

/-- **An upload commits the content of its feed** as if it had come in one chunk. So all deliveries
of the same content lead to the same state. -/
theorem run_upload_of_delivers {f : Feed} {content : Bytes} {i size : Nat} {row : Row}
    (hblob : requireBlob x p = .ok (a, id)) (hi : blobIndex x.type a.name = .ok i)
    (hrow : m.row? x.type id = some row) (hf : f.Delivers content)
    (hcommit : m.commit { entity := x.type.name, id, index := i, chunks := [content] } =
      .ok (size, m')) :
    (upload (m := StateM Memory) x p f).run.run m = (.ok size, m') := by
  let opened : MemorySink := { entity := x.type.name, id, index := i }
  have hopened :
      (Records.store (RecordStore.openSink (m := StateM Memory) x.type id a.name)).run.run m =
        (.ok opened, m) := run_store_inspect (openSink_of_row? hi hrow)
  have hwrite (s : MemorySink) (chunk : Bytes) (m : Memory) :
      (Records.store (RecordStore.write (m := StateM Memory) s chunk)).run.run m =
        (.ok (s.write chunk), m) := rfl
  obtain ⟨chunks, rfl, hcopy⟩ :=
    Feed.run_copyFrom brokenSource hwrite hf opened 0 m
  -- only where the sink leads and what is in it matters to the commit
  have hsink := MemorySink.foldl_write chunks opened
  have hchunks : m.commit (chunks.foldl MemorySink.write opened) = .ok (size, m') := by
    rw [← hcommit, hsink]
    exact commit_congr rfl rfl rfl (by simp [opened, MemorySink.staged])
  exact (run_bind_of_ok (run_liftM_ok hblob) _).trans ((run_bind_of_ok hopened _).trans
    ((run_bind_of_ok hcopy _).trans (run_store_change_of_ok hchunks)))

/-- A download gives the content and its file name, and leaves the store. -/
theorem run_download {content : Option Bytes} (hblob : requireBlob x p = .ok (a, id))
    (hcontent : m.content x.type id a.name = .ok content) :
    (download (m := StateM Memory) x p).run.run m =
      (.ok (content.map fun source => (source, fileName x a)), m) :=
  (run_bind_of_ok (run_liftM_ok hblob) _).trans (run_bind_of_ok (run_store_inspect hcontent) _)

theorem fileName_eq_some_iff {s : String} :
    fileName x a = some s ↔ ∃ name text, a.sidecar = some name ∧ x.get? name = some (.text text) ∧
      text.isEmpty = false ∧ sanitize text = s := by
  unfold fileName
  simp only [bind, Option.bind_eq_some_iff]
  constructor
  · rintro ⟨name, hname, v, hv, h⟩
    split at h
    · rename_i text
      split at h
      · simp at h
      · rename_i hempty
        exact ⟨name, text, hname, hv, by simpa using hempty, Option.some.inj h⟩
    · simp at h
  · rintro ⟨name, text, hname, htext, hempty, rfl⟩
    exact ⟨name, hname, _, htext, by simp [hempty]⟩

/-- The file name does not depend on values that are no texts. So a new length, which an upload
leaves in the record, does not change it. -/
theorem fileName_setAt {i : Nat} {v w : Value} (hx : x.values[i]? = some v)
    (hv : ∀ s, v ≠ .text s) (hw : ∀ s, w ≠ .text s) (a : Attribute) :
    fileName (x.setAt i w) a = fileName x a := by
  have hlt : i < x.values.length := (List.getElem?_eq_some_iff.mp hx).1
  have htext (name text : String) :
      (x.setAt i w).get? name = some (.text text) ↔ x.get? name = some (.text text) := by
    simp only [Record.get?, bind, Option.bind_eq_some_iff]
    refine exists_congr fun j => and_congr_right fun _ => ?_
    by_cases hij : i = j
    · subst hij
      have hset : (x.setAt i w).values[i]? = some w := by simp [Record.setAt, hlt]
      simp only [hset, hx, Option.some.injEq, hv, hw]
    · simp [Record.setAt, List.getElem?_set_ne hij]
  ext s
  simp only [fileName_eq_some_iff, htext]

/-- **An upload is read back.** A path leads to a binary attribute of a stored record, and the bytes
for it may arrive in pieces of any sizes and with any interruptions between them. In all cases the
upload succeeds with the number of bytes, and leads to the same state.

* The record is found there with this number as the value of the attribute, and otherwise as it was.
* A download, for the record of before or the one that is found now, gives a source that yields
  these bytes in whatever pieces it is read, and the file name of before.
* All other records are found as they were, and all other content is the same. -/
theorem upload_then_download {d : Schema.Document} {r : Registry}
    (hd : Registry.ofDocument d = .ok r) {calls : List Call} (hcalls : ∀ c ∈ calls, c.UsesTypesOf r)
    {t : RecordType} (ht : t ∈ r.types) {id : Int} {x : Record}
    (hx : (Records.findById (m := StateM Memory) t id).run.run (run calls).memory =
      (.ok (some x), (run calls).memory))
    {a : Attribute} (ha : a ∈ t.attributes) (hblob : a.kind = .blob) {p : Path}
    (hp : Path.resolve t a.name = .ok p) (content : Bytes) :
    let m := (run calls).memory
    let found := x.setAt p.index (.blob content.length)
    ∃ m' : Memory,
      (∀ f : Feed, f.Delivers content →
        (upload (m := StateM Memory) x p f).run.run m = (.ok content.length, m')) ∧
      (Records.findById (m := StateM Memory) t id).run.run m' = (.ok (some found), m') ∧
      found.value p = .ok (.blob content.length) ∧
      (∃ source, m'.Yields source content ∧ ∀ y, y = x ∨ y = found →
        (download (m := StateM Memory) y p).run.run m' =
          (.ok (some (source, fileName x a)), m')) ∧
      (∀ u ∈ r.types, ∀ k, ¬(u = t ∧ k = id) → m'.get u k = m.get u k) ∧
      ∀ u ∈ r.types, ∀ k name, ¬(u = t ∧ k = id ∧ name = a.name) →
        m'.content u k name = m.content u k name := by
  intro m found
  have hr := Registry.resolved_of_ofDocument hd
  have h : m.Consistent r _ := (invariant_run hr hcalls).memory
  have hx : m.get t id = some x := by
    rw [Records.run_findById] at hx
    exact Except.ok.inj (congrArg Prod.fst hx)
  obtain ⟨row, hrow, hconsistent, rfl, hvalues⟩ := row_of_get h hr ht hx
  have hid := id_of_get h hr ht hx
  have hindex := Path.getElem?_of_resolve hd ht ha hp
  have howns := Record.owns_of_resolve hp
  have hi : blobIndex x.type a.name = .ok p.index :=
    blobIndex_of_index? (Path.resolve_eq_ok hp).2.2.1 hindex hblob
  -- the state behind the upload, as if the content had come in one chunk
  let whole : MemorySink := { entity := x.type.name, id, index := p.index, chunks := [content] }
  have hwhole : whole.staged = content := by simp [whole, MemorySink.staged]
  obtain ⟨m', hm⟩ := exists_commit (s := whole) rfl hrow
  have hcontent := content_commit_self hm rfl hrow hconsistent hi
  rw [hwhole] at hm hcontent
  have hfound : m'.get x.type id = some found := by
    rw [get_commit h hr hm ht, if_pos ⟨rfl, rfl⟩, hx]
    rfl
  have hid' := id_of_get (h.commit hr ⟨x.type, ht, rfl, a, hindex, hblob⟩ hm) hr ht hfound
  have hfile : fileName found a = fileName x a := by
    have hshown := hconsistent.blob p.index a hindex hblob
    rw [← hvalues] at hshown
    exact fileName_setAt hshown (Value.showing_ne_text _) (by simp) a
  refine ⟨m', ?_, ?_, Record.value_setAt howns _, ⟨content, yields_self m' content, ?_⟩, ?_, ?_⟩
  · intro f hf
    exact run_upload_of_delivers (requireBlob_eq_ok howns hindex hblob hid) hi hrow hf hm
  · rw [Records.run_findById, hfound]
  · rintro y (rfl | rfl)
    · exact run_download (requireBlob_eq_ok howns hindex hblob hid) hcontent
    · rw [← hfile]
      exact run_download
        (requireBlob_eq_ok (Record.owns_of_resolve (x := found) hp) hindex hblob hid') hcontent
  · intro u hu k hne
    rw [get_commit h hr hm hu, if_neg]
    rintro ⟨huname, rfl⟩
    exact hne ⟨hr.eq_of_name hu ht huname, rfl⟩
  · intro u hu k name hne
    refine content_commit hm ?_
    rintro ⟨huname, rfl, hother⟩
    obtain rfl := hr.eq_of_name hu ht huname
    exact hne ⟨rfl, rfl, eq_of_blobIndex hother hi⟩

/-- A picture arrives in two pieces between interruptions, and is read in three. -/
theorem upload_then_download_photo :
    let m := (run photo.calls).memory
    let x : Record := ⟨photo, [.integer 2, .blob 3, .text "sea.png"], rfl⟩
    let p : Path := ⟨"Photo", "Picture", 1, .blob⟩
    let f : Feed := [.interrupted, .bytes [7, 8, 9], .bytes [], .interrupted, .bytes [1]]
    ∃ (m' : Memory) (source : RecordStore.Source (StateM Memory)) (pieces : List Bytes)
        (rest : RecordStore.Source (StateM Memory)),
      (upload (m := StateM Memory) x p f).run.run m = (.ok 4, m') ∧
        (Records.findById (m := StateM Memory) photo 2).run.run m' =
          (.ok (some (x.setAt 1 (.blob 4))), m') ∧
        (download (m := StateM Memory) x p).run.run m' = (.ok (some (source, some "sea.png")), m') ∧
        (RecordStore.readPieces source [3, 2, 1]).run m' = ((.ok pieces, rest), m') ∧
        pieces.flatten = [7, 8, 9, 1] := by
  intro m x p f
  have halbum : Registry.ofDocument album = .ok ⟨[photo]⟩ := rfl
  have hcalls : ∀ c ∈ photo.calls, c.UsesTypesOf ⟨[photo]⟩ := by
    simp [photo.calls, Call.UsesTypesOf, photo.claimed]
  have hx : (Records.findById (m := StateM Memory) photo 2).run.run m = (.ok (some x), m) := rfl
  have hf : f.Delivers [7, 8, 9, 1] :=
    .interrupted (.bytes [7, 8, 9] (.bytes [] (.interrupted (.bytes [1] .ended))))
  obtain ⟨m', hupload, hfind, -, ⟨source, hyields, hdownload⟩, -⟩ :=
    upload_then_download halbum hcalls (List.mem_singleton_self _) hx
      (a := ⟨"Picture", .blob, true, "PictureFileName", none⟩) (by decide) rfl (p := p) rfl
      [7, 8, 9, 1]
  obtain ⟨pieces, rest, hread, hpieces, -⟩ := hyields [3, 2, 1] (by decide)
  exact ⟨m', source, pieces, rest, hupload f hf, hfind, hdownload x (.inl rfl), hread, hpieces⟩

end Content

end RecordService
