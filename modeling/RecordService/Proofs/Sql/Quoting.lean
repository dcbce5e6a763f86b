import RecordService.Proofs.Schema.Registry
import RecordService.Proofs.Sql.Layout
import RecordService.Proofs.Store.Run

/-!
# Names stay within their quotes

Whatever characters the names of a schema consist of, they are names in statements and nothing else:
the quoted names of a statement are those of the schema, each in its place, and the text outside of
them is settled by the kinds of the attributes, the position of the identity and the shape of the
operation (`RecordService.Sql.Reading.names_stay_quoted`). For the text outside of names, an
operation is compared with the same operation on a record type without names
(`RecordService.Sql.Reading.bare_pieces`).

* `RecordService.RecordType.bare`: a record type without its names.
* `RecordService.Sql.Operation.bare`: an operation on a record type without names.
-/

namespace RecordService

/-! ### Record types without names -/

/-- An attribute of which only the kind is left, and whether it is the identity. -/
def Attribute.bare (a : Attribute) : Attribute where
  name := if a.isIdentity then Schema.identityName else ""
  kind := a.kind
  nullable := false
  sidecar := none
  target := none

theorem Attribute.isIdentity_bare (a : Attribute) : a.bare.isIdentity = a.isIdentity := by
  have hempty : ("" == Schema.identityName) = false := by decide
  rw [Attribute.bare, Attribute.isIdentity]
  cases h : a.isIdentity with
  | true => rfl
  | false => exact hempty

/-- A record type without its names. -/
def RecordType.bare (t : RecordType) : RecordType where
  name := ""
  space := ""
  table := ""
  attributes := t.attributes.map Attribute.bare
  identity := t.identity

/-- Without their names, record types are told apart by the kinds of their attributes and the
position of the identity. -/
theorem Registry.bare_eq {d d' : Schema.Document} {r r' : Registry} (h : ofDocument d = .ok r)
    (h' : ofDocument d' = .ok r') {t t' : RecordType} (ht : t ∈ r.types) (ht' : t' ∈ r'.types)
    (hkinds : t.attributes.map (·.kind) = t'.attributes.map (·.kind))
    (hidentity : t.identity = t'.identity) : t.bare = t'.bare := by
  have hattributes : t.attributes.map Attribute.bare = t'.attributes.map Attribute.bare := by
    apply List.ext_getElem?
    intro i
    have hkind : (t.attributes[i]?).map (·.kind) = (t'.attributes[i]?).map (·.kind) := by
      rw [← List.getElem?_map, ← List.getElem?_map, hkinds]
    rw [List.getElem?_map, List.getElem?_map]
    cases ha : t.attributes[i]? with
    | none =>
      rw [ha, Option.map_none, eq_comm, Option.map_eq_none_iff] at hkind
      rw [hkind]
    | some a =>
      rw [ha, Option.map_some, eq_comm, Option.map_eq_some_iff] at hkind
      obtain ⟨a', ha', hkind⟩ := hkind
      have hsame : a.isIdentity = a'.isIdentity := by
        rw [Bool.eq_iff_iff, isIdentity_iff h ht ha, isIdentity_iff h' ht' ha', hidentity]
      rw [ha', Option.map_some, Option.map_some, Attribute.bare, Attribute.bare, hsame, hkind]
  unfold RecordType.bare
  rw [hattributes, hidentity]

namespace Sql

/-- An operation on a record type without names. -/
def Operation.bare (q : Operation) : Operation := q.map RecordType.bare Path.place

namespace Reading

/-! ### Parts without names -/

/-- A part of a statement without the name that it is. -/
def withoutName : Piece → Piece
  | .name _ => .name ""
  | p => p

/-- The text outside of names does not depend on them: a name takes one place in it, whatever it is.
-/
theorem map_outside_marksOf (p : Piece) :
    (marksOf (withoutName p)).map Mark.outside = (marksOf p).map Mark.outside := by
  cases p with
  | name s => rw [withoutName, marksOf_name, marksOf_name]; rfl
  | fixed s => rfl
  | placeholder n => rfl

/-- Parts that are the same without their names have the same text outside of them. -/
theorem outside_congr {ps qs : List Piece} (h : ps.map withoutName = qs.map withoutName) :
    (ps.flatMap marksOf).map Mark.outside = (qs.flatMap marksOf).map Mark.outside := by
  have hparts (ps : List Piece) : (ps.flatMap marksOf).map Mark.outside =
      (ps.map withoutName).flatMap fun p => (marksOf p).map Mark.outside := by
    rw [List.map_flatMap, List.flatMap_map]
    exact List.flatMap_congr fun p _ => (map_outside_marksOf p).symm
  rw [hparts, hparts, h]

theorem map_separated (pss : List (List Piece)) :
    (separated [.fixed ", "] pss).map withoutName =
      separated [.fixed ", "] (pss.map (·.map withoutName)) := by
  induction pss with
  | nil => rfl
  | cons ps pss ih =>
    cases pss with
    | nil => rfl
    | cons qs pss =>
      simp only [separated, List.map_append, ih]
      rfl

theorem map_readColumns (t : RecordType) :
    (readColumns t.bare).map withoutName = (readColumns t).map withoutName := by
  have hcolumn (a : Attribute) :
      (readColumn a.bare).map withoutName = (readColumn a).map withoutName := by
    have hkind : a.bare.kind = a.kind := rfl
    unfold readColumn
    rw [hkind]
    split <;> rfl
  simp only [readColumns, map_separated, RecordType.bare, List.map_map, Function.comp_def, hcolumn]

theorem map_condition (n : Nat) (f : Filter) (literal : Value → Value) :
    (condition n (f.map Path.place literal)).map withoutName = (condition n f).map withoutName := by
  induction f generalizing n with
  | comparison p op v => rfl
  | and l r ihl ihr =>
    simp only [Filter.map, condition, List.map_append, List.map_cons, ihl, ihr, literalCount_map]
  | or l r ihl ihr =>
    simp only [Filter.map, condition, List.map_append, List.map_cons, ihl, ihr, literalCount_map]
  | not f ih =>
    rw [Filter.map, condition, condition, isBinary_map]
    split
    · rw [List.map_cons, List.map_cons, ih]
    · simp only [List.map_append, List.map_cons, ih]

theorem map_whereClause (f : Option Filter) (literal : Value → Value) :
    (whereClause (f.map (Filter.map Path.place literal))).map withoutName =
      (whereClause f).map withoutName := by
  cases f with
  | none => rfl
  | some f =>
    rw [Option.map_some, whereClause, whereClause, List.map_cons, List.map_cons, map_condition]

theorem map_orderClause (o : Order) :
    (orderClause ⟨o.terms.map fun t => ⟨t.path.place, t.direction⟩⟩).map withoutName =
      (orderClause o).map withoutName := by
  have hterm (t : OrderTerm) : (sortTerm ⟨t.path.place, t.direction⟩).map withoutName =
      (sortTerm t).map withoutName := rfl
  simp only [orderClause, List.map_cons, map_separated, List.map_append, List.map_map,
    Function.comp_def, hterm]

/-- The same attributes are written without names, since which one is the identity and which are
binary is kept. -/
theorem writtenAttributes_bare (t : RecordType) :
    writtenAttributes t.bare = (writtenAttributes t).map Attribute.bare := by
  have hwritten : isWritten ∘ Attribute.bare = isWritten := by
    funext a
    rw [Function.comp_apply, isWritten, isWritten, Attribute.isIdentity_bare]
    rfl
  rw [writtenAttributes, RecordType.bare, List.filter_map, hwritten, writtenAttributes]

/-- Items for the attributes that statements write, which differ in names only. -/
theorem map_separated_written (t : RecordType) {f : Nat → Attribute → List Piece}
    (hf : ∀ i a, (f i a.bare).map withoutName = (f i a).map withoutName) :
    (separated [.fixed ", "] ((writtenAttributes t.bare).mapIdx f)).map withoutName =
      (separated [.fixed ", "] ((writtenAttributes t).mapIdx f)).map withoutName := by
  rw [map_separated, map_separated, writtenAttributes_bare]
  congr 1
  apply List.ext_getElem?
  intro i
  simp only [List.getElem?_map, List.getElem?_mapIdx, Option.map_map, Function.comp_def, hf]

theorem isEmpty_writtenAttributes_bare (t : RecordType) :
    (writtenAttributes t.bare).isEmpty = (writtenAttributes t).isEmpty := by
  rw [writtenAttributes_bare, List.isEmpty_map]

theorem bare_insert (r : Record) :
    (insert (.empty r.type.bare)).pieces.map withoutName = (insert r).pieces.map withoutName := by
  rw [pieces_insert, pieces_insert, Record.empty, isEmpty_writtenAttributes_bare]
  split
  · simp only [List.map_append, List.map_cons, map_readColumns]
    rfl
  · have hcolumns : (separated [.fixed ", "] ((writtenAttributes r.type.bare).map fun a =>
          [Piece.name a.name])).map withoutName =
        (separated [.fixed ", "] ((writtenAttributes r.type).map fun a => [.name a.name])).map
          withoutName := by
      rw [map_separated, map_separated, writtenAttributes_bare, List.map_map, List.map_map,
        List.map_map]
      rfl
    have hvalues := map_separated_written r.type (f := fun i a => typed (i + 1) a.kind)
      fun _ _ => rfl
    simp only [List.map_append, List.map_cons, map_readColumns, hcolumns, hvalues]
    rfl

theorem bare_update (r : Record) (id : Int) :
    (update (.empty r.type.bare) 0).pieces.map withoutName =
      (update r id).pieces.map withoutName := by
  rw [pieces_update, pieces_update, Record.empty, isEmpty_writtenAttributes_bare]
  split
  · simp only [Sql.selectById, List.map_append, List.map_cons, map_readColumns]
    rfl
  · have hvalues := map_separated_written r.type
      (f := fun i a => .name a.name :: .fixed " = " :: typed (i + 1) a.kind) fun _ _ => rfl
    have hlength : (writtenAttributes r.type.bare).length = (writtenAttributes r.type).length := by
      rw [writtenAttributes_bare, List.length_map]
    simp only [List.map_append, List.map_cons, map_readColumns, hvalues, hlength]
    rfl

/-- **Without names, a statement is that of an operation without names.** The names enter a
statement as pieces of their own and nowhere else. -/
theorem bare_pieces (q : Operation) :
    q.bare.statement.pieces.map withoutName = q.statement.pieces.map withoutName := by
  cases q with
  | select t s =>
    simp only [Operation.bare, Operation.map, Operation.statement, Sql.select, List.map_append,
      List.map_cons, map_readColumns, map_whereClause, map_orderClause]
    rfl
  | count t f =>
    simp only [Operation.bare, Operation.map, Operation.statement, Sql.count, List.map_append,
      map_whereClause]
    rfl
  | selectById t id =>
    simp only [Operation.bare, Operation.map, Operation.statement, Sql.selectById, List.map_append,
      List.map_cons, map_readColumns]
    rfl
  | insert r => exact bare_insert r
  | update r id => exact bare_update r id
  | delete t id => rfl
  | lockRow t id => rfl
  | assemble t p id => rfl
  | contentLength t p id => rfl
  | contentChunk t p offset length id => rfl

/-! ### Shapes -/

theorem map_null_map_null (property property' : Path → Path) (f : Filter) :
    (f.map property fun _ => .null).map property' (fun _ => .null) =
      f.map (property' ∘ property) fun _ => .null := by
  induction f with
  | comparison p op v => rfl
  | and l r ihl ihr => simp only [Filter.map, ihl, ihr]
  | or l r ihl ihr => simp only [Filter.map, ihl, ihr]
  | not f ih => simp only [Filter.map, ih]

/-- Without names, only the shape and the record type matter. -/
theorem bare_eq_map_shape (q : Operation) : q.bare = q.shape.map (fun _ => q.type.bare) id := by
  have hfilter (f : Option Filter) :
      (f.map (Filter.map Path.place fun _ => .null)).map (Filter.map id fun _ => .null) =
        f.map (Filter.map Path.place fun _ => .null) := by
    simp only [Option.map_map, Function.comp_def, map_null_map_null, id_eq]
  cases q with
  | select t s =>
    simp only [Operation.bare, Operation.shape, Operation.map, Operation.type, hfilter,
      List.map_map, Function.comp_def, id_eq]
  | count t f => simp only [Operation.bare, Operation.shape, Operation.map, Operation.type, hfilter]
  | _ => rfl

/-- **Names stay quoted.** The quoted names of a statement are those that the operation calls for,
whatever their characters are. What stands outside of the names is the same for two schemas, where
their record types have the same kinds of attributes and the same place of the identity, and the
operations have the same shape. -/
theorem names_stay_quoted :
    (∀ q : Operation, ∃ ms, marks none q.statement.text.toList = some ms ∧
      ms.filterMap Mark.name? = q.names) ∧
    ∀ {d d' : Schema.Document} {r r' : Registry} {q q' : Operation},
      Registry.ofDocument d = .ok r → Registry.ofDocument d' = .ok r' →
      q.type ∈ r.types → q'.type ∈ r'.types →
      q.type.attributes.map (·.kind) = q'.type.attributes.map (·.kind) →
      q.type.identity = q'.type.identity → q.shape = q'.shape →
      ∃ ms ms', marks none q.statement.text.toList = some ms ∧
        marks none q'.statement.text.toList = some ms' ∧
        ms.map Mark.outside = ms'.map Mark.outside := by
  refine ⟨fun q => ⟨_, (laid_statement q).marks, (laid_statement q).names⟩, ?_⟩
  intro d d' r r' q q' hd hd' hq hq' hkinds hidentity hshape
  have hbare : q.bare = q'.bare := by
    rw [bare_eq_map_shape, bare_eq_map_shape, hshape,
      Registry.bare_eq hd hd' hq hq' hkinds hidentity]
  have hpieces : q.statement.pieces.map withoutName = q'.statement.pieces.map withoutName := by
    rw [← bare_pieces, hbare, bare_pieces]
  exact ⟨_, _, (laid_statement q).marks, (laid_statement q').marks, outside_congr hpieces⟩

/-- A search in a ledger, whose names are full of quotes and ends of statements, reads like a search
in an album. -/
theorem names_stay_quoted_ledger :
    let search (t : RecordType) (p : Path) : Operation :=
      .select t { filter := some (.comparison p .eq (.text "\"")), order := ⟨[⟨p, .descending⟩]⟩ }
    let q := search ledger ⟨"Ledger", "$1\"FileName", 2, .text⟩
    let q' := search Memory.photo ⟨"Photo", "PictureFileName", 2, .text⟩
    (∃ ms, marks none q.statement.text.toList = some ms ∧ ms.filterMap Mark.name? =
      ["Id", "Id", "$1\"", "$1\"", "$1\"FileName", "$1\"FileName", "a\"b\"\"; --", "\"\n$2",
        "$1\"FileName", "C", "$1\"FileName", "C", "Id"]) ∧
    ∃ ms ms', marks none q.statement.text.toList = some ms ∧
      marks none q'.statement.text.toList = some ms' ∧
      ms.map Mark.outside = ms'.map Mark.outside := by
  intro search q q'
  obtain ⟨hnames, hsame⟩ := names_stay_quoted
  have hledgers : Registry.ofDocument ledgers = .ok ⟨[ledger]⟩ := rfl
  have halbum : Registry.ofDocument Memory.album = .ok ⟨[Memory.photo]⟩ := rfl
  exact ⟨hnames q, hsame hledgers halbum (List.mem_singleton.mpr rfl) (List.mem_singleton.mpr rfl)
    rfl rfl rfl⟩

end Reading

end Sql

end RecordService
