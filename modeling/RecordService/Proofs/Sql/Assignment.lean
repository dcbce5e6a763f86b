import RecordService.Proofs.Schema.Image
import RecordService.Proofs.Sql.Operation
import RecordService.Proofs.Sql.Statement
import RecordService.Proofs.Sql.Writing
import RecordService.Proofs.Store.WellFormed

/-!
# Records mean the same in statements

The statements that write a record list its columns and number their arguments side by side, without
the identity and without binary content. Read as the database reads them, they give each of the
other columns the value that the record has there
(`RecordService.Sql.Reading.assigned?_assignments`), and so they leave the table that the store in
memory has after the same operation (`RecordService.Sql.Reading.written_as_stored`).

* `RecordService.Sql.Reading.insertLexemes`, `RecordService.Sql.Reading.updateLexemes`: the lexemes
  of the statements.
* `RecordService.Sql.Reading.Assigns`: the values of a record for the columns that are written.
-/

namespace RecordService.Sql.Reading

open Memory

/-! ### Lexemes of statements -/

section

variable (t : RecordType)

/-- The lexemes of the columns that a statement shows at its end. -/
def returningLexemes : List Lexeme :=
  .word "returning" :: commaLexemes (t.attributes.map readLexemes)

/-- The lexemes of a placeholder with the type of a kind. -/
def typedLexemes (n : Nat) (k : Kind) : List Lexeme := [.argument n, .symbol "::", .word (cast k)]

/-- The lexemes of the condition on the identity. -/
def identityLexemes (n : Nat) : List Lexeme :=
  [.word "where", .name Schema.identityName, .symbol "=", .argument n]

/-- The lexemes of the statement for a new record. -/
def insertLexemes : List Lexeme :=
  if (writtenAttributes t).isEmpty then
    .word "insert" :: .word "into" :: tableLexemes t ++ .word "default" :: .word "values" ::
      returningLexemes t
  else
    .word "insert" :: .word "into" :: tableLexemes t ++ .symbol "(" ::
      commaLexemes ((writtenAttributes t).map fun a => [.name a.name]) ++
      .symbol ")" :: .word "values" :: .symbol "(" ::
      commaLexemes ((writtenAttributes t).zipIdx.map fun w => typedLexemes (w.2 + 1) w.1.kind) ++
      .symbol ")" :: returningLexemes t

/-- The lexemes of the statement for a record that is stored. -/
def updateLexemes : List Lexeme :=
  if (writtenAttributes t).isEmpty then selectHead t ++ identityLexemes 1
  else
    .word "update" :: tableLexemes t ++ .word "set" ::
      commaLexemes ((writtenAttributes t).zipIdx.map fun w =>
        .name w.1.name :: .symbol "=" :: typedLexemes (w.2 + 1) w.1.kind) ++
      identityLexemes ((writtenAttributes t).length + 1) ++ returningLexemes t

theorem spells_readColumns : Spells (readColumns t) (commaLexemes (t.attributes.map readLexemes)) :=
  spells_separated readColumn readLexemes spells_readColumn t.attributes

theorem spells_returning : Spells (.fixed " RETURNING " :: readColumns t) (returningLexemes t) := by
  have hreturning : run .nothing " RETURNING ".toList = some ([.word "returning"], .nothing) := by
    decide
  exact (spells_readColumns t).cons_fixed hreturning

theorem spells_byIdentity (n : Nat) : Spells (byIdentity n) (identityLexemes n) := by
  have hwhere : run .nothing " WHERE ".toList = some ([.word "where"], .nothing) := by decide
  have hequal : run .nothing " = ".toList = some ([.symbol "="], .nothing) := by decide
  exact ((spells_name _).append ((spells_placeholder n).cons_fixed hequal)
    (ends_fixed _ (by decide))).cons_fixed hwhere

theorem spells_selectById (id : Int) :
    Spells (selectById t id).pieces (selectHead t ++ identityLexemes 1) := by
  have hselect : run .nothing "SELECT ".toList = some ([.word "select"], .nothing) := by decide
  have hfrom : run .nothing " FROM ".toList = some ([.word "from"], .nothing) := by decide
  exact (((spells_readColumns t).cons_fixed hselect).append
    ((spells_tableName t).cons_fixed hfrom) (ends_fixed _ (by decide))).append
      (spells_byIdentity 1) (ends_fixed _ (by decide))

/-- Items that are numbered are spelled one by one, each with the number of its place. -/
theorem spells_numbered {α : Type} {f : Nat → α → List Piece} {g : Nat → α → List Lexeme}
    (h : ∀ i a, Spells (f i a) (g i a)) (as : List α) :
    Spells (separated [.fixed ", "] (as.mapIdx f))
      (commaLexemes (as.zipIdx.map fun w => g w.2 w.1)) := by
  have hspells := spells_separated (fun w : α × Nat => f w.2 w.1) (fun w => g w.2 w.1)
    (fun w => h w.2 w.1) as.zipIdx
  rwa [← List.mapIdx_eq_zipIdx_map] at hspells

end

theorem spells_insert (record : Record) :
    Spells (insert record).pieces (insertLexemes record.type) := by
  have hinto : run .nothing "INSERT INTO ".toList =
      some ([.word "insert", .word "into"], .nothing) := by decide
  have hhead := (spells_tableName record.type).cons_fixed hinto
  rw [pieces_insert, insertLexemes]
  split
  · have hdefault : run .nothing " DEFAULT VALUES".toList =
        some ([.word "default"], .word "VALUES".toList) := by decide
    have hvalues := (spells_fixed hdefault (complete_word _)).append (spells_returning record.type)
      (ends_fixed _ (by decide))
    exact hhead.append hvalues (ends_fixed _ (by decide))
  · have hopen : run .nothing " (".toList = some ([.symbol "("], .nothing) := by decide
    have hvalues : run .nothing ") VALUES (".toList =
        some ([.symbol ")", .word "values", .symbol "("], .nothing) := by decide
    have hclose : run .nothing ")".toList = some ([.symbol ")"], .nothing) := by decide
    have hcolumns := spells_separated (fun a : Attribute => [.name a.name])
      (fun a => [.name a.name]) (fun a => spells_name a.name) (writtenAttributes record.type)
    have hnumbers := spells_numbered (fun i (a : Attribute) => spells_typed (i + 1) a.kind)
      (writtenAttributes record.type)
    have hfront := hhead.append (hcolumns.cons_fixed hopen) (ends_fixed _ (by decide))
    have hmiddle := hfront.append (hnumbers.cons_fixed hvalues) (ends_fixed _ (by decide))
    have hall := hmiddle.append ((spells_returning record.type).cons_fixed hclose)
      (ends_fixed _ (by decide))
    exact hall

theorem spells_update (record : Record) (id : Int) :
    Spells (update record id).pieces (updateLexemes record.type) := by
  rw [pieces_update, updateLexemes]
  split
  · exact spells_selectById record.type id
  · have hupdate : run .nothing "UPDATE ".toList = some ([.word "update"], .nothing) := by decide
    have hset : run .nothing " SET ".toList = some ([.word "set"], .nothing) := by decide
    have hequal : run .nothing " = ".toList = some ([.symbol "="], .nothing) := by decide
    have hnumbers := spells_numbered (fun i (a : Attribute) => (spells_name a.name).append
      ((spells_typed (i + 1) a.kind).cons_fixed hequal) (ends_fixed _ (by decide)))
      (writtenAttributes record.type)
    have hfront := ((spells_tableName record.type).cons_fixed hupdate).append
      (hnumbers.cons_fixed hset) (ends_fixed _ (by decide))
    have hmiddle := hfront.append
      (spells_byIdentity ((writtenAttributes record.type).length + 1)) (ends_fixed _ (by decide))
    exact hmiddle.append (spells_returning record.type) (ends_fixed _ (by decide))

/-! ### What is read -/

/-- Items that are read one by one are read with commas between them, and the list ends where no
comma follows. -/
theorem readsList_commaLexemes {α β : Type} {item? : List Lexeme → Option (α × List Lexeme)}
    {f : β → α} {g : β → List Lexeme} (h : ∀ b rest, item? (g b ++ rest) = some (f b, rest))
    {bs : List β} (hbs : bs ≠ []) {rest : List Lexeme} (hrest : rest.head? ≠ some (.symbol ",")) :
    ReadsList item? (commaLexemes (bs.map g) ++ rest) (bs.map f) rest := by
  induction bs with
  | nil => exact absurd rfl hbs
  | cons b bs ih =>
    cases bs with
    | nil => exact .last (h b rest) hrest
    | cons c bs =>
      have hmore := ih (by simp)
      rw [List.map_cons, commaLexemes_cons _ (by simp), List.append_assoc, List.cons_append]
      exact .more (h b _) hmore

/-- The columns that the statements for a record write, with their numbered arguments. -/
def assignments (t : RecordType) : List (String × Expression) :=
  (writtenAttributes t).zipIdx.map fun w => (w.1.name, .argument (w.2 + 1) (some (cast w.1.kind)))

/-- What the statement for a new record writes. -/
def insertion (t : RecordType) : Write :=
  if (writtenAttributes t).isEmpty then .insertDefaults (nameOf t)
  else .insert (nameOf t) (assignments t)

/-- What the statement for a stored record writes. -/
def replacement (t : RecordType) : Write :=
  if (writtenAttributes t).isEmpty then .nothing
  else .update (nameOf t) (assignments t) Schema.identityName ((writtenAttributes t).length + 1)

section

variable {t : RecordType}

theorem shown?_readLexemes (a : Attribute) (rest : List Lexeme) :
    shown? (readLexemes a ++ rest) = some ((a.name, a.name), rest) := by
  unfold readLexemes
  split <;> rfl

theorem readsList_shown (ht : t.attributes ≠ []) (rest : List Lexeme)
    (hrest : rest.head? ≠ some (.symbol ",")) :
    ReadsList shown? (commaLexemes (t.attributes.map readLexemes) ++ rest)
      (t.attributes.map fun a => (a.name, a.name)) rest :=
  readsList_commaLexemes shown?_readLexemes ht hrest

theorem returns_returningLexemes (ht : t.attributes ≠ []) : Returns (returningLexemes t) := by
  have hitems := readsList_shown ht [] (by simp)
  rw [List.append_nil] at hitems
  exact .columns hitems

/-- The columns of a new row and their expressions, side by side: the reader pairs them by their
places, as the database does. -/
theorem zip_assignments (t : RecordType) :
    ((writtenAttributes t).map (·.name)).zip ((writtenAttributes t).zipIdx.map fun w =>
      Expression.argument (w.2 + 1) (some (cast w.1.kind))) = assignments t := by
  have hnames : (writtenAttributes t).map (·.name) =
      (writtenAttributes t).zipIdx.map fun w => w.1.name := by
    conv_lhs => rw [← List.zipIdx_map_fst 0 (writtenAttributes t), List.map_map]
    rfl
  rw [hnames, List.zip_map', assignments]

/-- **The statement for a new record** is read as it is meant: the columns that clients choose, each
with the argument of its place. Where there are none, it is the form that takes all defaults. -/
theorem writes_insertLexemes (ht : t.attributes ≠ []) :
    Writes (insertLexemes t) (insertion t) := by
  unfold insertLexemes insertion
  split
  · exact .insertDefaults rfl (returns_returningLexemes ht)
  · next hsome =>
    have hne : writtenAttributes t ≠ [] := by simpa using hsome
    have hzipped : (writtenAttributes t).zipIdx ≠ [] := mt List.zipIdx_eq_nil_iff.mp hne
    simp only [tableLexemes, List.append_assoc, List.cons_append, List.nil_append]
    rw [← zip_assignments]
    have hvalues : ReadsList expression? _ _ (.symbol ")" :: returningLexemes t) :=
      readsList_commaLexemes
        (f := fun w : Attribute × Nat => .argument (w.2 + 1) (some (cast w.1.kind)))
        (g := fun w => typedLexemes (w.2 + 1) w.1.kind) (fun _ _ => rfl) hzipped (by simp)
    refine .insert rfl ?_ hvalues (by simp) (returns_returningLexemes ht)
    exact readsList_commaLexemes (fun _ _ => rfl) hne (by simp)

/-- **The statement for a stored record** is read as it is meant. Where clients choose no columns,
it reads the row instead of writing. -/
theorem writes_updateLexemes (ht : t.attributes ≠ []) :
    Writes (updateLexemes t) (replacement t) := by
  unfold updateLexemes replacement
  split
  · simp only [selectHead, tableLexemes, identityLexemes, List.append_assoc, List.cons_append,
      List.nil_append]
    exact .nothing (readsList_shown ht _ (by simp)) rfl rfl
  · next hsome =>
    have hne : writtenAttributes t ≠ [] := by simpa using hsome
    have hzipped : (writtenAttributes t).zipIdx ≠ [] := mt List.zipIdx_eq_nil_iff.mp hne
    simp only [tableLexemes, identityLexemes, List.append_assoc, List.cons_append, List.nil_append]
    have hitems : ReadsList assignment? _ _ (.word "where" :: .name Schema.identityName ::
        .symbol "=" :: .argument ((writtenAttributes t).length + 1) :: returningLexemes t) :=
      readsList_commaLexemes
        (f := fun w : Attribute × Nat => (w.1.name, .argument (w.2 + 1) (some (cast w.1.kind))))
        (g := fun w => .name w.1.name :: .symbol "=" :: typedLexemes (w.2 + 1) w.1.kind)
        (fun _ _ => rfl) hzipped (by simp)
    exact .update rfl hitems rfl (returns_returningLexemes ht)

end

/-! ### Values -/

/-- The values of a record for the columns that statements write. -/
def given (record : Record) : List (String × Value) :=
  (writtenValues record).map fun w => (w.1.name, w.2)

/-- Numbered arguments give the values that stand at their places. The arguments in front are left
open, for the induction on the columns. -/
theorem assigned?_numbered {t : RecordType} (before more : List Argument)
    {ws : List (Attribute × Value)} (hws : ∀ w ∈ ws, t.attribute? w.1.name = some w.1) :
    assigned? t (before ++ (ws.map (.value ·.2) ++ more))
      (((ws.map Prod.fst).zipIdx before.length).map fun w =>
        (w.1.name, .argument (w.2 + 1) (some (cast w.1.kind)))) =
      some (ws.map fun w => (w.1.name, w.2)) := by
  induction ws generalizing before with
  | nil => rfl
  | cons w ws ih =>
    obtain ⟨hw, hws⟩ := List.forall_mem_cons.mp hws
    have hrest := ih (before ++ [.value w.2]) hws
    rw [List.length_append, List.length_singleton, List.append_assoc] at hrest
    have hargument : argument? (before ++ .value w.2 :: (ws.map (.value ·.2) ++ more))
        (before.length + 1) = some (.value w.2) := by simp [argument?]
    simp only [List.map_cons, List.zipIdx_cons, assigned?, List.cons_append, hw, bind,
      Option.bind_some, Expression.value?, hargument, columnType_eq_cast, Option.all_some,
      decide_true, if_true]
    simp only [List.singleton_append] at hrest
    rw [hrest]
    rfl

section

variable {d : Schema.Document} {r : Registry} {record : Record} {i : Nat} {a : Attribute}

/-- **The arguments of a record are its values** for the columns that are written. Columns and
arguments are numbered by the same list of attributes. -/
theorem assigned?_assignments (hd : Registry.ofDocument d = .ok r) (ht : record.type ∈ r.types)
    (more : List Argument) :
    assigned? record.type ((writtenValues record).map (.value ·.2) ++ more)
      (assignments record.type) = some (given record) := by
  have hfound : ∀ w ∈ writtenValues record, record.type.attribute? w.1.name = some w.1 := by
    intro w hw
    have hmem := (List.of_mem_zip (List.mem_of_mem_filter hw)).1
    exact (RecordType.attribute?_eq_some_iff (Registry.nodup_attributes hd ht)).mpr ⟨hmem, rfl⟩
  have hassigned := assigned?_numbered [] more hfound
  rwa [map_fst_writtenValues] at hassigned

/-- Statements write what clients choose: neither the identity, which the database gives, nor binary
content, which is uploaded. -/
theorem isWritten_iff (hd : Registry.ofDocument d = .ok r) {t : RecordType} (ht : t ∈ r.types)
    (ha : t.attributes[i]? = some a) : isWritten a ↔ t.Chosen i a := by
  have hidentity := Registry.isIdentity_iff hd ht ha
  simp only [isWritten, Bool.and_eq_true, Bool.not_eq_true', bne_iff_ne, Bool.eq_false_iff, ne_eq,
    hidentity]
  exact ⟨fun h => ⟨ha, h.1, h.2⟩, fun h => ⟨h.ne_identity, h.ne_blob⟩⟩

/-- Whether values are those of a record for all columns but the identity and binary content, each
column once. -/
structure Assigns (record : Record) (assigned : List (String × Value)) : Prop where
  nodup : (assigned.map Prod.fst).Nodup
  mem_iff : ∀ name v, (name, v) ∈ assigned ↔
    ∃ i a, record.type.Chosen i a ∧ a.name = name ∧ record.values[i]? = some v

theorem map_fst_assignments (t : RecordType) : (assignments t).map Prod.fst = writtenNames t := by
  rw [← zip_assignments, List.map_fst_zip (by simp), writtenNames]

/-- No column is written twice, since the names of a record type differ. -/
theorem nodup_writtenNames (hd : Registry.ofDocument d = .ok r) {t : RecordType}
    (ht : t ∈ r.types) : (writtenNames t).Nodup :=
  (Registry.nodup_attributes hd ht).sublist (List.filter_sublist.map _)

theorem nodup_assignments (hd : Registry.ofDocument d = .ok r) {t : RecordType} (ht : t ∈ r.types) :
    ((assignments t).map Prod.fst).Nodup := by
  rw [map_fst_assignments]
  exact nodup_writtenNames hd ht

theorem assigns_given (hd : Registry.ofDocument d = .ok r) (ht : record.type ∈ r.types) :
    Assigns record (given record) := by
  refine ⟨?_, fun name v => ?_⟩
  · have hnames : (given record).map Prod.fst = writtenNames record.type := by
      rw [given, List.map_map]
      exact map_writtenValues record (·.name)
    rw [hnames]
    exact nodup_writtenNames hd ht
  · simp only [given, writtenValues, List.mem_map, List.mem_filter, Prod.mk.injEq]
    constructor
    · rintro ⟨⟨a, v⟩, ⟨hmem, hwritten⟩, rfl, rfl⟩
      obtain ⟨i, hi⟩ := List.mem_iff_getElem?.mp hmem
      obtain ⟨ha, hv⟩ := List.getElem?_zip_eq_some.mp hi
      exact ⟨i, a, (isWritten_iff hd ht ha).mp hwritten, rfl, hv⟩
    · rintro ⟨i, a, ha, rfl, hv⟩
      have hzip : (record.type.attributes.zip record.values)[i]? = some (a, v) :=
        List.getElem?_zip_eq_some.mpr ⟨ha.getElem?, hv⟩
      have hwritten := (isWritten_iff hd ht ha.getElem?).mpr ha
      exact ⟨(a, v), ⟨List.mem_of_getElem? hzip, hwritten⟩, rfl, rfl⟩

/-- There is a value at the position of every attribute, in a list of the right length. -/
theorem exists_value {t : RecordType} {vs : List Value} (hvs : vs.length = t.attributes.length)
    (ha : t.attributes[i]? = some a) : ∃ v, vs[i]? = some v := by
  have hlt := (List.getElem?_eq_some_iff.mp ha).1
  exact ⟨_, List.getElem?_eq_getElem (hvs ▸ hlt)⟩

/-- A column that is written has the value of the record, found by its name. -/
theorem lookup_given_of_chosen (hd : Registry.ofDocument d = .ok r) (ht : record.type ∈ r.types)
    (ha : record.type.Chosen i a) : (given record).lookup a.name = record.values[i]? := by
  have hassigns := assigns_given hd ht
  obtain ⟨v, hv⟩ := exists_value record.length_values ha.getElem?
  rw [hv]
  exact (Lists.lookup_eq_some_iff_of_nodup hassigns.nodup).mpr
    ((hassigns.mem_iff _ _).mpr ⟨i, a, ha, rfl, hv⟩)

/-- A column that is not written has no value, and keeps what the database has for it. -/
theorem lookup_given_of_not_chosen (hd : Registry.ofDocument d = .ok r)
    (ht : record.type ∈ r.types) (ha : record.type.attributes[i]? = some a)
    (hnot : ¬record.type.Chosen i a) : (given record).lookup a.name = none := by
  have hassigns := assigns_given hd ht
  refine Option.eq_none_iff_forall_ne_some.mpr fun v hv => hnot ?_
  have hmem := (Lists.lookup_eq_some_iff_of_nodup hassigns.nodup).mp hv
  obtain ⟨j, b, hb, hname, -⟩ := (hassigns.mem_iff _ _).mp hmem
  -- attributes with one name are the same
  have hnodup := Registry.nodup_attributes hd ht
  obtain rfl := RecordType.position_eq_of_name hnodup hb.getElem? ha hname
  obtain rfl := Option.some.inj (hb.getElem?.symm.trans ha)
  exact hb

/-! ### Rows -/

theorem getElem?_newValues {t : RecordType} (ha : t.attributes[i]? = some a)
    (assigned : List (String × Value)) (id : Int) :
    (newValues t assigned id)[i]? =
      some ((assigned.lookup a.name).getD (if a.isIdentity then .integer id else .null)) := by
  rw [newValues, List.getElem?_map, ha]
  rfl

theorem getElem?_writtenOver {t : RecordType} (ha : t.attributes[i]? = some a)
    (assigned : List (String × Value)) {stored : List Value} {v : Value}
    (hv : stored[i]? = some v) :
    (writtenOver t assigned stored)[i]? = some ((assigned.lookup a.name).getD v) := by
  have hzip : (t.attributes.zip stored)[i]? = some (a, v) :=
    List.getElem?_zip_eq_some.mpr ⟨ha, hv⟩
  rw [writtenOver, List.getElem?_map, hzip]
  rfl

/-- Rows are the same if they are at every attribute. -/
theorem eq_of_attributes {t : RecordType} {vs ws : List Value}
    (hvs : vs.length = t.attributes.length) (hws : ws.length = t.attributes.length)
    (h : ∀ (i : Nat) (a : Attribute), t.attributes[i]? = some a → vs[i]? = ws[i]?) : vs = ws := by
  refine List.ext_getElem? fun i => ?_
  rcases Nat.lt_or_ge i t.attributes.length with hi | hi
  · exact h i _ (List.getElem?_eq_getElem hi)
  · rw [List.getElem?_eq_none (hvs ▸ hi), List.getElem?_eq_none (hws ▸ hi)]

/-- The values that a new row has are the same in the database and in memory, attribute by
attribute: chosen ones come from the record, the identity is given, and binary content is `null`. -/
theorem newValues_given (hd : Registry.ofDocument d = .ok r) (ht : record.type ∈ r.types)
    (id : Int) : newValues record.type (given record) id = freshValues record id := by
  refine eq_of_attributes (t := record.type) (by simp [newValues])
    (by simp [freshValues, record.length_values]) fun i a ha => ?_
  rw [getElem?_newValues ha]
  by_cases hchosen : record.type.Chosen i a
  · obtain ⟨v, hv⟩ := exists_value record.length_values ha
    rw [lookup_given_of_chosen hd ht hchosen, getElem?_freshValues ha hchosen.ne_identity.symm,
      if_neg hchosen.ne_blob, hv]
    rfl
  · rw [lookup_given_of_not_chosen hd ht ha hchosen, Option.getD_none]
    by_cases hidentity : i = record.type.identity
    · have hlt := (List.getElem?_eq_some_iff.mp ha).1
      rw [if_pos ((Registry.isIdentity_iff hd ht ha).mpr hidentity)]
      subst hidentity
      simp [freshValues, record.length_values, hlt]
    · have hblob : a.kind = .blob := by_contra fun hkind => hchosen ⟨ha, hidentity, hkind⟩
      rw [if_neg (mt (Registry.isIdentity_iff hd ht ha).mp hidentity),
        getElem?_freshValues ha (Ne.symm hidentity), if_pos hblob]

/-- The values that a stored row has after an update are the same in the database and in memory. The
identity is not written, and the record has that of the row. -/
theorem writtenOver_given (hd : Registry.ofDocument d = .ok r) (ht : record.type ∈ r.types)
    {id : Int} (hid : record.id = some id) {row : Row} (hrow : row.Consistent record.type id) :
    writtenOver record.type (given record) row.values =
      mergedValues record.type row.values record.values := by
  have hlength := hrow.length_values
  refine eq_of_attributes (t := record.type) (by simp [writtenOver, hlength])
    (by simp [mergedValues, hlength, record.length_values]) fun i a ha => ?_
  obtain ⟨old, hold⟩ := exists_value hlength ha
  rw [getElem?_writtenOver ha _ hold, getElem?_mergedValues ha hlength record.length_values]
  by_cases hchosen : record.type.Chosen i a
  · obtain ⟨v, hv⟩ := exists_value record.length_values ha
    rw [lookup_given_of_chosen hd ht hchosen, if_neg hchosen.ne_blob, hv]
    rfl
  · rw [lookup_given_of_not_chosen hd ht ha hchosen, Option.getD_none]
    split
    · exact hold.symm
    · next hkind =>
      -- the identity is not written, and the record has the one of the row
      obtain rfl : i = record.type.identity :=
        by_contra fun hidentity => hchosen ⟨ha, hidentity, hkind⟩
      rw [← hold, hrow.identity, getElem?_of_id hid]

/-- The rows that a statement for an identity is about are those with this identity. In a consistent
table the identity that a row shows is the one it is stored under. -/
theorem withRowsWritten_eq_modify {t : RecordType} {n : Nat} {table : Table}
    (h : table.Consistent t n) (assigned : List (String × Value)) (id : Int) :
    withRowsWritten t table assigned t.identity (.integer id) =
      table.modify id fun row => { row with values := writtenOver t assigned row.values } := by
  unfold withRowsWritten Table.modify
  congr 1
  refine List.map_congr_left fun (k, row) hmem => ?_
  have hidentity := (h.rows k row hmem).2.2.identity
  have hequal : (Value.compare (.integer id) (.integer k) = some .eq) ↔ k = id := by
    rw [Value.compare, Option.some.injEq, Int.compare_eq_eq, eq_comm]
  simp only [hidentity, Option.bind_some, hequal]

/-! ### Tables -/

/-- Whether `w` is what the statement for a new record writes, and leaves the table that the store
in memory has. -/
structure InsertsAlike (m : Memory) (record : Record) (assigned : List (String × Value))
    (w : Write) : Prop where
  reading : ∀ w', HasWrite (insert record) w' ↔ w' = w
  defaults_iff : w = .insertDefaults (nameOf record.type) ↔ assigned = []
  assigns : w.assigned? record.type (insert record).arguments = some assigned
  table : w.table? record.type (insert record).arguments (m.nextId record.type)
    (m.table record.type.name) = some ((m.insert record).2.table record.type.name)

/-- Whether `w` is what the statement for a stored record writes. It writes over the row with the
identity, and if the identity is that of the record, it leaves the table that the store in memory
has. -/
structure UpdatesAlike (m : Memory) (record : Record) (id : Int) (assigned : List (String × Value))
    (w : Write) : Prop where
  reading : ∀ w', HasWrite (update record id) w' ↔ w' = w
  nothing_iff : w = .nothing ↔ assigned = []
  /-- The identity is compared with the last argument. -/
  key : assigned ≠ [] → (update record id).arguments.getLast? = some (identityArgument id) ∧
    ∃ ws, w = .update (nameOf record.type) ws Schema.identityName
      (update record id).arguments.length
  assigns : w.assigned? record.type (update record id).arguments = some assigned
  rows : ∀ next, w.table? record.type (update record id).arguments next (m.table record.type.name) =
    some ((m.table record.type.name).modify id fun row =>
      { row with values := writtenOver record.type assigned row.values })
  stored : record.id = some id → ∀ next,
    w.table? record.type (update record id).arguments next (m.table record.type.name) =
      some (((RecordStore.update (m := StateM Memory) record).run.run m).2.table record.type.name)

theorem given_eq_nil_iff (record : Record) :
    given record = [] ↔ (writtenAttributes record.type).isEmpty := by
  rw [given, List.map_eq_nil_iff, ← map_fst_writtenValues, List.isEmpty_map, List.isEmpty_iff]

variable {n : Nat} {m : Memory} {id : Int}

theorem hasWrite_insert_iff (hr : r.Resolved) (ht : record.type ∈ r.types) (w : Write) :
    HasWrite (insert record) w ↔ w = insertion record.type := by
  obtain ⟨a, ha, -⟩ := hr.identity record.type ht
  have hne : record.type.attributes ≠ [] := List.ne_nil_of_mem (List.mem_of_getElem? ha)
  have hread : HasWrite (insert record) (insertion record.type) :=
    ⟨_, (spells_insert record).scan, writes_insertLexemes hne⟩
  exact ⟨fun h => h.unique hread, fun h => h ▸ hread⟩

theorem hasWrite_update_iff (hr : r.Resolved) (ht : record.type ∈ r.types) (id : Int) (w : Write) :
    HasWrite (update record id) w ↔ w = replacement record.type := by
  obtain ⟨a, ha, -⟩ := hr.identity record.type ht
  have hne : record.type.attributes ≠ [] := List.ne_nil_of_mem (List.mem_of_getElem? ha)
  have hread : HasWrite (update record id) (replacement record.type) :=
    ⟨_, (spells_update record id).scan, writes_updateLexemes hne⟩
  exact ⟨fun h => h.unique hread, fun h => h ▸ hread⟩

theorem assigned?_insertion (hd : Registry.ofDocument d = .ok r) (ht : record.type ∈ r.types) :
    (insertion record.type).assigned? record.type (insert record).arguments =
      some (given record) := by
  have hassigned := assigned?_assignments hd ht []
  rw [List.append_nil, ← arguments_insert] at hassigned
  unfold insertion
  split
  · next hempty => simp [Write.assigned?, (given_eq_nil_iff record).mpr hempty]
  · simp only [Write.assigned?, nodup_assignments hd ht, and_self, if_true, hassigned]

theorem assigned?_replacement (hd : Registry.ofDocument d = .ok r) (ht : record.type ∈ r.types)
    (id : Int) :
    (replacement record.type).assigned? record.type (update record id).arguments =
      some (given record) := by
  have hassigned := assigned?_assignments hd ht [identityArgument id]
  rw [← arguments_update] at hassigned
  unfold replacement
  split
  · next hempty => simp [Write.assigned?, (given_eq_nil_iff record).mpr hempty]
  · simp only [Write.assigned?, nodup_assignments hd ht, and_self, if_true, hassigned]

/-- **A new record** comes to the same table, if the database gives the identity that is next in
memory. -/
theorem insertsAlike (hd : Registry.ofDocument d = .ok r) (ht : record.type ∈ r.types)
    (m : Memory) : InsertsAlike m record (given record) (insertion record.type) := by
  have hassigned := assigned?_insertion hd ht
  refine ⟨hasWrite_insert_iff (Registry.resolved_of_ofDocument hd) ht, ?_, hassigned, ?_⟩
  · rw [given_eq_nil_iff, insertion]
    split <;> simp_all
  · have hrow : withNewRow record.type (m.table record.type.name) (given record)
        (m.nextId record.type) = (m.insert record).2.table record.type.name := by
      rw [withNewRow, newValues_given hd ht, Memory.insert, table_withTable, if_pos rfl]
      rfl
    rw [Write.table?, hassigned, ← hrow]
    by_cases hempty : (writtenAttributes record.type).isEmpty
    · have hdefaults : insertion record.type = .insertDefaults (nameOf record.type) := if_pos hempty
      rw [hdefaults]
      rfl
    · have hinsert : insertion record.type =
          .insert (nameOf record.type) (assignments record.type) := if_neg hempty
      rw [hinsert]
      rfl

/-- Nothing is written over by no values. -/
theorem writtenOver_nil {t : RecordType} {row : Row} (h : row.Consistent t id) :
    writtenOver t [] row.values = row.values := by
  have hlength : t.attributes.length = row.values.length := h.length_values.symm
  simp [writtenOver, List.map_snd_zip, hlength]

/-- The statement for a stored record writes over the row with its identity, and over no other. -/
theorem table?_replacement (hd : Registry.ofDocument d = .ok r) (h : m.Consistent r n)
    (ht : record.type ∈ r.types) (id next : Int) :
    (replacement record.type).table? record.type (update record id).arguments next
        (m.table record.type.name) =
      some ((m.table record.type.name).modify id fun row =>
        { row with values := writtenOver record.type (given record) row.values }) := by
  have htable := h.table (Registry.resolved_of_ofDocument hd) ht
  have hassigned := assigned?_replacement hd ht id
  rw [Write.table?, hassigned]
  by_cases hempty : (writtenAttributes record.type).isEmpty
  · have hnothing : replacement record.type = .nothing := if_pos hempty
    rw [hnothing, (given_eq_nil_iff record).mpr hempty, Table.modify_eq_self]
    · rfl
    · intro row hrow
      rw [writtenOver_nil (htable.rows id row hrow).2.2]
  · have hupdate : replacement record.type = .update (nameOf record.type) (assignments record.type)
        Schema.identityName ((writtenAttributes record.type).length + 1) := if_neg hempty
    have hkey : argument? (update record id).arguments
        ((writtenAttributes record.type).length + 1) = some (.value (.integer id)) := by
      rw [arguments_update, ← length_writtenValues]
      simp [argument?, identityArgument]
    rw [hupdate, ← withRowsWritten_eq_modify htable]
    simp [Registry.index?_identity hd ht, hkey]

/-- The store in memory writes over the same row, or over none if there is none. -/
theorem table_update (hd : Registry.ofDocument d = .ok r) (h : m.Consistent r n)
    (ht : record.type ∈ r.types) (hid : record.id = some id) :
    ((RecordStore.update (m := StateM Memory) record).run.run m).2.table record.type.name =
      (m.table record.type.name).modify id fun row =>
        { row with values := writtenOver record.type (given record) row.values } := by
  have htable := h.table (Registry.resolved_of_ofDocument hd) ht
  change ((change fun m => m.update record).run.run m).2.table record.type.name = _
  cases hm : m.update record with
  | error e =>
    rw [run_change_of_error hm, Table.modify_eq_self]
    intro row hrow
    have hfound : m.row? record.type id = some row := htable.row?_eq_some_iff.mpr hrow
    simp [Memory.update, hid, hfound] at hm
  | ok p =>
    obtain ⟨stored, m'⟩ := p
    rw [run_change_of_ok hm]
    obtain ⟨k, old, hk, hold, rfl⟩ := update_eq_ok hm
    obtain rfl := Option.some.inj (hid.symm.trans hk)
    rw [table_withTable, if_pos rfl]
    refine Table.modify_congr fun row hrow => ?_
    obtain rfl := Option.some.inj (hold.symm.trans (htable.row?_eq_some_iff.mpr hrow))
    rw [writtenOver_given hd ht hid (htable.rows id old hrow).2.2]

/-- **A stored record** comes to the same table, and where it is not stored, neither of the two
changes anything. -/
theorem updatesAlike (hd : Registry.ofDocument d = .ok r) (h : m.Consistent r n)
    (ht : record.type ∈ r.types) (id : Int) :
    UpdatesAlike m record id (given record) (replacement record.type) where
  reading := hasWrite_update_iff (Registry.resolved_of_ofDocument hd) ht id
  nothing_iff := by
    rw [given_eq_nil_iff, replacement]
    split <;> simp_all
  key hne := by
    have hempty := mt (given_eq_nil_iff record).mpr hne
    refine ⟨by simp [arguments_update], assignments record.type, ?_⟩
    simp [replacement, hempty, arguments_update, length_writtenValues]
  assigns := assigned?_replacement hd ht id
  rows := table?_replacement hd h ht id
  stored hid next := by rw [table?_replacement hd h ht id next, table_update hd h ht hid]

end

/-- **Records mean the same in statements.** Of every record, the statements assign the values of
all attributes but the identity and binary content, each of them once. The one for a new record
leaves the table that the store in memory has with the new record, if the same identity is given.
The one for a stored record writes over the row with its identity, as the store in memory does.
Where there is nothing to write, the first one relies on default values, and the second one only
reads. -/
theorem written_as_stored {d : Schema.Document} {r : Registry} (hd : Registry.ofDocument d = .ok r)
    {calls : List Call} (hcalls : ∀ c ∈ calls, c.UsesTypesOf r) (record : Record)
    (ht : record.type ∈ r.types) :
    ∃ assigned, Assigns record assigned ∧
      (∃ w, InsertsAlike (Memory.run calls).memory record assigned w) ∧
      ∀ id, ∃ w, UpdatesAlike (Memory.run calls).memory record id assigned w := by
  have hm := (invariant_run (Registry.resolved_of_ofDocument hd) hcalls).memory
  exact ⟨given record, assigns_given hd ht, ⟨_, insertsAlike hd ht _⟩,
    fun id => ⟨_, updatesAlike hd hm ht id⟩⟩

/-- A print that claims seven bytes of content is written over the one that is stored, and as a new
one. The content is not written, and the new print gets another identity. -/
theorem written_as_stored_print :
    let record : Record :=
      ⟨print, [.integer 1, .text "Sea", .null, .blob 7, .text "sea.png"], rfl⟩
    let calls : List Call := [.insert ⟨print, [.null, .text "Sky", .null, .null, .null], rfl⟩]
    let table := (Memory.run calls).memory.table "Print"
    Registry.ofDocument gallery = .ok ⟨[print]⟩ ∧ (∀ c ∈ calls, c.UsesTypesOf ⟨[print]⟩) ∧
      (∃ w after, (∀ w', HasWrite (update record 1) w' ↔ w' = w) ∧
        w.table? print (update record 1).arguments 2 table = some after ∧
        after.rows.map (·.2.values) =
          [[.integer 1, .text "Sea", .null, .null, .text "sea.png"]]) ∧
      ∃ w after, (∀ w', HasWrite (insert record) w' ↔ w' = w) ∧
        w.table? print (insert record).arguments 2 table = some after ∧
        after.rows.map (·.2.values) =
          [[.integer 1, .text "Sky", .null, .null, .null],
            [.integer 2, .text "Sea", .null, .null, .text "sea.png"]] := by
  intro record calls table
  have hgallery : Registry.ofDocument gallery = .ok ⟨[print]⟩ := rfl
  have hcalls : ∀ c ∈ calls, c.UsesTypesOf ⟨[print]⟩ := by
    simp [calls, Call.UsesTypesOf]
  obtain ⟨assigned, -, ⟨w, hinsert⟩, hupdates⟩ :=
    written_as_stored hgallery hcalls record (List.mem_singleton_self _)
  obtain ⟨w', hupdate⟩ := hupdates 1
  exact ⟨hgallery, hcalls, ⟨w', _, hupdate.reading, hupdate.stored rfl 2, rfl⟩,
    ⟨w, _, hinsert.reading, hinsert.table, rfl⟩⟩

end RecordService.Sql.Reading
