import RecordService.Http.Entities
import RecordService.Proofs.Store.Run
import RecordService.Proofs.Store.Transfer
import RecordService.Proofs.Text.Utf8

/-!
# The disposition of a download

The header that proposes a file name puts it between quotes. A client reads it by the grammar of
quoted strings, where a quote ends the string and a backslash stands for the character behind it. A
sanitized name brings neither quotes nor controls, so the only quote behind it is the closing one. But
backslashes stay, so what is read is the name without its escapes: exactly the names without a
backslash are read as they are, and a name that ends within an escape leaves the string open
(`RecordService.Content.read_disposition_iff`).

No name makes a header that cannot be sent, since the bytes of characters that are no controls are
none either (`RecordService.Content.disposition_is_headerValue`).

* `RecordService.Http.Disposition.read?`: the disposition that a header names.
* `RecordService.Http.Disposition.unescape`: what the inside of a quoted string stands for.
* `RecordService.Http.isHeaderByte`: the bytes of the values of headers.
* `RecordService.Http.Entities.downloadContentWith`: a download that checks the value of its header.
-/

namespace RecordService

namespace Http

/-- How a client is to treat a body. -/
structure Disposition where
  type : String
  /-- The parameters by name, in order. -/
  parameters : List (String × String)
deriving DecidableEq

namespace Disposition

/-! ### The grammar -/

/-- The blanks between the parts of a header. -/
def isSpace (c : Char) : Bool := c == ' ' || c == '\t'

/-- The rest of a quoted string behind its opening quote: the text that it stands for, and what is
behind its closing quote. A backslash stands for the character behind it, which may be a quote. -/
def readQuoted : List Char → Option (List Char × List Char)
  | [] => none
  | '"' :: s => some ([], s)
  | '\\' :: s =>
    match s with
    | [] => none
    | c :: s => (readQuoted s).map fun (text, r) => (c :: text, r)
  | c :: s => (readQuoted s).map fun (text, r) => (c :: text, r)

/-- A quoted string takes up at least its closing quote, which is why the reader of parameters comes
to an end. -/
theorem length_readQuoted {s text r : List Char} (h : readQuoted s = some (text, r)) :
    r.length < s.length := by
  fun_induction readQuoted s generalizing text r with
  | case1 => simp at h
  | case2 s =>
    cases h
    simp
  | case3 => simp at h
  | case4 c s ih =>
    obtain ⟨p, hp, h⟩ := Option.map_eq_some_iff.mp h
    cases h
    have := ih hp
    simp only [List.length_cons]
    omega
  | case5 c s _ _ ih =>
    obtain ⟨p, hp, h⟩ := Option.map_eq_some_iff.mp h
    cases h
    have := ih hp
    simp only [List.length_cons]
    omega

/-- The value of a parameter and what is behind it: a quoted string, or a word without quotes. -/
def readValue : List Char → Option (List Char × List Char)
  | '"' :: s => readQuoted s
  | s =>
    if (s.takeWhile MediaType.isToken).isEmpty then none
    else some (s.takeWhile MediaType.isToken, s.dropWhile MediaType.isToken)

/-- Reading a value adds no characters, for the same reason. -/
theorem length_readValue {s value r : List Char} (h : readValue s = some (value, r)) :
    r.length ≤ s.length := by
  unfold readValue at h
  split at h
  · have := length_readQuoted h
    simp only [List.length_cons]
    omega
  · split at h
    · simp at h
    · cases h
      exact (List.dropWhile_suffix MediaType.isToken).length_le

/-- The parameters behind a type, each with a semicolon in front of it. -/
def readParameters (s : List Char) : Option (List (String × String)) :=
  if s.isEmpty then some []
  else
    match _hs : s.dropWhile isSpace with
    | ';' :: t =>
      let named := t.dropWhile isSpace
      let name := named.takeWhile MediaType.isToken
      match _hn : named.dropWhile MediaType.isToken with
      | '=' :: v =>
        if name.isEmpty then none
        else
          match _hv : readValue v with
          | some (value, rest) =>
            ((String.ofList name, String.ofList value) :: ·) <$> readParameters rest
          | none => none
      | _ => none
    | _ => none
termination_by s.length
decreasing_by
  have h₁ := (List.dropWhile_suffix isSpace (l := s)).length_le
  have h₂ := (List.dropWhile_suffix isSpace (l := t)).length_le
  have h₃ := (List.dropWhile_suffix MediaType.isToken (l := t.dropWhile isSpace)).length_le
  have h₄ := length_readValue _hv
  rw [_hs] at h₁
  rw [_hn] at h₃
  simp only [List.length_cons] at h₁ h₃
  omega

/-- The disposition that a header names. -/
def read? (header : String) : Option Disposition :=
  let type := header.toList.takeWhile MediaType.isToken
  if type.isEmpty then none
  else
    (readParameters (header.toList.dropWhile MediaType.isToken)).map (⟨String.ofList type, ·⟩)

/-! ### Names between quotes -/

/-- What the inside of a quoted string stands for, unless it ends within an escape. -/
def unescape : List Char → Option (List Char)
  | [] => some []
  | '\\' :: s =>
    match s with
    | [] => none
    | c :: s => (c :: ·) <$> unescape s
  | c :: s => (c :: ·) <$> unescape s

/-- A text without quotes is the inside of a quoted string up to the quote behind it, except that a
backslash takes the next character with it. If this is the quote, the string does not end there. -/
theorem readQuoted_append {s : List Char} (h : '"' ∉ s) :
    readQuoted (s ++ ['"']) = (unescape s).map (·, []) := by
  fun_induction unescape s with
  | case1 => rfl
  | case2 => rfl
  | case3 c s ih =>
    simp only [List.mem_cons, not_or] at h
    simp only [List.cons_append, readQuoted, ih h.2.2]
    cases unescape s <;> rfl
  | case4 c s hc ih =>
    simp only [List.mem_cons, not_or] at h
    have hquote : c ≠ '"' := Ne.symm h.1
    simp only [List.cons_append, readQuoted, ih h.2]
    cases unescape s <;> rfl

/-- Every escape makes a text shorter, so a text that keeps its length has none. -/
theorem length_unescape {s text : List Char} (h : unescape s = some text) :
    text.length ≤ s.length ∧ (text.length = s.length → '\\' ∉ s) := by
  fun_induction unescape s generalizing text with
  | case1 =>
    cases h
    simp
  | case2 => simp at h
  | case3 c s ih =>
    obtain ⟨rest, hrest, rfl⟩ := Option.map_eq_some_iff.mp h
    have := (ih hrest).1
    simp only [List.length_cons]
    omega
  | case4 c s hc ih =>
    obtain ⟨rest, hrest, rfl⟩ := Option.map_eq_some_iff.mp h
    obtain ⟨hle, hnone⟩ := ih hrest
    refine ⟨Nat.succ_le_succ hle, fun heq => ?_⟩
    have := hnone (Nat.succ.inj heq)
    simp [this, Ne.symm hc]

/-- **What stands for itself** between quotes: the texts without a backslash. -/
theorem unescape_eq_self_iff {s : List Char} : unescape s = some s ↔ '\\' ∉ s := by
  refine ⟨fun h => (length_unescape h).2 rfl, fun h => ?_⟩
  fun_induction unescape s with
  | case1 => rfl
  | case2 => simp at h
  | case3 => simp at h
  | case4 c s hc ih =>
    rw [ih fun hm => h (List.mem_cons_of_mem c hm)]
    rfl

/-- A word ends where a character follows that belongs to no word. -/
theorem takeWhile_word {w r : List Char} {c : Char} (hw : w.all MediaType.isToken)
    (hc : MediaType.isToken c = false) :
    (w ++ c :: r).takeWhile MediaType.isToken = w ∧
      (w ++ c :: r).dropWhile MediaType.isToken = c :: r :=
  Lists.takeWhile_dropWhile_append (List.all_eq_true.mp hw) fun _ hd => Option.some.inj hd ▸ hc

/-- A parameter behind a semicolon and a blank. -/
theorem readParameters_cons {w v : List Char} (hne : w ≠ [])
    (hw : w.all MediaType.isToken) :
    readParameters (';' :: ' ' :: (w ++ '=' :: v)) = (readValue v).bind fun (value, rest) =>
      ((String.ofList w, String.ofList value) :: ·) <$> readParameters rest := by
  have hstart : (w ++ '=' :: v).dropWhile isSpace = w ++ '=' :: v := by
    obtain ⟨c, cs, rfl⟩ := List.exists_cons_of_ne_nil hne
    have hc : MediaType.isToken c := List.all_eq_true.mp hw c List.mem_cons_self
    refine List.dropWhile_cons_of_neg fun hspace => ?_
    simp only [isSpace, Bool.or_eq_true, beq_iff_eq] at hspace
    rcases hspace with rfl | rfl <;> exact absurd hc (by decide)
  have hskip : (' ' :: (w ++ '=' :: v)).dropWhile isSpace = w ++ '=' :: v :=
    (List.dropWhile_cons_of_pos (by decide)).trans hstart
  obtain ⟨htake, hdrop⟩ := takeWhile_word (r := v) hw (show MediaType.isToken '=' = false by decide)
  rw [readParameters, if_neg (by simp)]
  split
  · next t ht =>
    obtain rfl : ' ' :: (w ++ '=' :: v) = t := (List.cons.inj ht).2
    dsimp only
    split
    · next u hu =>
      obtain rfl : v = u := by
        rw [hskip, hdrop] at hu
        exact (List.cons.inj hu).2
      rw [hskip, htake, if_neg (by simpa using hne)]
      split
      · next value rest hvalue => rw [hvalue, Option.bind_some]
      · next hvalue => rw [hvalue, Option.bind_none]
    · next hother => exact absurd (by rw [hskip, hdrop]) (hother v)
  · next hother => exact absurd rfl (hother _)

/-- A name without quotes is the only parameter, and its closing quote is the last character. -/
theorem read?_disposition {name : String} (h : '"' ∉ name.toList) :
    read? (Content.disposition (some name)) =
      (unescape name.toList).map fun text => ⟨"attachment", [("filename", String.ofList text)]⟩ := by
  have hlead : "attachment; filename=\"".toList =
      "attachment".toList ++ ';' :: ' ' :: ("filename".toList ++ ['=', '"']) := by decide
  have hquote : "\"".toList = ['"'] := by decide
  have htext : (Content.disposition (some name)).toList = "attachment".toList ++
      ';' :: ' ' :: ("filename".toList ++ '=' :: '"' :: (name.toList ++ ['"'])) := by
    have hparts : Content.disposition (some name) = "attachment; filename=\"" ++ name ++ "\"" := rfl
    rw [hparts, String.toList_append, String.toList_append, hlead, hquote]
    simp only [List.append_assoc, List.cons_append, List.nil_append]
  obtain ⟨htake, hdrop⟩ := takeWhile_word (w := "attachment".toList) (c := ';')
    (r := ' ' :: ("filename".toList ++ '=' :: '"' :: (name.toList ++ ['"']))) (by decide)
    (by decide)
  have hvalue : readValue ('"' :: (name.toList ++ ['"'])) =
      (unescape name.toList).map (·, []) := readQuoted_append h
  have hend : readParameters [] = some [] := by
    rw [readParameters]
    rfl
  rw [read?, htext, htake, hdrop, readParameters_cons (by decide) (by decide), hvalue]
  cases unescape name.toList with
  | none => rfl
  | some text => simp [hend]

end Disposition

/-! ### The values of headers -/

/-- Whether a byte may stand in the value of a header: tabs, and all but the controls and delete. -/
def isHeaderByte (b : UInt8) : Bool := 0x20 ≤ b && b != 0x7F || b == 0x09

namespace Entities

variable {m : Type → Type} [Monad m] [RecordStore m]

/-- Hands out the content of a property if `headerValue` takes its disposition for the value of a
header. -/
def downloadContentWith (headerValue : String → Except String String) (reg : Registry) (a : Address)
    (property : String) : ExceptT RequestError m Response := do
  let r ← load reg a
  match ← Content.download r (← Path.resolve r.type property) with
  | none => return .bare 204
  | some (source, fileName) =>
    match headerValue (Content.disposition fileName) with
    | .error text => throw (.badRequest ("unusable filename: " ++ text))
    | .ok disposition =>
      let content ← ExceptT.lift (RecordStore.drain source).run
      return {
        status := 200
        contentType := some "application/octet-stream"
        disposition := some disposition
        body := match content with
          | .ok bytes => .content bytes
          | .error _ => .broken }

/-- The names of downloads are those that records bring. So what is known of these names may be used
behind a download, though a download has an operation of the store in it. -/
theorem bind_download_congr [LawfulMonad m] {r : Record} {p : Path}
    {k k' : Option (RecordStore.Source m × Option String) → ExceptT RequestError m Response}
    (hnone : k none = k' none)
    (hsome : ∀ source a, k (some (source, Content.fileName r a)) =
      k' (some (source, Content.fileName r a))) :
    Content.download r p >>= k = Content.download r p >>= k' := by
  simp only [Content.download, bind_assoc, pure_bind]
  refine bind_congr fun found => bind_congr fun source => ?_
  cases source with
  | none => exact hnone
  | some source => exact hsome source found.1

/-- **No name is refused** if all dispositions of records are values of headers. -/
theorem downloadContentWith_eq [LawfulMonad m] {headerValue : String → Except String String}
    (h : ∀ x a, headerValue (Content.disposition (Content.fileName x a)) =
      .ok (Content.disposition (Content.fileName x a))) (reg : Registry) (a : Address)
    (property : String) :
    downloadContentWith (m := m) headerValue reg a property = downloadContent reg a property := by
  refine bind_congr fun r => bind_congr fun p => bind_download_congr rfl fun source a => ?_
  have hvalue := h r a
  dsimp only
  generalize headerValue (Content.disposition (Content.fileName r a)) = value at hvalue ⊢
  subst hvalue
  rfl

end Entities

end Http

namespace Content

open Http

variable {x : Record} {a : Attribute} {sidecar s : String}

/-- A sanitized name has no quote, which would end the quoted string too early. -/
theorem not_mem_sanitize (s : String) : '"' ∉ (sanitize s).toList := by
  simp [sanitize]

/-- Of all other characters exactly the controls are left out. -/
theorem mem_sanitize_iff {c : Char} (hquote : c ≠ '"') (hcontrol : Text.isControl c = false) :
    c ∈ (sanitize s).toList ↔ c ∈ s.toList := by
  simp [sanitize, hquote, hcontrol]

/-- The name of a download is the sanitized text of the sidecar, if there is any text. -/
theorem fileName_of_text (ha : a.sidecar = some sidecar) (hs : x.get? sidecar = some (.text s))
    (hne : s ≠ "") : fileName x a = some (sanitize s) :=
  fileName_eq_some_iff.mpr ⟨sidecar, s, ha, hs, by simpa using hne, rfl⟩

/-- **What a client reads of the name of a download**: an attachment with nothing but a file name,
whose closing quote is the last character of the header. The name is that of the store, sanitized and
without its escapes, so it is the sanitized one exactly if the stored one has no backslash. If a
backslash remains for the closing quote, the header cannot be read. -/
theorem read_disposition_iff (ha : a.sidecar = some sidecar)
    (hs : x.get? sidecar = some (.text s)) (hne : s ≠ "") :
    Disposition.read? (disposition (fileName x a)) =
        ((Disposition.unescape (sanitize s).toList).map fun text =>
          ⟨"attachment", [("filename", String.ofList text)]⟩) ∧
      (Disposition.read? (disposition (fileName x a)) =
          some ⟨"attachment", [("filename", sanitize s)]⟩ ↔ '\\' ∉ s.toList) := by
  have hread : Disposition.read? (disposition (fileName x a)) =
      (Disposition.unescape (sanitize s).toList).map fun text =>
        ⟨"attachment", [("filename", String.ofList text)]⟩ := by
    rw [fileName_of_text ha hs hne]
    exact Disposition.read?_disposition (not_mem_sanitize s)
  refine ⟨hread, ?_⟩
  rw [hread, ← mem_sanitize_iff (by decide) (by decide), ← Disposition.unescape_eq_self_iff]
  constructor
  · intro h
    obtain ⟨text, htext, h⟩ := Option.map_eq_some_iff.mp h
    have hname : String.ofList text = sanitize s := by simpa using h
    rw [htext, ← hname, String.toList_ofList]
  · intro h
    rw [h, Option.map_some, String.ofList_toList]

/-- A photo with a file name. -/
def named (name : String) : Record := ⟨Memory.photo, [.integer 2, .blob 1, .text name], rfl⟩

/-- The picture of a photo, whose file name is kept beside it. -/
def picture : Attribute :=
  { name := "Picture", kind := .blob, nullable := true, sidecar := "PictureFileName", target := none }

/-- Quotes and line breaks are left out. -/
theorem read_disposition_photo :
    Disposition.read? (disposition (fileName (named "my \"best\"\r\n.png") picture)) =
      some ⟨"attachment", [("filename", "my best.png")]⟩ :=
  (read_disposition_iff (x := named "my \"best\"\r\n.png") (a := picture) rfl rfl (by decide)).2.mpr
    (by decide)

/-- **A name that ends with a backslash** takes the closing quote for its own. -/
theorem backslash_leaves_quotes_open :
    disposition (fileName (named "a\\") picture) = "attachment; filename=\"a\\\"" ∧
      Disposition.read? (disposition (fileName (named "a\\") picture)) = none := by
  have hname : fileName (named "a\\") picture = some "a\\" := rfl
  rw [hname]
  exact ⟨rfl, Disposition.read?_disposition (by decide)⟩

/-! ### Bytes -/

/-- What a sanitized name brings into a header is no control. -/
theorem isControl_of_mem_disposition {c : Char}
    (h : c ∈ (disposition (fileName x a)).toList) : Text.isControl c = false := by
  have hlead : "attachment; filename=\"".toList.all (!Text.isControl ·) := by decide
  have hbare : "attachment".toList.all (!Text.isControl ·) := by decide
  have hquote : "\"".toList.all (!Text.isControl ·) := by decide
  simp only [List.all_eq_true, Bool.not_eq_true'] at hlead hbare hquote
  cases hname : fileName x a with
  | none =>
    rw [hname] at h
    exact hbare c h
  | some name =>
    obtain ⟨_, s, -, -, -, rfl⟩ := fileName_eq_some_iff.mp hname
    have hparts : disposition (some (sanitize s)) =
      "attachment; filename=\"" ++ sanitize s ++ "\"" := rfl
    rw [hname, hparts, String.toList_append, String.toList_append, List.mem_append,
      List.mem_append] at h
    rcases h with (h | h) | h
    · exact hlead c h
    · simp only [sanitize, String.toList_ofList, List.mem_filter, Bool.and_eq_true,
        Bool.not_eq_true'] at h
      exact h.2.2
    · exact hquote c h

/-- **A file name never makes a download fail.** No byte of the encoded disposition is a control or
delete, whatever text is kept beside the content. So the disposition is the value of a header, and no
download is refused for its name: it makes no difference that the value is checked. -/
theorem disposition_is_headerValue {m : Type → Type} [Monad m] [LawfulMonad m] [RecordStore m]
    {headerValue : String → Except String String}
    (haccepts : ∀ s, (∀ b ∈ Bytes.ofText s, isHeaderByte b) ↔ headerValue s = .ok s) :
    (∀ x a, ∀ b ∈ Bytes.ofText (disposition (fileName x a)), 0x20 ≤ b ∧ b ≠ 0x7F) ∧
      (∀ x a, headerValue (disposition (fileName x a)) = .ok (disposition (fileName x a))) ∧
      ∀ reg address property, Entities.downloadContentWith (m := m) headerValue reg address property =
        Entities.downloadContent reg address property := by
  have hbytes (x : Record) (a : Attribute) :
      ∀ b ∈ Bytes.ofText (disposition (fileName x a)), 0x20 ≤ b ∧ b ≠ 0x7F := by
    intro b hb
    rw [Bytes.ofText_eq] at hb
    obtain ⟨c, hc, hb⟩ := List.mem_flatMap.mp hb
    have hcontrol := isControl_of_mem_disposition hc
    have hbyte := Bytes.toNat_of_mem_encode hb
    simp only [Text.isControl, Bool.or_eq_false_iff, Bool.and_eq_false_iff,
      decide_eq_false_iff_not] at hcontrol
    rw [UInt8.le_iff_toNat_le, ne_eq, ← UInt8.toNat_inj]
    simp only [UInt8.reduceToNat]
    omega
  have hvalue (x : Record) (a : Attribute) :
      headerValue (disposition (fileName x a)) = .ok (disposition (fileName x a)) := by
    refine (haccepts _).mp fun b hb => ?_
    simp [isHeaderByte, hbytes x a b hb]
  exact ⟨hbytes, hvalue, Entities.downloadContentWith_eq hvalue⟩

/-- A file name with line breaks, delete and a letter of two bytes, and the header it ends up in. -/
theorem disposition_is_headerValue_photo :
    let headerValue (s : String) : Except String String :=
      if (Bytes.ofText s).all isHeaderByte then .ok s else .error "failed to parse header value"
    let name := "a\r\n\u007f\u0085\u00e9.png"
    let m : Memory := ⟨[("Photo", { rows := [(2, ⟨(named name).values, [none, some [7], none]⟩)] })]⟩
    (∀ s, (∀ b ∈ Bytes.ofText s, isHeaderByte b) ↔ headerValue s = .ok s) ∧
      headerValue "a\r\n" = .error "failed to parse header value" ∧
      ∃ response,
        (Entities.downloadContentWith (m := StateM Memory) headerValue ⟨[Memory.photo]⟩
          ⟨"Photo", some 2⟩ "Picture").run.run m = (.ok response, m) ∧
        response.disposition = some "attachment; filename=\"a\u00e9.png\"" := by
  intro headerValue name m
  have haccepts (s : String) :
      (∀ b ∈ Bytes.ofText s, isHeaderByte b) ↔ headerValue s = .ok s := by
    rw [← List.all_eq_true]
    dsimp only [headerValue]
    split
    · next h => exact ⟨fun _ => rfl, fun _ => h⟩
    · next h => exact ⟨fun hall => absurd hall h, fun hok => by simp at hok⟩
  refine ⟨haccepts, by decide +kernel, ?_⟩
  rw [(disposition_is_headerValue haccepts).2.2]
  exact ⟨_, rfl, by decide⟩

end Content

end RecordService
