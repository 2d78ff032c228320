import Lumina.Knowledge.Etl
import Lumina.Library.Fallible
import Lumina.Library.PyJsonRoundTrip

/-!
# Artifacts

Between the stages a document is kept as JSON.  `to_json` writes it, and `from_json` reads it; what is
written is read back.  What cannot be read is an `ExtractionFailedError`, and the resumption falls
back to the original, as long as the members of the blocks are what is wrong: `doc_meta` is read
outside of the handler, and no member is checked for its type.
-/

namespace Lumina.Etl

open Fallible (error_of_bind error_of_foldlM error_of_orRaise mapM_eq_ok_iff mapM_isOk_iff
  ok_of_bind ok_of_orRaise orRaise)
open Knowledge (BlockType Exn)
open PyJson (Str Value str)

/-! ### Documents -/

/-- A block as the loaders make it. -/
structure DocBlock where
  type : BlockType
  text : Str
  order : ℕ
  page : Option ℕ
  headingPath : List Str

structure Doc where
  blocks : List DocBlock
  docMeta : List (Str × Value)

/-- A block as it is read: only its type is looked at. -/
structure ReadBlock where
  type : BlockType
  text : Value
  order : Value
  page : Value
  headingPath : List Value

structure ReadDoc where
  blocks : List ReadBlock
  docMeta : List (Value × Value)

/-- The same block, as what is read. -/
def DocBlock.read (b : DocBlock) : ReadBlock where
  type := b.type
  text := .str b.text
  order := .int b.order
  page := b.page.elim .none fun page => .int page
  headingPath := b.headingPath.map .str

def Doc.read (d : Doc) : ReadDoc where
  blocks := d.blocks.map DocBlock.read
  docMeta := d.docMeta.map fun (k, v) => (.str k, v)

/-- `sys.maxsize`. -/
def maxSize : ℕ :=
  2 ^ 63 - 1

/-- What the loaders and the cleaning make: places in lists, and counts and texts as metadata. -/
structure Doc.Produced (d : Doc) : Prop where
  keys : (d.docMeta.map Prod.fst).Nodup
  values : ∀ m ∈ d.docMeta, (∃ n ≤ maxSize, m.2 = .int (n : ℕ)) ∨ ∃ s, m.2 = .str s
  orders : ∀ b ∈ d.blocks, b.order ≤ maxSize
  pages : ∀ b ∈ d.blocks, ∀ page ∈ b.page, page ≤ maxSize

/-! ### `to_json` -/

def formatVersion : ℤ := 1

/-- The values of `BlockType`. -/
def blockTypeValue : BlockType → Str
  | .paragraph => str "paragraph"
  | .heading => str "heading"
  | .table => str "table"
  | .code => str "code"
  | .caption => str "caption"

def DocBlock.payload (b : DocBlock) : Value :=
  .dict [(str "type", .str (blockTypeValue b.type)), (str "text", .str b.text),
    (str "order", .int b.order), (str "page", b.page.elim .none fun page => .int page),
    (str "heading_path", .list (b.headingPath.map .str))]

def Doc.payload (d : Doc) : Value :=
  .dict [(str "format_version", .int formatVersion), (str "doc_meta", .dict d.docMeta),
    (str "blocks", .list (d.blocks.map DocBlock.payload))]

/-- What Python is asked: the depth at which `json.loads` gives up, beyond the four levels of an
artifact, the names of its other errors, how floating point numbers are written, and `str`, which may
give up as well. -/
structure ArtifactReader where
  depth : ℕ
  loadsError : List UInt8 ⊕ Str → String
  floatRepr : Json.JsNumber → List Char
  shown : Value → Option String

section

variable (reader : ArtifactReader)

/-- `to_json`. -/
def toJson (d : Doc) : Str :=
  PyJson.dumps ⟨false, true⟩ reader.floatRepr d.payload

/-- The data are the JSON of the document, as bytes in UTF-8 or as a string. -/
def Encodes (d : Doc) : List UInt8 ⊕ Str → Prop
  | .inl bytes => PyJson.encodeUtf8 (toJson reader d) = some (bytes.map UInt8.toNat)
  | .inr s => s = toJson reader d

/-! ### `from_json` -/

def attributeError : Exn := .other "AttributeError"

def keyError : Exn := .other "KeyError"

def recursionError : Exn := .other "RecursionError"

def typeError : Exn := .other "TypeError"

def valueError : Exn := .other "ValueError"

/-- `json.loads`, of bytes or of a string. -/
def ArtifactReader.loads (data : List UInt8 ⊕ Str) : Except Exn Value :=
  let read :=
    match data with
    | .inl bytes => PyJson.loadsBytes (reader.depth + 4) (bytes.map UInt8.toNat)
    | .inr s => PyJson.loads (reader.depth + 4) s
  read.mapError fun
    | .valueError => .other (reader.loadsError data)
    | .recursionError => recursionError

/-- What a value is as the key of a dictionary: numbers are the same key if they are equal, and lists
and dictionaries are no keys. -/
inductive Key where
  | none
  | number (x : ℚ)
  | infinite (negative : Bool)
  | nan
  | str (s : Str)
deriving DecidableEq

def key : Value → Option Key
  | .none => some .none
  | .bool b => some (.number (if b then 1 else 0))
  | .int n => some (.number n)
  | .float (.number ⟨negative, some x⟩) => some (.number (if negative then -x else x))
  | .float (.number ⟨negative, none⟩) => some (.infinite negative)
  | .float .nan => some .nan
  | .str s => some (.str s)
  | .list _ => none
  | .dict _ => none

/-- `d[k] = v`, where a key that is there stays as it is. -/
def setItem (k v : Value) : List (Value × Value) → List (Value × Value)
  | [] => [(k, v)]
  | (k', v') :: d => if key k' = key k then (k', v) :: d else (k', v') :: setItem k v d

/-- What a loop over a value goes through. -/
def iterate : Value → Except Exn (List Value)
  | .str s => .ok (s.map fun u => .str [u])
  | .list items => .ok items
  | .dict members => .ok (members.map fun m => .str m.1)
  | _ => .error typeError

/-- One item of the sequence that `dict` is given. -/
def updateItem (d : List (Value × Value)) (item : Value) : Except Exn (List (Value × Value)) := do
  match ← iterate item with
  | [k, v] => if (key k).isSome then .ok (setItem k v d) else .error typeError
  | _ => .error valueError

/-- `dict(value)`. -/
def dictOf : Value → Except Exn (List (Value × Value))
  | .dict members => .ok (members.map fun (k, v) => (.str k, v))
  | v => do (← iterate v).foldlM updateItem []

/-- `value[name]`. -/
def getItem (v : Value) (name : String) : Except Exn Value :=
  match v with
  | .dict members => orRaise keyError (members.lookup (str name))
  | _ => .error typeError

/-- `BlockType(value)`; the message of the error shows the value. -/
def ArtifactReader.blockType (v : Value) : Except Exn BlockType :=
  let types : List BlockType := [.paragraph, .heading, .table, .code, .caption]
  match types.find? fun type => key v = some (.str (blockTypeValue type)) with
  | some type => .ok type
  | none => .error (if (reader.shown v).isSome then valueError else recursionError)

/-- A block of the payload. -/
def ArtifactReader.readBlock (item : Value) : Except Exn ReadBlock := do
  let type ← getItem item "type"
  let type ← reader.blockType type
  let text ← getItem item "text"
  let order ← getItem item "order"
  let page ← getItem item "page"
  let headingPath ← iterate (← getItem item "heading_path")
  .ok ⟨type, text, order, page, headingPath⟩

def extractionFailed (message cause : String) : Exn :=
  .domain { cls := .extractionFailed, message := message, cause := some cause }

/-- The version is none that is known, unless it equals `FORMAT_VERSION`. -/
def ArtifactReader.checkVersion (members : List (Str × Value)) : Except Exn Unit :=
  let version := (members.lookup (str "format_version")).getD .none
  if key version = some (.number formatVersion) then .ok ()
  else
    match reader.shown version with
    | some shown =>
        .error (extractionFailed ("中間產物格式版本不符（" ++ shown ++ "）") "artifact_version_mismatch")
    | none => .error recursionError

/-- What is done inside of the `try`: the payload and its blocks. -/
def ArtifactReader.readBlocks (data : List UInt8 ⊕ Str) : Except Exn (Value × List ReadBlock) := do
  match ← reader.loads data with
  | .dict members =>
      reader.checkVersion members
      let items ← iterate (← getItem (.dict members) "blocks")
      let blocks ← items.mapM reader.readBlock
      .ok (.dict members, blocks)
  | _ => .error attributeError

/-- The handlers: an `ExtractionFailedError` passes, and any other error becomes one. -/
def translated : Exn → Exn
  | .domain e =>
      if e.cls = .extractionFailed then .domain e
      else extractionFailed "中間產物讀取失敗" (Exn.domain e).typeName
  | e => extractionFailed "中間產物讀取失敗" e.typeName

/-- `from_json`. -/
def fromJson (data : List UInt8 ⊕ Str) : Except Exn ReadDoc := do
  let (payload, blocks) ← (reader.readBlocks data).mapError translated
  let docMeta ← dictOf (← getItem payload "doc_meta")
  .ok ⟨blocks, docMeta⟩

/-- `_resume_cleaned`, once the object has been read. -/
def resumeCleaned (bytes : List UInt8) : Except Exn (Option ReadDoc) :=
  match fromJson reader (.inl bytes) with
  | .ok doc => .ok (some doc)
  | .error (.domain e) =>
      if e.cls = .crossTenantObjectKey then .error (.domain e) else .ok none
  | .error (.os _) => .ok none
  | .error e => .error e

end

/-! ### What is written is read back -/

section

variable {reader : ArtifactReader} {d : Doc}

theorem short_of_le_maxSize {n : ℕ} (h : n ≤ maxSize) :
  (Nat.toDigits 10 (n : ℤ).natAbs).length ≤ PyJson.maxStrDigits
  := by
  have digits : (Nat.toDigits 10 n).length ≤ 19 := by
    apply (Nat.length_toDigits_le_iff (by decide) (by decide)).mpr
    exact h.trans_lt (by decide)
  exact digits.trans (by decide)

theorem readable_str (depth : ℕ) (s : Str) :
  PyJson.Readable ⟨false, true⟩ reader.floatRepr depth (.str s)
  := .str s fun _ _ => nofun

theorem readable_count (depth : ℕ) {n : ℕ} (h : n ≤ maxSize) :
  PyJson.Readable ⟨false, true⟩ reader.floatRepr depth (.int n)
  := .int n (short_of_le_maxSize h)

theorem DocBlock.readable {b : DocBlock} (order : b.order ≤ maxSize)
    (page : ∀ page ∈ b.page, page ≤ maxSize) (depth : ℕ) :
  PyJson.Readable ⟨false, true⟩ reader.floatRepr (depth + 2) b.payload
  := by
  have keys : [str "type", str "text", str "order", str "page", str "heading_path"].Nodup := by
    decide
  apply PyJson.Readable.dict
  · exact keys
  · exact fun _ _ _ _ => nofun
  · intro m hm
    simp only [List.mem_cons, List.not_mem_nil, or_false] at hm
    rcases hm with rfl | rfl | rfl | rfl | rfl
    · exact readable_str _ _
    · exact readable_str _ _
    · exact readable_count _ order
    · cases hp : b.page with
      | none => exact .none
      | some p => exact readable_count _ (page p hp)
    · apply PyJson.Readable.list
      intro v hv
      obtain ⟨s, _, rfl⟩ := List.mem_map.mp hv
      exact readable_str _ _

theorem Doc.Produced.readable (produced : d.Produced) (depth : ℕ) :
  PyJson.Readable ⟨false, true⟩ reader.floatRepr (depth + 4) d.payload
  := by
  have keys : [str "format_version", str "doc_meta", str "blocks"].Nodup := by decide
  apply PyJson.Readable.dict
  · exact keys
  · exact fun _ _ _ _ => nofun
  · intro m hm
    simp only [List.mem_cons, List.not_mem_nil, or_false] at hm
    rcases hm with rfl | rfl | rfl
    · exact .int 1 (by decide)
    · apply PyJson.Readable.dict _ produced.keys
      · exact fun _ _ _ _ => nofun
      · intro m hm
        rcases produced.values m hm with ⟨n, small, value⟩ | ⟨s, value⟩
        · rw [value]
          exact readable_count _ small
        · rw [value]
          exact readable_str _ s
    · apply PyJson.Readable.list
      intro v hv
      obtain ⟨b, hb, rfl⟩ := List.mem_map.mp hv
      exact DocBlock.readable (produced.orders b hb) (produced.pages b hb) _

theorem toJson_head (d : Doc) :
  ∃ rest, toJson reader d = '{'.toNat :: '"'.toNat :: rest
  := by
  rw [toJson, Doc.payload, PyJson.dumps]
  exact ⟨_, rfl⟩

/-- The JSON of a document is its payload. -/
theorem loads_of_encodes (produced : d.Produced) {data : List UInt8 ⊕ Str}
    (encodes : Encodes reader d data) :
  reader.loads data = .ok d.payload
  := by
  have readable : PyJson.Readable _ reader.floatRepr _ _ := produced.readable reader.depth
  obtain ⟨rest, head⟩ : ∃ rest, toJson reader d = '{'.toNat :: '"'.toNat :: rest := toJson_head d
  cases data with
  | inl bytes =>
    obtain ⟨after, begins⟩ :
        ∃ after, bytes.map UInt8.toNat = '{'.toNat :: '"'.toNat :: after := by
      change PyJson.encodeUtf8 (toJson reader d) = some _ at encodes
      rw [head, PyJson.encodeUtf8] at encodes
      split_ifs at encodes
      exact ⟨_, (Option.some.inj encodes).symm⟩
    have read := PyJson.loadsBytes_dumps readable encodes begins (by decide) (by decide)
    rw [ArtifactReader.loads, read]
    rfl
  | inr s =>
    change s = _ at encodes
    have mark : (toJson reader d).head? ≠ some 0xFEFF := by
      rw [head]
      exact fun same => absurd (Option.some.inj same) (by decide)
    have read : PyJson.loads (reader.depth + 4) (toJson reader d) = .ok d.payload := by
      rw [PyJson.loads, if_neg mark]
      exact PyJson.decode_dumps readable
    rw [ArtifactReader.loads, encodes, read]
    rfl

theorem blockType_blockTypeValue (type : BlockType) :
  reader.blockType (.str (blockTypeValue type)) = .ok type
  := by
  cases type <;> rfl

theorem readBlock_payload (b : DocBlock) :
  reader.readBlock b.payload = .ok b.read
  := by
  change (reader.blockType (.str (blockTypeValue b.type))).bind _ = _
  rw [blockType_blockTypeValue]
  rfl

/-- A document is read back from its JSON. -/
theorem fromJson_of_encodes (produced : d.Produced) {data : List UInt8 ⊕ Str}
    (encodes : Encodes reader d data) :
  fromJson reader data = .ok d.read
  := by
  have blocks : (d.blocks.map DocBlock.payload).mapM reader.readBlock =
      .ok (d.blocks.map DocBlock.read) := by
    apply mapM_eq_ok_iff.mpr
    rw [List.forall₂_map_left_iff, List.forall₂_map_right_iff, List.forall₂_same]
    exact fun b _ => readBlock_payload b
  have read : reader.readBlocks data = .ok (d.payload, d.blocks.map DocBlock.read) := by
    rw [ArtifactReader.readBlocks, loads_of_encodes produced encodes]
    change ((d.blocks.map DocBlock.payload).mapM reader.readBlock).bind _ = _
    rw [blocks]
    rfl
  rw [fromJson, read]
  rfl

end

/-! ### What cannot be read -/

def IsExtractionFailed (e : Exn) : Prop :=
  ∃ e', e = .domain e' ∧ e'.cls = .extractionFailed

/-- The item is an object with a known type, with the other members of a block, and with a heading
path that a loop can go through. -/
def IsBlock (item : Value) : Prop :=
  ∃ members type path, item = .dict members ∧
    members.lookup (str "type") = some (.str (blockTypeValue type)) ∧
    (members.lookup (str "text")).isSome ∧ (members.lookup (str "order")).isSome ∧
    (members.lookup (str "page")).isSome ∧ members.lookup (str "heading_path") = some path ∧
    ((∃ s, path = .str s) ∨ (∃ items, path = .list items) ∨ ∃ members, path = .dict members)

/-- The JSON is an object of the version that is known, and its blocks are blocks. -/
def HasReadableBlocks (reader : ArtifactReader) (data : List UInt8 ⊕ Str) : Prop :=
  ∃ members blocks, reader.loads data = .ok (.dict members) ∧
    ((members.lookup (str "format_version")).bind key = some (.number formatVersion)) ∧
    members.lookup (str "blocks") = some blocks ∧
    ((∃ items, blocks = .list items ∧ ∀ item ∈ items, IsBlock item) ∨
      blocks = .str [] ∨ blocks = .dict [])

section

variable {reader : ArtifactReader} {data : List UInt8 ⊕ Str}

theorem iterate_isOk {v : Value} :
  (∃ items, iterate v = .ok items) ↔
    (∃ s, v = .str s) ∨ (∃ items, v = .list items) ∨ ∃ members, v = .dict members
  := by
  constructor
  · rintro ⟨items, h⟩
    cases v with
    | str s => exact .inl ⟨s, rfl⟩
    | list items => exact .inr (.inl ⟨items, rfl⟩)
    | dict members => exact .inr (.inr ⟨members, rfl⟩)
    | _ => cases h
  · rintro (⟨s, rfl⟩ | ⟨items, rfl⟩ | ⟨members, rfl⟩)
    · exact ⟨_, rfl⟩
    · exact ⟨_, rfl⟩
    · exact ⟨_, rfl⟩

theorem key_eq_str {v : Value} {s : Str} (h : key v = some (.str s)) :
  v = .str s
  := by
  cases v with
  | str s' => rw [Key.str.inj (Option.some.inj h)]
  | float x =>
    rcases x with ⟨⟨_, _ | _⟩⟩ | _
    all_goals cases h
  | _ => cases h

theorem blockType_eq_ok {v : Value} {type : BlockType} (h : reader.blockType v = .ok type) :
  v = .str (blockTypeValue type)
  := by
  unfold ArtifactReader.blockType at h
  dsimp only at h
  split at h
  · next found =>
    cases h
    have same := List.find?_some found
    exact key_eq_str (of_decide_eq_true same)
  · cases h

theorem getItem_eq_ok {v v' : Value} {name : String} (h : getItem v name = .ok v') :
  ∃ members, v = .dict members ∧ members.lookup (str name) = some v'
  := by
  cases v with
  | dict members => exact ⟨members, rfl, ok_of_orRaise h⟩
  | _ => cases h

/-- A block is read exactly where there is one. -/
theorem readBlock_isOk {item : Value} :
  (∃ b, reader.readBlock item = .ok b) ↔ IsBlock item
  := by
  constructor
  · rintro ⟨b, h⟩
    obtain ⟨type, hasType, h⟩ := ok_of_bind h
    obtain ⟨type', isType, h⟩ := ok_of_bind h
    obtain ⟨text, hasText, h⟩ := ok_of_bind h
    obtain ⟨order, hasOrder, h⟩ := ok_of_bind h
    obtain ⟨page, hasPage, h⟩ := ok_of_bind h
    obtain ⟨path, hasPath, h⟩ := ok_of_bind h
    obtain ⟨items, iterable, h⟩ := ok_of_bind h
    obtain ⟨members, rfl, isMember⟩ := getItem_eq_ok hasType
    obtain rfl := blockType_eq_ok isType
    refine ⟨members, type', path, rfl, isMember, ?_, ?_, ?_, ok_of_orRaise hasPath,
      iterate_isOk.mp ⟨items, iterable⟩⟩
    · exact Option.isSome_of_mem (ok_of_orRaise hasText)
    · exact Option.isSome_of_mem (ok_of_orRaise hasOrder)
    · exact Option.isSome_of_mem (ok_of_orRaise hasPage)
  · rintro ⟨members, type, path, rfl, hasType, hasText, hasOrder, hasPage, hasPath, iterable⟩
    obtain ⟨text, hasText⟩ := Option.isSome_iff_exists.mp hasText
    obtain ⟨order, hasOrder⟩ := Option.isSome_iff_exists.mp hasOrder
    obtain ⟨page, hasPage⟩ := Option.isSome_iff_exists.mp hasPage
    obtain ⟨items, iterable⟩ := iterate_isOk.mpr iterable
    use ⟨type, text, order, page, items⟩
    simp only [ArtifactReader.readBlock, getItem, hasType, hasText, hasOrder, hasPage, hasPath,
      orRaise, Option.elim_some, bind, Except.bind, blockType_blockTypeValue, iterable]

theorem not_isBlock_str (s : Str) :
  ¬ IsBlock (.str s)
  := by
  rintro ⟨members, type, path, same, _⟩
  cases same

/-- All items are blocks only of a list, unless there are none. -/
theorem iterate_blocks {v : Value} :
  (∃ items, iterate v = .ok items ∧ ∀ item ∈ items, IsBlock item) ↔
    (∃ items, v = .list items ∧ ∀ item ∈ items, IsBlock item) ∨ v = .str [] ∨ v = .dict []
  := by
  constructor
  · rintro ⟨items, h, blocks⟩
    match v with
    | .list items' =>
      cases h
      exact .inl ⟨items, rfl, blocks⟩
    | .str [] => exact .inr (.inl rfl)
    | .dict [] => exact .inr (.inr rfl)
    | .str (u :: s) =>
      cases h
      exact absurd (blocks _ List.mem_cons_self) (not_isBlock_str _)
    | .dict (m :: members) =>
      cases h
      exact absurd (blocks _ List.mem_cons_self) (not_isBlock_str _)
    | .none | .bool _ | .int _ | .float _ => cases h
  · rintro (⟨items, rfl, blocks⟩ | rfl | rfl)
    · exact ⟨items, rfl, blocks⟩
    · exact ⟨[], rfl, nofun⟩
    · exact ⟨[], rfl, nofun⟩

theorem checkVersion_eq_ok {members : List (Str × Value)} :
  reader.checkVersion members = .ok () ↔
    (members.lookup (str "format_version")).bind key = some (.number formatVersion)
  := by
  have version : key ((members.lookup (str "format_version")).getD .none) =
      some (.number formatVersion) ↔
        (members.lookup (str "format_version")).bind key = some (.number formatVersion) := by
    cases members.lookup (str "format_version") with
    | none =>
      constructor
      · exact fun same => nomatch Option.some.inj same
      · nofun
    | some v => rfl
  rw [← version, ArtifactReader.checkVersion]
  split_ifs with known
  · exact ⟨fun _ => known, fun _ => rfl⟩
  · refine ⟨fun h => ?_, fun h => absurd h known⟩
    split at h
    · cases h
    · cases h

/-- The blocks are read exactly where they are readable. -/
theorem readBlocks_isOk :
  (∃ read, reader.readBlocks data = .ok read) ↔ HasReadableBlocks reader data
  := by
  constructor
  · rintro ⟨read, h⟩
    obtain ⟨payload, loads, h⟩ := ok_of_bind h
    cases payload with
    | dict members =>
      obtain ⟨_, version, h⟩ := ok_of_bind h
      obtain ⟨blocks, hasBlocks, h⟩ := ok_of_bind h
      obtain ⟨items, iterable, h⟩ := ok_of_bind h
      obtain ⟨blocks', read, h⟩ := ok_of_bind h
      refine ⟨members, blocks, loads, checkVersion_eq_ok.mp version, ok_of_orRaise hasBlocks,
        iterate_blocks.mp ⟨items, iterable, ?_⟩⟩
      exact fun item hitem => readBlock_isOk.mp (mapM_isOk_iff.mp ⟨blocks', read⟩ item hitem)
    | _ => cases h
  · rintro ⟨members, blocks, loads, version, hasBlocks, readable⟩
    obtain ⟨items, iterable, areBlocks⟩ := iterate_blocks.mpr readable
    obtain ⟨blocks', read⟩ : ∃ blocks', items.mapM reader.readBlock = .ok blocks' :=
      mapM_isOk_iff.mpr fun item hitem => readBlock_isOk.mpr (areBlocks item hitem)
    use (.dict members, blocks')
    simp only [ArtifactReader.readBlocks, loads, checkVersion_eq_ok.mpr version, getItem, hasBlocks,
      orRaise, Option.elim_some, bind, Except.bind, iterable, read]

/-- Every error of what is done inside of the `try` is turned. -/
theorem isExtractionFailed_translated (e : Exn) :
  IsExtractionFailed (translated e)
  := by
  cases e with
  | domain e =>
    change IsExtractionFailed (if _ then _ else _)
    split_ifs with passes
    · exact ⟨e, rfl, passes⟩
    · exact ⟨_, rfl, rfl⟩
  | _ => exact ⟨_, rfl, rfl⟩

theorem error_of_iterate {v : Value} {e : Exn} (h : iterate v = .error e) :
  e = typeError
  := by
  cases v with
  | str s => cases h
  | list items => cases h
  | dict members => cases h
  | _ => exact (Except.error.inj h).symm

theorem error_of_updateItem {items : List (Value × Value)} {v : Value} {e : Exn}
    (h : updateItem items v = .error e) :
  e = typeError ∨ e = valueError
  := by
  rcases error_of_bind h with h | ⟨pair, _, h⟩
  · exact .inl (error_of_iterate h)
  · split at h
    · split_ifs at h
      exact .inl (Except.error.inj h).symm
    · exact .inr (Except.error.inj h).symm

theorem error_of_dictOf {v : Value} {e : Exn} (h : dictOf v = .error e) :
  e = typeError ∨ e = valueError
  := by
  unfold dictOf at h
  split at h
  · cases h
  · rcases error_of_bind h with h | ⟨items, _, h⟩
    · exact .inl (error_of_iterate h)
    · obtain ⟨d, item, _, failed⟩ := error_of_foldlM h
      exact error_of_updateItem failed

theorem error_of_getItem {v : Value} {name : String} {e : Exn} (h : getItem v name = .error e) :
  e = keyError ∨ e = typeError
  := by
  cases v with
  | dict members => exact .inl (error_of_orRaise h).2
  | _ => exact .inr (Except.error.inj h).symm

/-- Once the blocks have been read, no error is turned. -/
theorem error_of_readBlocks {read : Value × List ReadBlock} {e : Exn}
    (readBlocks : reader.readBlocks data = .ok read) (h : fromJson reader data = .error e) :
  e = keyError ∨ e = typeError ∨ e = valueError
  := by
  unfold fromJson at h
  rw [readBlocks] at h
  change (getItem read.1 "doc_meta").bind _ = _ at h
  rcases error_of_bind h with h | ⟨v, _, h⟩
  · rcases error_of_getItem h with rfl | rfl
    · exact .inl rfl
    · exact .inr (.inl rfl)
  · rcases error_of_bind h with h | ⟨d, _, h⟩
    · exact .inr (error_of_dictOf h)
    · cases h

theorem fromJson_of_not_readable (unreadable : ¬ HasReadableBlocks reader data) :
  ∃ e, fromJson reader data = .error e ∧ IsExtractionFailed e
  := by
  cases readBlocks : reader.readBlocks data with
  | ok read => exact absurd (readBlocks_isOk.mp ⟨read, readBlocks⟩) unreadable
  | error e =>
    refine ⟨translated e, ?_, isExtractionFailed_translated e⟩
    rw [fromJson, readBlocks]
    rfl

/-- Where the blocks can be read, every error escapes. -/
theorem error_of_readable (readable : HasReadableBlocks reader data) {e : Exn}
    (h : fromJson reader data = .error e) :
  e = keyError ∨ e = typeError ∨ e = valueError
  := by
  obtain ⟨read, readBlocks⟩ := readBlocks_isOk.mpr readable
  exact error_of_readBlocks readBlocks h

/-- The reader raises an `ExtractionFailedError` exactly where the blocks cannot be read. -/
theorem isExtractionFailed_fromJson :
  (∃ e, fromJson reader data = .error e ∧ IsExtractionFailed e) ↔ ¬ HasReadableBlocks reader data
  := by
  refine ⟨?_, fromJson_of_not_readable⟩
  rintro ⟨e, raised, e', rfl, _⟩ readable
  rcases error_of_readable readable raised with same | same | same
  · cases same
  · cases same
  · cases same

/-- The resumption falls back exactly where the blocks cannot be read. -/
theorem resumeCleaned_eq_none {bytes : List UInt8} :
  resumeCleaned reader bytes = .ok none ↔ ¬ HasReadableBlocks reader (.inl bytes)
  := by
  constructor
  · intro h readable
    unfold resumeCleaned at h
    cases result : fromJson reader (.inl bytes) with
    | ok doc =>
      rw [result] at h
      cases h
    | error e =>
      rw [result] at h
      rcases error_of_readable readable result with rfl | rfl | rfl
      · cases h
      · cases h
      · cases h
  · intro unreadable
    obtain ⟨_, raised, e, rfl, failed⟩ := fromJson_of_not_readable unreadable
    have other : e.cls ≠ .crossTenantObjectKey := by
      rw [failed]
      decide
    rw [resumeCleaned, raised]
    exact if_neg other

end

/-- A document is read back from its JSON.  The reader raises an `ExtractionFailedError`, and the
resumption falls back, exactly where the JSON is not an object of the known version with readable
blocks. -/
theorem artifact_read_iff (reader : ArtifactReader) :
  (∀ d data, d.Produced → Encodes reader d data → fromJson reader data = .ok d.read) ∧
  (∀ data, (∃ e, fromJson reader data = .error e ∧ IsExtractionFailed e) ↔
    ¬ HasReadableBlocks reader data) ∧
  ∀ bytes, resumeCleaned reader bytes = .ok none ↔ ¬ HasReadableBlocks reader (.inl bytes)
  := by
  refine ⟨?_, ?_, ?_⟩
  · exact fun d data produced encodes => fromJson_of_encodes produced encodes
  · exact fun data => isExtractionFailed_fromJson
  · exact fun bytes => resumeCleaned_eq_none

/-! ### An artifact without metadata -/

def withoutMeta : List (Str × Value) :=
  [(str "format_version", .int formatVersion), (str "blocks", .list [])]

def withoutMetaBytes : List UInt8 :=
  "\x7b\"format_version\": 1, \"blocks\": []\x7d".toList.map fun c => UInt8.ofNat c.toNat

def plainReader : ArtifactReader where
  depth := 9
  loadsError := fun _ => "JSONDecodeError"
  floatRepr := fun _ => []
  shown := fun _ => none

theorem loads_withoutMeta :
  plainReader.loads (.inl withoutMetaBytes) = .ok (.dict withoutMeta)
  := by
  have keys : [str "format_version", str "blocks"].Nodup := by decide
  have readable : PyJson.Readable ⟨false, true⟩ plainReader.floatRepr (plainReader.depth + 4)
      (.dict withoutMeta) := by
    apply PyJson.Readable.dict
    · exact keys
    · exact fun _ _ _ _ => nofun
    · intro m hm
      simp only [withoutMeta, List.mem_cons, List.not_mem_nil, or_false] at hm
      rcases hm with rfl | rfl
      · exact .int 1 (by decide)
      · exact .list [] nofun
  have encoded : PyJson.encodeUtf8
      (PyJson.dumps ⟨false, true⟩ plainReader.floatRepr (.dict withoutMeta)) =
        some (withoutMetaBytes.map UInt8.toNat) := by
    rfl
  have read := PyJson.loadsBytes_dumps readable encoded rfl (by decide) (by decide)
  rw [ArtifactReader.loads, read]
  rfl

theorem fromJson_withoutMeta :
  fromJson plainReader (.inl withoutMetaBytes) = .error keyError
  := by
  rw [fromJson, ArtifactReader.readBlocks, loads_withoutMeta]
  rfl

/-- It is not the JSON of a document, and neither does the reader raise an `ExtractionFailedError`
nor does the resumption fall back. -/
theorem artifact_escapes :
  ¬ ∀ (reader : ArtifactReader) (data : List UInt8),
    (∀ d : Doc, d.Produced → ¬ Encodes reader d (.inl data)) →
      (∃ e, fromJson reader (.inl data) = .error e ∧ IsExtractionFailed e) ∧
        resumeCleaned reader data = .ok none
  := by
  intro claim
  have foreign (d : Doc) (produced : d.Produced) :
      ¬ Encodes plainReader d (.inl withoutMetaBytes) := by
    intro encodes
    have read := fromJson_of_encodes produced encodes
    rw [fromJson_withoutMeta] at read
    cases read
  obtain ⟨⟨e, raised, e', rfl, _⟩, _⟩ := claim plainReader withoutMetaBytes foreign
  rw [fromJson_withoutMeta] at raised
  cases raised

end Lumina.Etl
