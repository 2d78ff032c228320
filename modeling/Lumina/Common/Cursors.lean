import Lumina.Knowledge.Status
import Lumina.Library.Base64Url
import Lumina.Library.Fallible
import Lumina.Library.IsoText
import Lumina.Library.PyJsonRoundTrip
import Mathlib.Data.List.Lex

/-!
# Cursors

A cursor is a time and an identifier as text, in a dictionary, in JSON, in base64 without padding.
`decode_cursor` undoes the last two steps and `cursor_key` the first two; both raise a `CursorError`
where they cannot, but too deep a nesting raises a `RecursionError`.
-/

namespace Lumina.Common

open Fallible (orRaise)
open IsoText (DateTime Uuid isoformat readIsoformat readUuid uuidText)
open Knowledge (Exn)
open PyJson (Str Value str)

/-- A value of a cursor. -/
inductive CursorValue where
  | datetime (t : DateTime)
  | str (s : Str)

abbrev CursorValues := List (Str × CursorValue)

/-- What Python is asked: the depth at which `json.loads` gives up, beyond the first level, `repr`,
which may give up as well, and how `datetime.fromisoformat` and `uuid.UUID` read other texts than
those that are written. -/
structure CursorReader where
  depth : ℕ
  repr : Value → Option Str
  otherDatetime : Str → Option DateTime
  otherUuid : Str → Option Uuid

def cursorError : Exn :=
  .other "CursorError"

def recursionError : Exn :=
  .other "RecursionError"

/-! ### Writing -/

def CursorValue.text : CursorValue → Str
  | datetime t => isoformat t
  | str s => s

/-- The order of strings. -/
def strLe (s t : Str) : Bool :=
  decide (s ≤ t)

/-- `json.dumps` of the values, sorted by their keys. -/
def rawCursor (values : CursorValues) : Str :=
  PyJson.dumps ⟨true, false⟩ (fun _ => [])
    (.dict ((values.map fun (k, v) => (k, Value.str v.text)).mergeSort fun a b => strLe a.1 b.1))

/-- `encode_cursor`. -/
def encodeCursor (values : CursorValues) : Except Exn (List Char) :=
  match PyJson.encodeUtf8 (rawCursor values) with
  | none => .error (.other "UnicodeEncodeError")
  | some bytes => .ok (Base64Url.unpad (Base64Url.encode (bytes.map UInt8.ofNat)))

/-! ### Reading -/

namespace CursorReader

variable (reader : CursorReader)

/-- `str(value)`. -/
def shown : Value → Except Exn Str
  | .str s => .ok s
  | v => orRaise recursionError (reader.repr v)

/-- What the JSON of a cursor is, where there is one. -/
def payload (cursor : List Char) : Except PyJson.LoadsError Value :=
  match Base64Url.decode (Base64Url.pad cursor) with
  | none => .error .valueError
  | some bytes => PyJson.loadsBytes (reader.depth + 1) (bytes.map UInt8.toNat)

/-- `decode_cursor`. -/
def decodeCursor (cursor : List Char) : Except Exn (List (Str × Value)) :=
  match reader.payload cursor with
  | .error .valueError => .error cursorError
  | .error .recursionError => .error recursionError
  | .ok (.dict members) => .ok members
  | .ok _ => .error cursorError

def fromisoformat (s : Str) : Option DateTime :=
  (readIsoformat s).or (reader.otherDatetime s)

def uuid (s : Str) : Option Uuid :=
  (readUuid s).or (reader.otherUuid s)

/-- `cursor_key`. -/
def cursorKey (cursor : List (Str × Value)) : Except Exn (DateTime × Uuid) := do
  let k ← orRaise cursorError (cursor.lookup (str "k"))
  let t ← orRaise cursorError (reader.fromisoformat (← reader.shown k))
  let id ← orRaise cursorError (cursor.lookup (str "id"))
  let id ← orRaise cursorError (reader.uuid (← reader.shown id))
  .ok (t, id)

end CursorReader

/-! ### The round trip -/

/-- The values of the cursor after a row. -/
def cursorOf (t : DateTime) (id : Uuid) : CursorValues :=
  [(str "k", .str (isoformat t)), (str "id", .str (uuidText id))]

/-- The same values in the order of their keys. -/
def writtenCursor (t : DateTime) (id : Uuid) : List (Str × Value) :=
  [(str "id", .str (uuidText id)), (str "k", .str (isoformat t))]

theorem rawCursor_cursorOf (t : DateTime) (id : Uuid) :
  rawCursor (cursorOf t id) =
    PyJson.dumps ⟨true, false⟩ (fun _ => []) (.dict (writtenCursor t id))
  := by
  have order : strLe (str "k") (str "id") = false := by decide
  have sorted : ((cursorOf t id).map fun (k, v) => (k, Value.str v.text)).mergeSort
      (fun a b => strLe a.1 b.1) = writtenCursor t id := by
    simp [cursorOf, writtenCursor, List.mergeSort, order, CursorValue.text]
  rw [rawCursor, sorted]

def Ascii (s : Str) : Prop :=
  ∀ u ∈ s, u < 0x80

theorem Ascii.append {s t : Str} (hs : Ascii s) (ht : Ascii t) :
  Ascii (s ++ t)
  := List.forall_mem_append.mpr ⟨hs, ht⟩

theorem Ascii.cons {u : ℕ} {s : Str} (hu : u < 0x80) (hs : Ascii s) :
  Ascii (u :: s)
  := List.forall_mem_cons.mpr ⟨hu, hs⟩

theorem ascii_numeral {base : ℕ} (small : base ≤ 16) (positive : 0 < base) (width n : ℕ) :
  Ascii (IsoText.numeral base width n)
  := by
  have digits : ∀ d < 16, PyJson.digitPoint d < 0x80 := by decide
  intro u hu
  obtain ⟨d, hd, rfl⟩ := IsoText.mem_numeral small positive hu
  exact digits d hd

theorem ascii_isoformat (t : DateTime) :
  Ascii (isoformat t)
  := by
  have field (width n : ℕ) : Ascii (IsoText.numeral 10 width n) :=
    ascii_numeral (by decide) (by decide) width n
  have fraction : Ascii (if t.microsecond = 0 then []
      else '.'.toNat :: IsoText.numeral 10 6 t.microsecond) := by
    split_ifs
    · nofun
    · exact (field 6 _).cons (by decide)
  have utc : Ascii (str "+00:00") := by
    unfold Ascii
    decide
  have time := (field 2 t.second).append (fraction.append utc)
  have time := (field 2 t.minute).append (time.cons (by decide : ':'.toNat < 0x80))
  have time := (field 2 t.hour).append (time.cons (by decide : ':'.toNat < 0x80))
  have date := (field 2 t.day).append (time.cons (by decide : 'T'.toNat < 0x80))
  have date := (field 2 t.month).append (date.cons (by decide : '-'.toNat < 0x80))
  exact (field 4 t.year).append (date.cons (by decide))

theorem ascii_uuidText (id : Uuid) :
  Ascii (uuidText id)
  := by
  have part (s : Str) (inside : s ⊆ IsoText.numeral 16 32 id) : Ascii s :=
    fun u hu => ascii_numeral (by decide) (by decide) 32 id u (inside hu)
  have group (n : ℕ) : Ascii (((IsoText.numeral 16 32 id).drop n).take 4) :=
    part _ (List.Subset.trans (List.take_subset 4 _) (List.drop_subset n _))
  have rest := part _ (List.drop_subset 20 _)
  have rest := (group 16).append (rest.cons (by decide : '-'.toNat < 0x80))
  have rest := (group 12).append (rest.cons (by decide : '-'.toNat < 0x80))
  have rest := (group 8).append (rest.cons (by decide : '-'.toNat < 0x80))
  exact (part _ (List.take_subset 8 _)).append (rest.cons (by decide))

theorem ascii_dumpsString {s : Str} (h : Ascii s) :
  Ascii (PyJson.dumpsString true s)
  := by
  have escaped : ∀ u < 0x80, Ascii (PyJson.escapePoint true u) := by
    unfold Ascii
    decide
  have inside : Ascii (s.flatMap (PyJson.escapePoint true)) := by
    intro v hv
    obtain ⟨u, hu, hv⟩ := List.mem_flatMap.mp hv
    exact escaped u (h u hu) v hv
  have quote : Ascii ['"'.toNat] := by
    unfold Ascii
    decide
  exact (inside.cons (by decide)).append quote

/-- The JSON of a cursor after a row. -/
theorem rawCursor_eq (t : DateTime) (id : Uuid) :
  rawCursor (cursorOf t id) = '{'.toNat :: '"'.toNat :: (str "id\":" ++
    (PyJson.dumpsString true (uuidText id) ++
      (str ",\"k\":" ++ (PyJson.dumpsString true (isoformat t) ++ ['}'.toNat]))))
  := by
  rw [rawCursor_cursorOf, writtenCursor, PyJson.dumps, PyJson.dumps, PyJson.dumpsMembers,
    PyJson.dumps, PyJson.dumpsMembers]
  simp only [List.append_assoc, List.append_nil]
  rfl

theorem ascii_rawCursor (t : DateTime) (id : Uuid) :
  Ascii (rawCursor (cursorOf t id))
  := by
  have close : Ascii ['}'.toNat] := by
    unfold Ascii
    decide
  have id' : Ascii (str "id\":") := by
    unfold Ascii
    decide
  have k : Ascii (str ",\"k\":") := by
    unfold Ascii
    decide
  have values := (ascii_dumpsString (ascii_uuidText id)).append
    (k.append ((ascii_dumpsString (ascii_isoformat t)).append close))
  rw [rawCursor_eq]
  exact ((id'.append values).cons (by decide)).cons (by decide)

/-- The bytes of a text in ASCII are its code points. -/
theorem encodeUtf8_of_ascii {s : Str} (h : Ascii s) :
  PyJson.encodeUtf8 s = some s
  := by
  have scalar : s.all (PyJson.IsScalar ·) = true := by
    apply List.all_eq_true.mpr
    exact fun u hu => decide_eq_true (.inl ((h u hu).trans (by decide)))
  have bytes : s.flatMap PyJson.utf8Bytes = s := by
    clear scalar
    induction s with
    | nil => rfl
    | cons u s ih =>
      rw [List.flatMap_cons, ih fun v hv => h v (List.mem_cons_of_mem u hv), PyJson.utf8Bytes,
        if_pos (h u List.mem_cons_self), List.singleton_append]
  rw [PyJson.encodeUtf8, if_pos scalar, bytes]

theorem map_toNat_ofNat {s : Str} (h : Ascii s) :
  (s.map UInt8.ofNat).map UInt8.toNat = s
  := by
  rw [List.map_map]
  conv_rhs => rw [← List.map_id s]
  apply List.map_congr_left
  intro u hu
  exact UInt8.toNat_ofNat_of_lt' ((h u hu).trans (by decide))

theorem readable_writtenCursor (t : DateTime) (id : Uuid) (d : ℕ) :
  PyJson.Readable ⟨true, false⟩ (fun _ => []) (d + 1) (.dict (writtenCursor t id))
  := by
  have single {s : Str} (h : Ascii s) : ∀ u ∈ s, PyJson.Single true u := by
    intro u hu _
    have := h u hu
    omega
  have distinct : [str "id", str "k"].Nodup := by decide
  have keys : Ascii (str "id") ∧ Ascii (str "k") := by
    unfold Ascii
    decide
  apply PyJson.Readable.dict (writtenCursor t id) distinct
  · intro m hm
    rcases List.mem_pair.mp hm with rfl | rfl
    · exact single keys.1
    · exact single keys.2
  · intro m hm
    rcases List.mem_pair.mp hm with rfl | rfl
    · exact .str _ (single (ascii_uuidText id))
    · exact .str _ (single (ascii_isoformat t))

variable (reader : CursorReader)

/-- A cursor is decoded to the values that were encoded. -/
theorem decodeCursor_encodeCursor (t : DateTime) (id : Uuid) :
  ∃ cursor, encodeCursor (cursorOf t id) = .ok cursor ∧
    reader.decodeCursor cursor = .ok (writtenCursor t id)
  := by
  have ascii := ascii_rawCursor t id
  have encoded := encodeUtf8_of_ascii ascii
  refine ⟨Base64Url.unpad (Base64Url.encode ((rawCursor (cursorOf t id)).map UInt8.ofNat)), ?_, ?_⟩
  · rw [encodeCursor, encoded]
  · have read : PyJson.loadsBytes (reader.depth + 1) (rawCursor (cursorOf t id)) =
        .ok (.dict (writtenCursor t id)) := by
      rw [rawCursor_cursorOf] at encoded
      rw [rawCursor_cursorOf]
      apply PyJson.loadsBytes_dumps (readable_writtenCursor t id reader.depth) encoded
        ((rawCursor_cursorOf t id).symm.trans (rawCursor_eq t id))
      · decide
      · decide
    rw [CursorReader.decodeCursor, CursorReader.payload, Base64Url.decode_pad_unpad_encode]
    dsimp only
    rw [map_toNat_ofNat ascii, read]

/-- The values have the key that they were made of. -/
theorem cursorKey_writtenCursor (t : DateTime) (id : Uuid) :
  reader.cursorKey (writtenCursor t id) = .ok (t, id)
  := by
  have time : (writtenCursor t id).lookup (str "k") = some (.str (isoformat t)) := rfl
  have identifier : (writtenCursor t id).lookup (str "id") = some (.str (uuidText id)) := rfl
  have read : reader.fromisoformat (isoformat t) = some t := by
    rw [CursorReader.fromisoformat, IsoText.readIsoformat_isoformat]
    rfl
  have read' : reader.uuid (uuidText id) = some id := by
    rw [CursorReader.uuid, IsoText.readUuid_uuidText]
    rfl
  rw [CursorReader.cursorKey, time, identifier]
  simp only [CursorReader.shown, orRaise, Option.elim_some, bind, Except.bind, read, read']

end Lumina.Common
