import Lumina.Library.PyJsonRoundTrip

/-!
# The media type of an upload

The type is found from the content, but for Markdown, which is a text whose name ends like one.  What
is neither a PDF nor an archive of one of the two known kinds is a text if it is UTF-8 and all its
characters are printable, up to five control characters.  The separators, but for the space, and the
format characters are not control characters, and they are not printable either.
-/

namespace Lumina.Knowledge

open PyJson (Str str encodeUtf8 encodeUtf8_eq_some_iff)

/-! ### Unicode -/

/-- The general categories of characters. -/
inductive Category where
  | lu | ll | lt | lm | lo
  | mn | mc | me
  | nd | nl | no
  | pc | pd | ps | pe | pi | pf | po
  | sm | sc | sk | so
  | zs | zl | zp
  | cc | cf | cs | co | cn
deriving DecidableEq

inductive ZipError where
  | badZipFile
  | other (name : String)

/-- What Python is asked: the categories of code points, lower case, and the members of an archive. -/
structure PyEnvironment where
  category : ℕ → Category
  category_space : category 0x20 = .zs
  lower : Str → Str
  namelist : List UInt8 → Except ZipError (List Str)

/-- `isprintable`: only the space of the separators, and nothing of the category "other". -/
def PyEnvironment.isPrintable (p : PyEnvironment) (u : ℕ) : Bool :=
  u = 0x20 || p.category u ∉ [.zs, .zl, .zp, .cc, .cf, .cs, .co, .cn]

/-- `content.decode("utf-8")`, which fails for surrogates. -/
def decodeText (content : List UInt8) : Option Str :=
  (PyJson.decodeUtf8 (content.map UInt8.toNat)).filter (·.all (PyJson.IsScalar ·))

/-! ### The detection -/

namespace MediaType

def pdf : String := "application/pdf"

def docx : String := "application/vnd.openxmlformats-officedocument.wordprocessingml.document"

def xlsx : String := "application/vnd.openxmlformats-officedocument.spreadsheetml.sheet"

def text : String := "text/plain"

def markdown : String := "text/markdown"

end MediaType

def acceptedMediaTypes : List String :=
  [MediaType.pdf, MediaType.docx, MediaType.xlsx, MediaType.text, MediaType.markdown]

/-- What `detect_media_type` raises. -/
inductive DetectionError where
  | unsupportedMediaType (message : String) (acceptedMediaTypes : List String)
  | zip (name : String)

/-- `UnsupportedMediaTypeError(accepted=accepted)`. -/
def unsupported (accepted : List String) : DetectionError :=
  .unsupportedMediaType ("檔案格式不支援，目前接受：" ++ "、".intercalate accepted) accepted

/-- `%PDF-`. -/
def pdfMagic : List UInt8 :=
  [0x25, 0x50, 0x44, 0x46, 0x2D]

/-- `PK\x03\x04`. -/
def zipMagic : List UInt8 :=
  [0x50, 0x4B, 0x03, 0x04]

def docxMarker : Str := str "word/document.xml"

def xlsxMarker : Str := str "xl/workbook.xml"

def markdownSuffixes : List Str :=
  [str ".md", str ".markdown"]

/-- Tab, newline, carriage return, form feed and vertical tab. -/
def allowedControlChars : List ℕ :=
  [0x09, 0x0A, 0x0D, 0x0C, 0x0B]

section

variable (p : PyEnvironment)

/-- `_zip_contains`. -/
def zipContains (content : List UInt8) (marker : Str) : Except DetectionError Bool :=
  match p.namelist content with
  | .ok names => .ok (marker ∈ names)
  | .error .badZipFile => .ok false
  | .error (.other name) => .error (.zip name)

/-- `_has_markdown_suffix`. -/
def hasMarkdownSuffix (filename : Str) : Bool :=
  markdownSuffixes.any (·.isSuffixOf (p.lower filename))

/-- `_looks_like_text`. -/
def looksLikeText (content : List UInt8) : Bool :=
  match decodeText content with
  | none => false
  | some text => !text.any fun u => !p.isPrintable u && u ∉ allowedControlChars

/-- The last part of `detect_media_type`. -/
def detectText (content : List UInt8) (filename : Str) : Except DetectionError String :=
  if looksLikeText p content then
    .ok (if hasMarkdownSuffix p filename then MediaType.markdown else MediaType.text)
  else .error (unsupported acceptedMediaTypes)

def detectMediaType (content : List UInt8) (filename : Str) : Except DetectionError String := do
  if content = [] then .error (unsupported acceptedMediaTypes)
  else if pdfMagic.isPrefixOf content then .ok MediaType.pdf
  else if zipMagic.isPrefixOf content then
    if ← zipContains p content docxMarker then .ok MediaType.docx
    else if ← zipContains p content xlsxMarker then .ok MediaType.xlsx
    else detectText p content filename
  else detectText p content filename

/-! ### Texts -/

/-- Valid UTF-8 that is not empty and has no other control character. -/
def IsText (content : List UInt8) : Prop :=
  content ≠ [] ∧ ∃ text, encodeUtf8 text = some (content.map UInt8.toNat) ∧
    ∀ u ∈ text, p.category u = .cc → u ∈ allowedControlChars

/-- A text is accepted as the one of two types that its name says, and anything else is not. -/
def DetectsTexts (content : List UInt8) (filename : Str) : Prop :=
  (IsText p content → detectMediaType p content filename =
    .ok (if hasMarkdownSuffix p filename then MediaType.markdown else MediaType.text)) ∧
  (¬ IsText p content →
    detectMediaType p content filename = .error (unsupported acceptedMediaTypes))

/-- All characters of the text are printable, up to the five control characters. -/
def AllPrintable (content : List UInt8) : Prop :=
  ∀ text, encodeUtf8 text = some (content.map UInt8.toNat) →
    ∀ u ∈ text, p.isPrintable u = true ∨ u ∈ allowedControlChars

end

section

variable {p : PyEnvironment} {content : List UInt8}

theorem decodeText_eq_some_iff {text : Str} :
  decodeText content = some text ↔ encodeUtf8 text = some (content.map UInt8.toNat)
  := by
  rw [decodeText, Option.filter_eq_some_iff, encodeUtf8_eq_some_iff]

theorem looksLikeText_iff :
  looksLikeText p content = true ↔
    ∃ text, encodeUtf8 text = some (content.map UInt8.toNat) ∧
      ∀ u ∈ text, p.isPrintable u = true ∨ u ∈ allowedControlChars
  := by
  have printable (text : Str) :
      (!text.any fun u => !p.isPrintable u && u ∉ allowedControlChars) = true ↔
        ∀ u ∈ text, p.isPrintable u = true ∨ u ∈ allowedControlChars := by
    simp [or_iff_not_imp_left]
  unfold looksLikeText
  cases decoded : decodeText content with
  | none =>
    constructor
    · nofun
    · rintro ⟨text, encoded, _⟩
      rw [decodeText_eq_some_iff.mpr encoded] at decoded
      cases decoded
  | some text =>
    dsimp only
    rw [printable]
    constructor
    · exact fun h => ⟨text, decodeText_eq_some_iff.mp decoded, h⟩
    · rintro ⟨text', encoded, h⟩
      rw [decodeText_eq_some_iff.mpr encoded] at decoded
      cases decoded
      exact h

/-- The code points of bytes are determined. -/
theorem eq_of_encodeUtf8 {text text' : Str}
    (h : encodeUtf8 text = some (content.map UInt8.toNat))
    (h' : encodeUtf8 text' = some (content.map UInt8.toNat)) :
  text = text'
  := by
  have decoded := decodeText_eq_some_iff.mpr h
  rw [decodeText_eq_some_iff.mpr h'] at decoded
  exact (Option.some.inj decoded).symm

/-- A printable character is no control character. -/
theorem category_ne_cc {u : ℕ} (h : p.isPrintable u = true) :
  p.category u ≠ .cc
  := by
  intro control
  unfold PyEnvironment.isPrintable at h
  rcases Bool.or_eq_true_iff.mp h with space | other
  · rw [of_decide_eq_true space, p.category_space] at control
    cases control
  · rw [control] at other
    exact absurd other (by decide)

theorem isText_of_looksLikeText (nonempty : content ≠ []) (h : looksLikeText p content = true) :
  IsText p content
  := by
  obtain ⟨text, encoded, printable⟩ := looksLikeText_iff.mp h
  refine ⟨nonempty, text, encoded, ?_⟩
  intro u hu control
  exact (printable u hu).resolve_left fun h => category_ne_cc h control

/-- A text looks like one where all its characters are printable. -/
theorem looksLikeText_of_isText (isText : IsText p content) :
  looksLikeText p content = true ↔ AllPrintable p content
  := by
  obtain ⟨_, text, encoded, _⟩ := isText
  rw [looksLikeText_iff]
  constructor
  · rintro ⟨text', encoded', h⟩ text'' encoded''
    rw [eq_of_encodeUtf8 encoded'' encoded']
    exact h
  · exact fun h => ⟨text, encoded, h text encoded⟩

theorem detectMediaType_eq (pdf : ¬ pdfMagic.isPrefixOf content = true)
    (zip : ¬ zipMagic.isPrefixOf content = true) (nonempty : content ≠ []) (filename : Str) :
  detectMediaType p content filename = detectText p content filename
  := by
  rw [detectMediaType, if_neg nonempty, if_neg pdf, if_neg zip]

end

/-- Outside of PDF files and archives, texts are detected exactly where none of them has a character
that is neither printable nor one of the five control characters. -/
theorem detectsTexts_iff (p : PyEnvironment) {content : List UInt8}
    (pdf : ¬ pdfMagic.isPrefixOf content = true) (zip : ¬ zipMagic.isPrefixOf content = true)
    (filename : Str) :
  DetectsTexts p content filename ↔ (IsText p content → AllPrintable p content)
  := by
  by_cases empty : content = []
  · have other : ¬ IsText p content := fun isText => isText.1 empty
    have raised : detectMediaType p content filename = .error (unsupported acceptedMediaTypes) := by
      rw [detectMediaType, if_pos empty]
    exact ⟨fun _ isText => absurd isText other, fun _ => ⟨fun isText => absurd isText other,
      fun _ => raised⟩⟩
  rw [DetectsTexts, detectMediaType_eq pdf zip empty, detectText]
  constructor
  · rintro ⟨accepted, _⟩ isText
    have accepted := accepted isText
    split_ifs at accepted with looks
    · exact (looksLikeText_of_isText isText).mp looks
    · exact (looksLikeText_of_isText isText).mp looks
  · intro h
    constructor
    · intro isText
      rw [if_pos ((looksLikeText_of_isText isText).mpr (h isText))]
    · intro other
      rw [if_neg fun looks => other (isText_of_looksLikeText empty looks)]

/-! ### An ideographic space -/

/-- An environment that knows the separators and the control characters of the first blocks. -/
def plainEnvironment : PyEnvironment where
  category u :=
    if u = 0x20 ∨ u = 0xA0 ∨ u = 0x3000 then .zs
    else if u < 0x20 ∨ 0x7F ≤ u ∧ u < 0xA0 then .cc
    else .lo
  category_space := rfl
  lower := id
  namelist := fun _ => .error .badZipFile

theorem detectsTexts_iff_letter :
  DetectsTexts plainEnvironment [0x61] (str "a.md")
  := by
  apply (detectsTexts_iff plainEnvironment (by decide) (by decide) (str "a.md")).mpr
  intro _ text encoded
  have same : text = [0x61] := eq_of_encodeUtf8 encoded rfl
  rw [same]
  decide

/-- The bytes of U+3000, which is a separator, are not accepted. -/
theorem not_detectsTexts :
  ¬ ∀ (p : PyEnvironment) (content : List UInt8) (filename : Str),
    ¬ pdfMagic.isPrefixOf content = true → ¬ zipMagic.isPrefixOf content = true →
      DetectsTexts p content filename
  := by
  intro claim
  have detected := claim plainEnvironment [0xE3, 0x80, 0x80] (str "a.txt") (by decide) (by decide)
  have isText : IsText plainEnvironment [0xE3, 0x80, 0x80] :=
    ⟨by decide, [0x3000], rfl, by decide⟩
  have accepted := detected.1 isText
  have raised : detectMediaType plainEnvironment [0xE3, 0x80, 0x80] (str "a.txt") =
      .error (unsupported acceptedMediaTypes) := by
    rfl
  rw [raised] at accepted
  cases accepted

end Lumina.Knowledge
