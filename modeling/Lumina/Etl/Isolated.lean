import Lumina.Etl.MarkdownLoader
import Lumina.Etl.Sandbox

/-!
# Extraction in the isolated process

`extract` finds the loader of a media type and turns whatever it raises into an error with a cause.
In production the extraction runs in the isolated process, and what comes back of an exception is
the name of its class: the cause stays behind.
-/

namespace Lumina.Etl

open Knowledge (DomainError ExtractedDoc errorPayload)
open MarkdownLoader (LoadResult)
open Sandbox
open Transition

/-- What a loader may raise. -/
inductive Raised where
  | domain (e : DomainError)
  /-- Another subclass of `Exception`. -/
  | exception (e : Thrown)
  /-- A `BaseException` that is none. -/
  | base (e : Thrown)

/-- What the child reports of an exception. -/
def Raised.thrown : Raised → Thrown
  | .domain e => ⟨e.cls.name, e.text⟩
  | .exception e => e
  | .base e => e

abbrev Loader := List UInt8 → Except Raised LoadResult

structure Loaders where
  pdf : Loader
  docx : Loader
  xlsx : Loader
  text : Loader
  markdown : Loader

/-- `_LOADERS` -/
def Loaders.table (loaders : Loaders) : List (String × Loader) :=
  [(Knowledge.MediaType.pdf, loaders.pdf), (Knowledge.MediaType.docx, loaders.docx),
    (Knowledge.MediaType.xlsx, loaders.xlsx), (Knowledge.MediaType.text, loaders.text),
    (Knowledge.MediaType.markdown, loaders.markdown)]

/-- The `except` clauses of `extract`. -/
def convert (mediaType : String) : Raised → Raised
  | .domain e =>
      if e.cls = .extractionFailed then .domain e
      else .domain (MarkdownLoader.extractionFailed ("抽取失敗（" ++ mediaType ++ "）") e.cls.name)
  | .exception e => .domain (MarkdownLoader.extractionFailed ("抽取失敗（" ++ mediaType ++ "）") e.name)
  | .base e => .base e

def extract (loaders : Loaders) (content : List UInt8) (mediaType : String) :
    Except Raised ExtractedDoc :=
  match loaders.table.lookup mediaType with
  | none =>
      .error (.domain
        (MarkdownLoader.extractionFailed ("沒有對應的 loader：" ++ mediaType) "unsupported_media_type"))
  | some load =>
      match load content with
      | .error e => .error (convert mediaType e)
      | .ok (blocks, sourceMeta) =>
          .ok {
            blocks := blocks
            docMeta := Dict.set "block_count" (.int blocks.length)
              (Dict.set "media_type" (.str mediaType) sourceMeta) }

/-- What `_extract` may end with; what a loader does may depend on the memory. -/
def Extracts (p : Setting ExtractedDoc) (mediaType : String) : Prop :=
  ∀ out, p.computes out = true →
    ∃ loaders content, out = (extract loaders content mediaType).mapError Raised.thrown

/-- The error of a failed call. -/
def Sandbox.Failure.error (f : Failure) : DomainError :=
  MarkdownLoader.extractionFailed f.message f.cause

def Sandbox.Outcome.failure? {α : Type} : Outcome α → Option Failure
  | .failed f => some f
  | .returned _ | .malformed => none

/-! ### What is left of a cause -/

/-- The cause that is recorded of a failed call. -/
def recordedCause (f : Failure) : String := (errorPayload (.domain f.error)).cause

theorem recordedCause_cases (f : Failure) :
  recordedCause f = "ExtractionFailedError" ∨ recordedCause f = f.cause
  := by
  have recorded : recordedCause f =
      if f.cause = "" then "ExtractionFailedError" else f.cause := rfl
  rw [recorded]
  by_cases h : f.cause = ""
  · rw [if_pos h]
    exact .inl rfl
  · rw [if_neg h]
    exact .inr rfl

theorem convert_cases (mediaType : String) (r : Raised) :
  (∃ e : DomainError, e.cls = .extractionFailed ∧ convert mediaType r = .domain e) ∨
    ∃ e, convert mediaType r = .base e
  := by
  cases r with
  | domain e =>
    by_cases own : e.cls = .extractionFailed
    · exact .inl ⟨e, own, if_pos own⟩
    · exact .inl ⟨_, rfl, if_neg own⟩
  | exception e => exact .inl ⟨_, rfl, rfl⟩
  | base e => exact .inr ⟨e, rfl⟩

/-- What leaves `extract` is an error of its own, or no `Exception`. -/
theorem error_of_extract {loaders : Loaders} {content : List UInt8} {mediaType : String}
    {r : Raised} (h : extract loaders content mediaType = .error r) :
  (∃ e : DomainError, e.cls = .extractionFailed ∧ r = .domain e) ∨ ∃ e, r = .base e
  := by
  unfold extract at h
  split at h
  · cases h
    exact .inl ⟨_, rfl, rfl⟩
  · split at h
    · cases h
      exact convert_cases mediaType _
    · cases h

/-- The causes that the isolated process has of its own. -/
def ownCauses : List String :=
  ["ExtractionFailedError", "timeout", "child_bootstrap_timeout", "child_crashed",
    "unserializable_result"]

theorem recordedCause_mem {f : Failure} (h : f.cause ∈ ownCauses) :
  recordedCause f ∈ ownCauses
  := by
  obtain own | same := recordedCause_cases f
  · rw [own]
    exact List.mem_cons_self
  · rw [same]
    exact h

/-- The names of exceptions that no loader and no handler is responsible for. -/
def Foreign (p : Setting ExtractedDoc) (mediaType : String) (name : String) : Prop :=
  ∃ e : Thrown, e.name = name ∧ (p.refuses e = true ∨
    ∃ loaders content, extract loaders content mediaType = .error (.base e))

theorem name_of_source {p : Setting ExtractedDoc} {mediaType : String}
    (extracts : Extracts p mediaType) {e : Thrown} (source : p.Source e) :
  e.name = "ExtractionFailedError" ∨ Foreign p mediaType e.name
  := by
  cases source with
  | inr refused => exact .inr ⟨e, rfl, .inl refused⟩
  | inl computed =>
    obtain ⟨loaders, content, ends⟩ := extracts _ computed
    cases found : extract loaders content mediaType with
    | ok doc =>
      rw [found] at ends
      cases ends
    | error r =>
      rw [found] at ends
      cases ends
      obtain ⟨e, own, rfl⟩ | ⟨e, rfl⟩ := error_of_extract found
      · left
        show e.cls.name = _
        rw [own]
        rfl
      · exact .inr ⟨e, rfl, .inr ⟨loaders, content, found⟩⟩

/-- A picture is given to the extraction. -/
def pictureSetting : Setting ExtractedDoc where
  computes
    | .ok _ => false
    | .error e => e = ⟨"ExtractionFailedError", "[ETL_FAILED] 沒有對應的 loader：image/png"⟩
  refuses := fun _ => false
  text := fun _ => ""
  timeout := 120000
  timeoutText := "120"

/-- The failure that the parent has seen of a picture. -/
def pictureFailure : Failure :=
  reported "ExtractionFailedError" "[ETL_FAILED] 沒有對應的 loader：image/png"

end Lumina.Etl
