import Lumina.Etl.Normalize
import Mathlib.Data.List.Dedup

/-!
# What the cleaner leaves

The blocks of a cleaned document are some of those of the document, in their order, with their texts
normalised and their numbers anew, and they are left as they are when the document is cleaned again.
A block that is left out as garbled need not be garbage: line breaks and tabs are control characters
too.
-/

namespace Lumina.Etl

open Knowledge (Block BlockMeta BlockType ExtractedDoc)

/-- A block and what is left of it. -/
structure Cleaned (block block' : Block) : Prop where
  type : block'.type = block.type
  text : block'.text = String.ofList (cleanText block)
  page : block'.position.page = block.position.page
  headingPath : block'.position.headingPath = block.position.headingPath

namespace Cleaner

variable (c : Cleaner)

/-- Whether a block is kept. -/
def keeps (headers : List Text) (block : Block) : Bool :=
  c.outcome headers block = .kept (cleanText block)

theorem outcome_eq_kept {headers : List Text} {block : Block} {text : Text}
    (h : c.outcome headers block = .kept text) :
  text = cleanText block
  := by
  unfold outcome at h
  split_ifs at h
  exact (Outcome.kept.inj h).symm

theorem keeps_iff {headers : List Text} {block : Block} :
  c.keeps headers block ↔
    normalizeForMatch block.text.toList ∉ headers ∧ strip (cleanText block) ≠ [] ∧
      ¬ (block.type ≠ .table && c.isGarbled (cleanText block))
  := by
  unfold keeps outcome
  rw [decide_eq_true_eq]
  split_ifs with header blank garbled
  · exact iff_of_false nofun fun h => h.1 header
  · exact iff_of_false nofun fun h => h.2.1 blank
  · exact iff_of_false nofun fun h => h.2.2 garbled
  · exact iff_of_true rfl ⟨header, blank, garbled⟩

end Cleaner

/-! ### The loop -/

/-- What the loop has after some of the blocks. -/
structure Cleaning.Holds (c : Cleaner) (headers : List Text) (blocks : List Block) (s : Cleaning) :
    Prop where
  kept : List.Forall₂ Cleaned (blocks.filter (c.keeps headers)) s.kept
  order : s.kept.map (·.position.order) = List.range s.kept.length
  total : blocks.length = s.kept.length + s.dropped + s.removedHeaders

theorem Cleaning.push_of_keeps {c : Cleaner} {headers : List Text} {block : Block}
    (h : c.keeps headers block) (s : Cleaning) :
  s.push c headers block =
    { s with kept := s.kept ++ [keptBlock s.kept.length block (cleanText block)] }
  := by
  rw [Cleaning.push, of_decide_eq_true h]

/-- A block that is not kept is counted. -/
theorem Cleaning.push_of_not_keeps {c : Cleaner} {headers : List Text} {block : Block}
    (h : c.keeps headers block = false) (s : Cleaning) :
  (s.push c headers block).kept = s.kept ∧
  (s.push c headers block).dropped + (s.push c headers block).removedHeaders =
    s.dropped + s.removedHeaders + 1
  := by
  unfold Cleaning.push
  split
  · exact ⟨rfl, rfl⟩
  · exact ⟨rfl, Nat.add_right_comm _ _ _⟩
  · exact ⟨rfl, Nat.add_right_comm _ _ _⟩
  · rename_i text outcome
    obtain rfl := c.outcome_eq_kept outcome
    exact absurd outcome (of_decide_eq_false h)

theorem Cleaning.Holds.push {c : Cleaner} {headers : List Text} {blocks : List Block} {s : Cleaning}
    (h : s.Holds c headers blocks) (block : Block) :
  (s.push c headers block).Holds c headers (blocks ++ [block])
  := by
  obtain ⟨kept, order, total⟩ := h
  cases keeps : c.keeps headers block with
  | false =>
    obtain ⟨same, counted⟩ := Cleaning.push_of_not_keeps keeps s
    constructor
    · rw [same, List.filter_append, List.filter_cons_of_neg (by simp [keeps]), List.filter_nil,
        List.append_nil]
      exact kept
    · rw [same]
      exact order
    · rw [same, List.length_append, List.length_singleton, total]
      omega
  | true =>
    rw [Cleaning.push_of_keeps keeps]
    constructor
    · rw [List.filter_append, List.filter_cons_of_pos keeps, List.filter_nil]
      exact List.rel_append kept (.cons ⟨rfl, rfl, rfl, rfl⟩ .nil)
    · rw [List.map_append, order, List.length_append, List.length_singleton, List.range_succ]
      rfl
    · rw [List.length_append, List.length_singleton, total]
      dsimp only
      rw [List.length_append, List.length_singleton]
      omega

theorem Cleaning.Holds.foldl_push {c : Cleaner} {headers : List Text} {blocks : List Block}
    {s : Cleaning} (h : s.Holds c headers blocks) (rest : List Block) :
  (rest.foldl (Cleaning.push c headers) s).Holds c headers (blocks ++ rest)
  := by
  induction rest generalizing s blocks with
  | nil => rwa [List.append_nil]
  | cons block rest ih =>
    rw [List.append_cons]
    exact ih (h.push block)

theorem holds_cleaning (c : Cleaner) (doc : ExtractedDoc) :
  (c.cleaning doc).Holds c (repeatedPageTexts doc) doc.blocks
  := by
  have start : Cleaning.Holds c (repeatedPageTexts doc) [] {} := ⟨.nil, rfl, rfl⟩
  exact start.foldl_push doc.blocks

/-! ### The second time -/

namespace Cleaned

variable {block block' : Block}

theorem toList_text (h : Cleaned block block') : block'.text.toList = cleanText block := by
  rw [h.text, String.toList_ofList]

theorem cleanText_eq (h : Cleaned block block') :
  cleanText block' = cleanText block
  := by
  have same := h.toList_text
  unfold cleanText at *
  rw [h.type, same]
  split_ifs
  · rfl
  · exact normalize_normalize _

theorem normalizeForMatch_eq (h : Cleaned block block') :
  normalizeForMatch block'.text.toList = normalizeForMatch block.text.toList
  := by
  rw [h.toList_text, cleanText]
  split_ifs
  · rfl
  · exact normalizeForMatch_normalize _

theorem pageText_eq (h : Cleaned block block') :
  pageText block' = pageText block
  := by
  rw [pageText, pageText, h.page, h.type, h.normalizeForMatch_eq]

theorem keeps {c : Cleaner} {headers headers' : List Text} (h : Cleaned block block')
    (fewer : headers' ⊆ headers) (kept : c.keeps headers block) :
  c.keeps headers' block'
  := by
  rw [c.keeps_iff] at *
  rw [h.normalizeForMatch_eq, h.cleanText_eq, h.type]
  exact ⟨fun found => kept.1 (fewer found), kept.2⟩

end Cleaned

theorem mem_repeatedPageTexts {doc : ExtractedDoc} {text : Text} :
  text ∈ repeatedPageTexts doc ↔
    (∃ page, (text, page) ∈ doc.blocks.filterMap pageText) ∧
    headerMinPages ≤ (doc.blocks.filterMap pageText).dedup.countP (·.1 = text)
  := by
  simp [repeatedPageTexts]

/-- With fewer texts on pages, there are fewer headers. -/
theorem repeatedPageTexts_subset {doc doc' : ExtractedDoc}
    (h : doc'.blocks.filterMap pageText ⊆ doc.blocks.filterMap pageText) :
  repeatedPageTexts doc' ⊆ repeatedPageTexts doc
  := by
  intro text
  rw [mem_repeatedPageTexts, mem_repeatedPageTexts]
  rintro ⟨⟨page, found⟩, many⟩
  have fewer : (doc'.blocks.filterMap pageText).dedup.Subperm
      (doc.blocks.filterMap pageText).dedup := by
    apply List.subperm_of_subset (List.nodup_dedup _)
    exact fun pair hp => List.mem_dedup.mpr (h (List.mem_dedup.mp hp))
  exact ⟨⟨page, h found⟩, many.trans (fewer.countP_le _)⟩

/-- What a block has become is on the same page with the same text. -/
theorem filterMap_pageText_subset {blocks kept kept' : List Block} (sub : kept ⊆ blocks)
    (h : List.Forall₂ Cleaned kept kept') :
  kept'.filterMap pageText ⊆ blocks.filterMap pageText
  := by
  have same : kept'.filterMap pageText = kept.filterMap pageText := by
    induction h with
    | nil => rfl
    | cons head _ ih =>
      rw [List.filterMap_cons, List.filterMap_cons, head.pageText_eq,
        ih (List.subset_of_cons_subset sub)]
  rw [same]
  exact List.filterMap_subset pageText sub

/-- Blocks that are kept, normalised and numbered are added as they are. -/
theorem foldl_push_of_clean {c : Cleaner} {headers : List Text} {blocks : List Block} (s : Cleaning)
    (kept : ∀ block ∈ blocks, c.keeps headers block ∧ cleanText block = block.text.toList)
    (order : blocks.map (·.position.order) = List.range' s.kept.length blocks.length) :
  blocks.foldl (Cleaning.push c headers) s = { s with kept := s.kept ++ blocks }
  := by
  induction blocks generalizing s with
  | nil => rw [List.foldl_nil, List.append_nil]
  | cons block blocks ih =>
    obtain ⟨⟨keeps, text⟩, others⟩ := List.forall_mem_cons.mp kept
    rw [List.map_cons, List.length_cons, List.range'_succ] at order
    obtain ⟨number, numbers⟩ := List.cons.inj order
    have same : keptBlock s.kept.length block (cleanText block) = block := by
      rw [keptBlock, text, String.ofList_toList, ← number]
    rw [List.foldl_cons, Cleaning.push_of_keeps keeps, same, ih _ others]
    · simp only [List.append_assoc, List.singleton_append]
    · rw [numbers, List.length_append, List.length_singleton]

/-- Each block of the result comes from one that is kept. -/
theorem exists_of_mem_kept {blocks kept' : List Block} (h : List.Forall₂ Cleaned blocks kept')
    {block' : Block} (hmem : block' ∈ kept') :
  ∃ block ∈ blocks, Cleaned block block'
  := by
  induction h with
  | nil => cases hmem
  | cons head _ ih =>
    rcases List.mem_cons.mp hmem with rfl | hmem
    · exact ⟨_, List.mem_cons_self, head⟩
    · obtain ⟨block, found, cleaned⟩ := ih hmem
      exact ⟨block, List.mem_cons_of_mem _ found, cleaned⟩

theorem cleaning_clean (c : Cleaner) (doc : ExtractedDoc) :
  c.cleaning (c.clean doc).1 = { kept := (c.cleaning doc).kept }
  := by
  have holds := holds_cleaning c doc
  have fewer : repeatedPageTexts (c.clean doc).1 ⊆ repeatedPageTexts doc :=
    repeatedPageTexts_subset (filterMap_pageText_subset (List.filter_subset_self _) holds.kept)
  apply foldl_push_of_clean {}
  · intro block' hmem
    obtain ⟨block, found, cleaned⟩ := exists_of_mem_kept holds.kept hmem
    have keeps := (List.mem_filter.mp found).2
    rw [cleaned.cleanText_eq, cleaned.toList_text]
    exact ⟨cleaned.keeps fewer keeps, rfl⟩
  · exact holds.order.trans List.range_eq_range'

/-- A cleaned document has some of the blocks in their order, with their texts normalised and their
numbers anew; the others are counted; and it is left as it is when it is cleaned again. -/
theorem clean_idempotent (c : Cleaner) (doc : ExtractedDoc) :
  (∃ kept, kept.Sublist doc.blocks ∧ List.Forall₂ Cleaned kept (c.clean doc).1.blocks) ∧
  (c.clean doc).1.blocks.map (·.position.order) = List.range (c.clean doc).1.blocks.length ∧
  (c.clean doc).2.totalBlocks = (c.clean doc).1.blocks.length + (c.clean doc).2.droppedBlocks ∧
  (c.clean (c.clean doc).1).1 = (c.clean doc).1 ∧
  (c.clean (c.clean doc).1).2.droppedBlocks = 0 ∧
  (c.clean (c.clean doc).1).2.removedHeaders = 0
  := by
  have holds := holds_cleaning c doc
  have again := cleaning_clean c doc
  refine ⟨⟨_, List.filter_sublist, holds.kept⟩, holds.order, ?_, ?_, ?_, ?_⟩
  · have total := holds.total
    change doc.blocks.length - (c.cleaning doc).removedHeaders =
      (c.cleaning doc).kept.length + (c.cleaning doc).dropped
    omega
  · have members := Dict.set_set_again (show "language" ≠ "block_count" by decide)
      (Json.Value.str (c.clean doc).2.language) (.int (c.clean doc).1.blocks.length) doc.docMeta
    rw [Cleaner.clean, again]
    exact congrArg (ExtractedDoc.mk _) members
  · rw [Cleaner.clean, again]
  · rw [Cleaner.clean, again]

/-! ### Garbage -/

namespace Cleaner

variable (c : Cleaner)

/-- A character that could not be decoded, or a control character that is no white space. -/
def isGarbage (char : Char) : Bool :=
  char = '\uFFFD' || c.unassigned char || (isControl char && !isSpace char)

/-- White space with the category of the control characters, such as a line break or a tab. -/
def isSpaceControl (char : Char) : Bool :=
  !c.isGarbage char && isControl char && isSpace char

/-- More than the threshold share of a text is garbage. -/
def MostlyGarbage (text : Text) : Prop :=
  3 * text.length < 10 * text.countP c.isGarbage

theorem isBad_eq (char : Char) :
  c.isBad char = (c.isGarbage char || c.isSpaceControl char)
  := by
  unfold isBad isSpaceControl isGarbage
  cases decide (char = '\uFFFD')
  all_goals
    cases c.unassigned char
    all_goals
      cases isControl char
      all_goals
        cases isSpace char
        all_goals rfl

/-- What is counted is the garbage and the line breaks and tabs. -/
theorem countP_isBad (text : Text) :
  text.countP c.isBad = text.countP c.isGarbage + text.countP c.isSpaceControl
  := by
  induction text with
  | nil => rfl
  | cons char text ih =>
    rw [List.countP_cons, List.countP_cons, List.countP_cons, ih, isBad_eq]
    cases garbage : c.isGarbage char with
    | true =>
      have other : c.isSpaceControl char = false := by simp [isSpaceControl, garbage]
      rw [other]
      simp
      omega
    | false =>
      rw [Bool.false_or]
      simp
      omega

theorem normalize_ne_nil_iff {text : Text} :
  normalize text ≠ [] ↔ strip (normalize text) ≠ []
  := by
  have normal := normal_normalize text
  rw [strip_eq_self normal.first normal.last]

theorem isGarbled_iff {text : Text} (h : text ≠ []) :
  c.isGarbled text ↔
    exceedsGarbledRatio (text.countP c.isGarbage + text.countP c.isSpaceControl) text.length
  := by
  rw [isGarbled, if_neg h, countP_isBad]

theorem outcome_eq_garbled_iff {headers : List Text} {block : Block} :
  c.outcome headers block = .garbled ↔
    normalizeForMatch block.text.toList ∉ headers ∧ strip (cleanText block) ≠ [] ∧
      block.type ≠ .table ∧ c.isGarbled (cleanText block)
  := by
  unfold outcome
  split_ifs with header blank garbled
  · exact iff_of_false nofun fun h => h.1 header
  · exact iff_of_false nofun fun h => h.2.1 blank
  · rw [Bool.and_eq_true, decide_eq_true_eq] at garbled
    exact iff_of_true rfl ⟨header, blank, garbled⟩
  · rw [Bool.and_eq_true, decide_eq_true_eq] at garbled
    exact iff_of_false nofun fun h => garbled h.2.2

end Cleaner

/-- Three short lines. -/
def shortLines : ExtractedDoc where
  blocks := [{ type := .paragraph, text := "a\nb\nc", position := { order := 0 } }]

end Lumina.Etl
