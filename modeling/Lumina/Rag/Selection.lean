import Lumina.Rag.Pipeline

/-!
# What the context has room for

`select_context` goes through the candidates and stops before the first one that does not fit,
except that the first candidate is always taken.  What it takes is the longest part from the
beginning that stays within the budget wherever it is cut after the first candidate.
-/

namespace Lumina.Rag

open Etl (estimateTokens)

/-- The tokens of chunks. -/
def cost (chunks : List RetrievedChunk) : ℕ :=
  (chunks.map fun chunk => estimateTokens chunk.content).sum

@[simp]
theorem cost_nil : cost [] = 0 := rfl

@[simp]
theorem cost_cons (chunk : RetrievedChunk) (chunks : List RetrievedChunk) :
  cost (chunk :: chunks) = estimateTokens chunk.content + cost chunks
  := List.sum_cons

theorem cost_le_of_prefix {chunks chunks' : List RetrievedChunk} (h : chunks <+: chunks') :
  cost chunks ≤ cost chunks'
  := by
  obtain ⟨rest, rfl⟩ := h
  unfold cost
  rw [List.map_append, List.sum_append]
  exact Nat.le_add_right _ _

/-- Each part from the beginning that has two chunks at least is within the budget. -/
def Affordable (tokenBudget : ℤ) (chunks : List RetrievedChunk) : Prop :=
  ∀ chunks', chunks' <+: chunks → 2 ≤ chunks'.length → (cost chunks' : ℤ) ≤ tokenBudget

/-- The larger the part, the more tokens it has. -/
theorem affordable_iff (tokenBudget : ℤ) (chunks : List RetrievedChunk) :
  Affordable tokenBudget chunks ↔ (2 ≤ chunks.length → (cost chunks : ℤ) ≤ tokenBudget)
  := by
  constructor
  · exact fun h => h chunks List.prefix_rfl
  · intro h chunks' initial two
    have whole := h (two.trans initial.length_le)
    have le : (cost chunks' : ℤ) ≤ cost chunks := by exact_mod_cast cost_le_of_prefix initial
    exact le.trans whole

theorem Affordable.mono {tokenBudget tokenBudget' : ℤ} {chunks : List RetrievedChunk}
    (h : Affordable tokenBudget chunks) (le : tokenBudget ≤ tokenBudget') :
  Affordable tokenBudget' chunks
  := fun chunks' initial two => (h chunks' initial two).trans le

/-- The longest affordable part of the candidates, up to a number of chunks. -/
structure Selects (candidates : List RetrievedChunk) (maxChunks : ℕ) (tokenBudget : ℤ)
    (selected : List RetrievedChunk) : Prop where
  initial : selected <+: candidates.take maxChunks
  affordable : Affordable tokenBudget selected
  longest : ∀ chunks, chunks <+: candidates.take maxChunks → Affordable tokenBudget chunks →
    chunks <+: selected

/-! ### The loop -/

theorem selectFrom_prefix (tokenBudget : ℤ) (selected : Bool) (used : ℕ)
    (chunks : List RetrievedChunk) :
  selectFrom tokenBudget selected used chunks <+: chunks
  := by
  induction chunks generalizing selected used with
  | nil => exact List.prefix_rfl
  | cons chunk chunks ih =>
    unfold selectFrom
    dsimp only
    split
    · exact List.nil_prefix
    · exact (List.prefix_cons_inj chunk).mpr (ih _ _)

/-- What is selected after the first chunk fits beside the tokens that are used. -/
theorem selectFrom_cost (tokenBudget : ℤ) (used : ℕ) (chunks : List RetrievedChunk)
    (some : selectFrom tokenBudget true used chunks ≠ []) :
  (used + cost (selectFrom tokenBudget true used chunks) : ℤ) ≤ tokenBudget
  := by
  induction chunks generalizing used with
  | nil => exact absurd rfl some
  | cons chunk chunks ih =>
    unfold selectFrom at some ⊢
    dsimp only [Bool.true_and] at some ⊢
    split at some
    next => exact absurd rfl some
    next fits =>
      have fits : ((used + estimateTokens chunk.content : ℕ) : ℤ) ≤ tokenBudget :=
        not_lt.mp fun exceeds => fits (decide_eq_true exceeds)
      rw [if_neg (by simpa using fits), cost_cons]
      by_cases last : selectFrom tokenBudget true (used + estimateTokens chunk.content) chunks = []
      · rw [last, cost_nil]
        exact_mod_cast fits
      · have rest := ih _ last
        push_cast at rest ⊢
        omega

/-- A part that fits is selected. -/
theorem prefix_selectFrom (tokenBudget : ℤ) (used : ℕ) {chunks chunks' : List RetrievedChunk}
    (initial : chunks' <+: chunks) (fits : chunks' ≠ [] → (used + cost chunks' : ℤ) ≤ tokenBudget) :
  chunks' <+: selectFrom tokenBudget true used chunks
  := by
  induction chunks generalizing used chunks' with
  | nil => exact initial
  | cons chunk chunks ih =>
    cases chunks' with
    | nil => exact List.nil_prefix
    | cons chunk' chunks' =>
      obtain ⟨rfl, rest⟩ := List.cons_prefix_cons.mp initial
      have fits := fits (List.cons_ne_nil _ _)
      rw [cost_cons] at fits
      push_cast at fits
      unfold selectFrom
      dsimp only [Bool.true_and]
      have first : ¬(tokenBudget < (used + estimateTokens chunk'.content : ℕ)) := by
        push_cast
        omega
      rw [if_neg (by simpa using first)]
      apply (List.prefix_cons_inj chunk').mpr
      apply ih _ rest
      intro _
      push_cast
      omega

/-- The first candidate is always selected. -/
theorem selectFrom_cons (tokenBudget : ℤ) (chunk : RetrievedChunk) (chunks : List RetrievedChunk) :
  selectFrom tokenBudget false 0 (chunk :: chunks) =
    chunk :: selectFrom tokenBudget true (estimateTokens chunk.content) chunks
  := by
  rw [selectFrom, Bool.false_and, if_neg Bool.false_ne_true, Nat.zero_add]

theorem upTo_natCast {α : Type} (stop : ℕ) (items : List α) : upTo stop items = items.take stop :=
  congrArg items.take (if_pos (Int.natCast_nonneg stop))

theorem selects_selectContext (candidates : List RetrievedChunk) (maxChunks : ℕ) (tokenBudget : ℤ) :
  Selects candidates maxChunks tokenBudget (selectContext candidates maxChunks tokenBudget)
  := by
  unfold selectContext
  rw [upTo_natCast]
  constructor
  · exact selectFrom_prefix _ _ _ _
  · apply (affordable_iff _ _).mpr
    intro two
    cases hchunks : candidates.take maxChunks with
    | nil =>
      rw [hchunks] at two
      cases two
    | cons chunk chunks =>
      rw [hchunks, selectFrom_cons] at two
      rw [selectFrom_cons, cost_cons]
      have some : selectFrom tokenBudget true (estimateTokens chunk.content) chunks ≠ [] := by
        intro none
        rw [none] at two
        exact absurd two (Nat.not_succ_le_self 1)
      exact_mod_cast selectFrom_cost tokenBudget _ chunks some
  · intro chunks' initial affordable
    cases hchunks : candidates.take maxChunks with
    | nil =>
      rw [hchunks] at initial
      exact initial
    | cons chunk chunks =>
      rw [hchunks] at initial
      rw [selectFrom_cons]
      cases chunks' with
      | nil => exact List.nil_prefix
      | cons chunk' chunks' =>
        obtain ⟨rfl, rest⟩ := List.cons_prefix_cons.mp initial
        apply (List.prefix_cons_inj chunk').mpr
        apply prefix_selectFrom tokenBudget _ rest
        intro some
        have whole := (affordable_iff _ _).mp affordable
          (Nat.succ_le_succ (List.length_pos_iff.mpr some))
        rw [cost_cons] at whole
        exact_mod_cast whole

/-! ### The context -/

/-- The longest affordable part is selected: it is over the budget only if it is the first candidate
alone, it is not empty unless it has to be, and a greater budget adds to its end. -/
theorem selectContext_longest (candidates : List RetrievedChunk) (maxChunks : ℕ) :
  (∀ tokenBudget,
    let selected := selectContext candidates maxChunks tokenBudget
    Selects candidates maxChunks tokenBudget selected ∧
      (selected ≠ [] → tokenBudget < cost selected → ∃ chunk, candidates.head? = some chunk ∧
        selected = [chunk]) ∧
      (candidates ≠ [] → maxChunks ≠ 0 → selected ≠ [])) ∧
    ∀ tokenBudget tokenBudget', tokenBudget ≤ tokenBudget' →
      selectContext candidates maxChunks tokenBudget <+:
        selectContext candidates maxChunks tokenBudget'
  := by
  constructor
  · intro tokenBudget
    have selects := selects_selectContext candidates maxChunks tokenBudget
    dsimp only
    generalize selectContext candidates maxChunks tokenBudget = selected at selects
    refine ⟨selects, ?_, ?_⟩
    · intro some exceeds
      obtain ⟨chunk, chunks, rfl⟩ := List.exists_cons_of_ne_nil some
      have initial := selects.initial.trans (List.take_prefix _ _)
      obtain ⟨rest, rfl⟩ := initial
      have alone : chunks = [] := by
        by_contra more
        have within := (affordable_iff _ _).mp selects.affordable
          (Nat.succ_le_succ (List.length_pos_iff.mpr more))
        exact absurd exceeds (not_lt.mpr within)
      exact ⟨chunk, rfl, congrArg _ alone⟩
    · intro some positive
      obtain ⟨chunk, chunks, rfl⟩ := List.exists_cons_of_ne_nil some
      obtain ⟨n, rfl⟩ := Nat.exists_eq_succ_of_ne_zero positive
      have single : [chunk] <+: selected := by
        apply selects.longest
        · rw [List.take_succ_cons]
          exact List.cons_prefix_cons.mpr ⟨rfl, List.nil_prefix⟩
        · apply (affordable_iff _ _).mpr
          intro two
          exact absurd two (Nat.not_succ_le_self 1)
      intro none
      rw [none] at single
      exact absurd (List.prefix_nil.mp single) (List.cons_ne_nil _ _)
  · intro tokenBudget tokenBudget' le
    have selects := selects_selectContext candidates maxChunks tokenBudget
    exact (selects_selectContext candidates maxChunks tokenBudget').longest _ selects.initial
      (selects.affordable.mono le)

end Lumina.Rag
