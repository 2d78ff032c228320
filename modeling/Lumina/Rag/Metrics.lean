import Lumina.Library.Dict
import Lumina.Library.Distinct
import Lumina.Library.Fallible
import Mathlib.Algebra.BigOperators.Group.List.Basic
import Mathlib.Algebra.Order.Field.Basic
import Mathlib.Algebra.Order.Field.Rat
import Mathlib.Tactic.NormNum
import Mathlib.Tactic.Positivity

/-!
# The scores of a retrieval

The ranking of a question is cut off, its repetitions are dropped, and it is compared with the set of
the passages that are relevant.  The scores are rational numbers, without rounding.
-/

namespace Lumina.Rag

open Distinct
open Fallible (mapM_of_ok ok_of_bind)

variable {π : Type} [DecidableEq π]

/-! ### Questions and their scores -/

/-- What was found for a question, by rank, and what is relevant for it. -/
structure QuestionOutcome (π : Type) where
  questionId : String
  retrieved : List π
  relevant : Finset π
  scorable : relevant.Nonempty

/-- `QuestionOutcome.__post_init__`. -/
def QuestionOutcome.make (questionId : String) (retrieved : List π) (relevant : Finset π) :
    Except String (QuestionOutcome π) :=
  if h : relevant.Nonempty then .ok ⟨questionId, retrieved, relevant, h⟩
  else .error ("題目 " ++ questionId ++ " 沒有任何正解段落，無法計分")

/-- `_require_positive`. -/
def requirePositive (k : ℤ) : Except String Unit :=
  if k ≤ 0 then .error ("k 必須是正整數，收到 " ++ toString k) else .ok ()

def QuestionOutcome.top (o : QuestionOutcome π) (k : ℤ) : Except String (List π) := do
  requirePositive k
  return firsts ∅ (o.retrieved.take k.toNat)

def recallOf (relevant : Finset π) (top : List π) : ℚ :=
  (relevant ∩ top.toFinset).card / relevant.card

def hitOf (relevant : Finset π) (top : List π) : ℚ :=
  if (relevant ∩ top.toFinset).Nonempty then 1 else 0

/-- The loop of `reciprocal_rank`, from an index on. -/
def firstRank (relevant : Finset π) : (index : ℕ) → List π → ℚ
  | _, [] => 0
  | index, passage :: top =>
      if passage ∈ relevant then 1 / index else firstRank relevant (index + 1) top

def recallAtK (o : QuestionOutcome π) (k : ℤ) : Except String ℚ := do
  return recallOf o.relevant (← o.top k)

def hitAtK (o : QuestionOutcome π) (k : ℤ) : Except String ℚ := do
  return hitOf o.relevant (← o.top k)

def reciprocalRank (o : QuestionOutcome π) (k : ℤ) : Except String ℚ := do
  return firstRank o.relevant 1 (← o.top k)

/-- The cut-off that `aggregate` has for the reciprocal rank. -/
def QuestionOutcome.whole (o : QuestionOutcome π) : ℤ :=
  max o.retrieved.length 1

structure RetrievalMetrics where
  questionCount : ℕ
  recallAt : List (ℤ × ℚ)
  hitAt : List (ℤ × ℚ)
  mrr : ℚ
deriving DecidableEq

/-- The mean of a score over the questions. -/
def meanOf (score : QuestionOutcome π → Except String ℚ) (outcomes : List (QuestionOutcome π)) :
    Except String ℚ := do
  return (← outcomes.mapM score).sum / outcomes.length

def aggregate (outcomes : List (QuestionOutcome π)) (ks : List ℤ) :
    Except String RetrievalMetrics :=
  if outcomes.isEmpty then .error "題組是空的——沒有任何題目可以計分"
  else if ks.isEmpty then .error "至少要指定一個 k"
  else do
    let recallAt ← ks.mapM fun k => do return (k, ← meanOf (recallAtK · k) outcomes)
    let hitAt ← ks.mapM fun k => do return (k, ← meanOf (hitAtK · k) outcomes)
    let mrr ← meanOf (fun o => reciprocalRank o o.whole) outcomes
    return ⟨outcomes.length, Dict.ofPairs recallAt, Dict.ofPairs hitAt, mrr⟩

/-! ### Scores of a list -/

section

variable {relevant : Finset π} {top top' : List π} {index : ℕ}

theorem card_hits (relevant : Finset π) (distinct : top.Nodup) :
  (relevant ∩ top.toFinset).card = top.countP (· ∈ relevant)
  := by
  have hits : relevant ∩ top.toFinset = (top.filter (· ∈ relevant)).toFinset := by
    ext x
    simp [and_comm]
  rw [hits, List.toFinset_card_of_nodup (distinct.filter _), List.countP_eq_length_filter]

theorem recallOf_mem (scorable : relevant.Nonempty) (top : List π) :
  0 ≤ recallOf relevant top ∧ recallOf relevant top ≤ 1
  := by
  have size : (0 : ℚ) < relevant.card := by
    exact_mod_cast Finset.card_pos.mpr scorable
  constructor
  · unfold recallOf
    positivity
  · rw [recallOf, div_le_one size]
    exact_mod_cast Finset.card_le_card Finset.inter_subset_left

theorem recallOf_pos (scorable : relevant.Nonempty) (top : List π) :
  0 < recallOf relevant top ↔ (relevant ∩ top.toFinset).Nonempty
  := by
  have size : (0 : ℚ) < relevant.card := by
    exact_mod_cast Finset.card_pos.mpr scorable
  rw [recallOf, div_pos_iff_of_pos_right size, Nat.cast_pos, Finset.card_pos]

theorem recallOf_le (h : (relevant ∩ top.toFinset).card ≤ (relevant ∩ top'.toFinset).card) :
  recallOf relevant top ≤ recallOf relevant top'
  := by
  unfold recallOf
  gcongr

theorem hitOf_mem (relevant : Finset π) (top : List π) :
  0 ≤ hitOf relevant top ∧ hitOf relevant top ≤ 1
  := by
  unfold hitOf
  split_ifs <;> norm_num

theorem hitOf_eq_one : hitOf relevant top = 1 ↔ (relevant ∩ top.toFinset).Nonempty := by
  unfold hitOf
  split_ifs with h <;> simp [h]

theorem hitOf_le (h : (relevant ∩ top.toFinset).card ≤ (relevant ∩ top'.toFinset).card) :
  hitOf relevant top ≤ hitOf relevant top'
  := by
  by_cases hit : (relevant ∩ top.toFinset).Nonempty
  · have hit' : (relevant ∩ top'.toFinset).Nonempty :=
      Finset.card_pos.mp ((Finset.card_pos.mpr hit).trans_le h)
    rw [hitOf_eq_one.mpr hit, hitOf_eq_one.mpr hit']
  · rw [hitOf, if_neg hit]
    exact (hitOf_mem relevant top').1

theorem recallOf_le_hitOf (scorable : relevant.Nonempty) (top : List π) :
  recallOf relevant top ≤ hitOf relevant top
  := by
  by_cases hit : (relevant ∩ top.toFinset).Nonempty
  · rw [hitOf_eq_one.mpr hit]
    exact (recallOf_mem scorable top).2
  · rw [hitOf, if_neg hit]
    exact not_lt.mp (mt (recallOf_pos scorable top).mp hit)

theorem firstRank_mem (relevant : Finset π) (index : ℕ) (top : List π) :
  0 ≤ firstRank relevant (index + 1) top ∧
    firstRank relevant (index + 1) top ≤ 1 / (index + 1 : ℕ)
  := by
  induction top generalizing index with
  | nil => exact ⟨le_rfl, by unfold firstRank; positivity⟩
  | cons passage top ih =>
    rw [firstRank]
    split_ifs
    · exact ⟨by positivity, le_rfl⟩
    · obtain ⟨nonneg, least⟩ := ih (index + 1)
      refine ⟨nonneg, least.trans ?_⟩
      gcongr
      exact Nat.le_succ _

theorem firstRank_eq_zero (index : ℕ) (h : ¬(relevant ∩ top.toFinset).Nonempty) :
  firstRank relevant index top = 0
  := by
  induction top generalizing index with
  | nil => rfl
  | cons passage top ih =>
    rw [Finset.not_nonempty_iff_eq_empty, ← Finset.disjoint_iff_inter_eq_empty,
      Finset.disjoint_right] at h
    have miss : passage ∉ relevant := h (List.mem_toFinset.mpr List.mem_cons_self)
    rw [firstRank, if_neg miss]
    apply ih
    rw [Finset.not_nonempty_iff_eq_empty, ← Finset.disjoint_iff_inter_eq_empty,
      Finset.disjoint_right]
    intro x hx
    exact h (List.mem_toFinset.mpr (List.mem_cons_of_mem passage (List.mem_toFinset.mp hx)))

theorem firstRank_le_hitOf (relevant : Finset π) (top : List π) :
  firstRank relevant 1 top ≤ hitOf relevant top
  := by
  by_cases hit : (relevant ∩ top.toFinset).Nonempty
  · rw [hitOf_eq_one.mpr hit]
    simpa using (firstRank_mem relevant 0 top).2
  · rw [hitOf, if_neg hit, firstRank_eq_zero 1 hit]

/-- What comes after a common beginning decides. -/
theorem firstRank_append_le (before : List π)
    (h : ∀ index, firstRank relevant (index + 1) top ≤ firstRank relevant (index + 1) top')
    (index : ℕ) :
  firstRank relevant (index + 1) (before ++ top) ≤ firstRank relevant (index + 1) (before ++ top')
  := by
  induction before generalizing index with
  | nil => exact h index
  | cons passage before ih =>
    rw [List.cons_append, List.cons_append, firstRank, firstRank]
    split_ifs
    · exact le_rfl
    · exact ih (index + 1)

end

/-! ### Scores of a question -/

/-- The three scores at a cut-off. -/
@[ext]
structure Scores where
  recallAtK : ℚ
  hitAtK : ℚ
  reciprocalRank : ℚ
deriving DecidableEq

/-- No score is higher. -/
instance : LE Scores where
  le s t := s.recallAtK ≤ t.recallAtK ∧ s.hitAtK ≤ t.hitAtK ∧ s.reciprocalRank ≤ t.reciprocalRank

def scoresAt (o : QuestionOutcome π) (k : ℤ) : Except String Scores := do
  return ⟨← recallAtK o k, ← hitAtK o k, ← reciprocalRank o k⟩

/-- The scores of a list that is cut off. -/
def scoresOf (relevant : Finset π) (top : List π) : Scores :=
  ⟨recallOf relevant top, hitOf relevant top, firstRank relevant 1 top⟩

namespace QuestionOutcome

variable (o : QuestionOutcome π) {k k' : ℤ} {retrieved' : List π}

/-- The same question with another ranking. -/
def rerank (retrieved' : List π) : QuestionOutcome π :=
  { o with retrieved := retrieved' }

theorem top_eq (hk : 1 ≤ k) :
  o.top k = .ok (firsts ∅ (o.retrieved.take k.toNat))
  := by
  rw [top, requirePositive, if_neg (by omega)]
  rfl

theorem scoresAt_eq (hk : 1 ≤ k) :
  scoresAt o k = .ok (scoresOf o.relevant (firsts ∅ (o.retrieved.take k.toNat)))
  := by
  rw [scoresAt, recallAtK, hitAtK, Lumina.Rag.reciprocalRank, o.top_eq hk]
  rfl

theorem reciprocalRank_whole :
  reciprocalRank o o.whole = .ok (firstRank o.relevant 1 (firsts ∅ o.retrieved))
  := by
  have all : o.retrieved.take o.whole.toNat = o.retrieved :=
    List.take_of_length_le (by unfold whole; omega)
  have positive : 1 ≤ o.whole := le_max_right _ _
  rw [reciprocalRank, o.top_eq positive, all]
  rfl

end QuestionOutcome

variable {relevant : Finset π} {top top' ranking ranking' : List π}

theorem scoresOf_le_of_prefix (h : top <+: top') :
  scoresOf relevant top ≤ scoresOf relevant top'
  := by
  have hits : (relevant ∩ top.toFinset).card ≤ (relevant ∩ top'.toFinset).card := by
    apply Finset.card_le_card
    apply Finset.inter_subset_inter_left
    intro x hx
    exact List.mem_toFinset.mpr (h.subset (List.mem_toFinset.mp hx))
  refine ⟨recallOf_le hits, hitOf_le hits, ?_⟩
  obtain ⟨rest, rfl⟩ := h
  conv_lhs => rw [← List.append_nil top]
  exact firstRank_append_le top (fun index => (firstRank_mem relevant index rest).1) 0

/-- In a ranking without repetitions, a relevant passage moves up. -/
theorem scoresOf_le_of_promotes (distinct : ranking.Nodup)
    (h : Promotes (· ∈ relevant) ranking ranking') (n : ℕ) :
  scoresOf relevant (ranking.take n) ≤ scoresOf relevant (ranking'.take n)
  := by
  have distinct' : ranking'.Nodup := h.perm.nodup_iff.mp distinct
  have cut : (ranking.take n).Nodup := (List.take_sublist n _).nodup distinct
  have cut' : (ranking'.take n).Nodup := (List.take_sublist n _).nodup distinct'
  have both : (ranking.take n).countP (· ∈ relevant) ≤ (ranking'.take n).countP (· ∈ relevant) ∧
      firstRank relevant 1 (ranking.take n) ≤ firstRank relevant 1 (ranking'.take n) := by
    cases h with
    | move x before passed after good =>
      have split (after : List π) :
          (before ++ after).take n = before.take n ++ after.take (n - before.length) :=
        List.take_append
      rw [split, split, List.countP_append, List.countP_append]
      cases n - before.length with
      | zero => exact ⟨le_rfl, le_rfl⟩
      | succ m =>
        constructor
        · exact Nat.add_le_add_left
            (countP_take_middle (fun y => decide (y ∈ relevant)) (decide_eq_true good) passed after m) _
        · apply firstRank_append_le (before.take n) _ 0
          intro index
          have first : firstRank relevant (index + 1) ((x :: (passed ++ after)).take (m + 1)) =
              1 / (index + 1 : ℕ) := by
            rw [List.take_succ_cons, firstRank, if_pos good]
          rw [first]
          exact (firstRank_mem relevant index _).2
  have hits := both.1
  rw [← card_hits relevant cut, ← card_hits relevant cut'] at hits
  exact ⟨recallOf_le hits, hitOf_le hits, both.2⟩

/-- The laws of the scores: their range, how they depend on each other and on the cut-off, and what
repetitions and promotions do to them. -/
theorem metric_laws (o : QuestionOutcome π) {k : ℤ} (hk : 1 ≤ k) :
  ∃ s, scoresAt o k = .ok s ∧
    (0 ≤ s.recallAtK ∧ s.recallAtK ≤ 1) ∧ (0 ≤ s.hitAtK ∧ s.hitAtK ≤ 1) ∧
    (0 ≤ s.reciprocalRank ∧ s.reciprocalRank ≤ 1) ∧
    (s.hitAtK = 1 ↔ 0 < s.recallAtK) ∧ s.recallAtK ≤ s.hitAtK ∧ s.reciprocalRank ≤ s.hitAtK ∧
    (∀ k', k ≤ k' →
      ∃ s', scoresAt o k' = .ok s' ∧ s.recallAtK ≤ s'.recallAtK ∧ s.hitAtK ≤ s'.hitAtK) ∧
    (∀ repeated, Repeats o.retrieved repeated →
      (∃ s', scoresAt (o.rerank repeated) k = .ok s' ∧ s' ≤ s) ∧
      reciprocalRank (o.rerank repeated) (o.rerank repeated).whole = reciprocalRank o o.whole) ∧
    (∀ promoted, o.retrieved.Nodup → Promotes (· ∈ o.relevant) o.retrieved promoted →
      ∃ s', scoresAt (o.rerank promoted) k = .ok s' ∧ s ≤ s')
  := by
  refine ⟨_, o.scoresAt_eq hk, recallOf_mem o.scorable _, hitOf_mem _ _,
    ⟨(firstRank_mem _ 0 _).1, (firstRank_le_hitOf _ _).trans (hitOf_mem _ _).2⟩,
    hitOf_eq_one.trans (recallOf_pos o.scorable _).symm, recallOf_le_hitOf o.scorable _,
    firstRank_le_hitOf _ _, fun k' later => ?_, fun repeated h => ⟨?_, ?_⟩,
    fun promoted distinct h => ?_⟩
  · have longer : o.retrieved.take k.toNat <+: o.retrieved.take k'.toNat :=
      List.take_prefix_take_left (by omega)
    have le : scoresOf o.relevant (firsts ∅ _) ≤ _ := scoresOf_le_of_prefix <| firsts_prefix longer
    exact ⟨_, o.scoresAt_eq (hk.trans later), le.1, le.2.1⟩
  · exact ⟨_, (o.rerank repeated).scoresAt_eq hk,
      scoresOf_le_of_prefix (firsts_take_of_repeats h k.toNat)⟩
  · rw [QuestionOutcome.reciprocalRank_whole, QuestionOutcome.reciprocalRank_whole]
    exact congrArg (fun top => Except.ok (firstRank o.relevant 1 top)) (firsts_of_repeats h)
  · have distinct' : promoted.Nodup := h.perm.nodup_iff.mp distinct
    have kept : firsts ∅ (o.retrieved.take k.toNat) = o.retrieved.take k.toNat :=
      firsts_of_nodup ((List.take_sublist _ _).nodup distinct) (by simp)
    have kept' : firsts ∅ (promoted.take k.toNat) = promoted.take k.toNat :=
      firsts_of_nodup ((List.take_sublist _ _).nodup distinct') (by simp)
    refine ⟨scoresOf o.relevant (promoted.take k.toNat), ?_, ?_⟩
    · rw [(o.rerank promoted).scoresAt_eq hk]
      exact congrArg (fun top => Except.ok (scoresOf o.relevant top)) kept'
    · rw [kept]
      exact scoresOf_le_of_promotes distinct h k.toNat

/-- The passage `b` is the second of the two that are listed. -/
def sampleOutcome : QuestionOutcome String :=
  ⟨"q", ["a", "b", "a"], {"b"}, Finset.singleton_nonempty _⟩

theorem metric_laws_sample :
  ∃ s, scoresAt sampleOutcome 2 = .ok s ∧ s = ⟨1, 1, 1 / 2⟩ ∧ s.reciprocalRank ≤ s.hitAtK
  := by
  obtain ⟨s, h, _, _, _, _, _, le, _⟩ := metric_laws sampleOutcome (k := 2) (by decide)
  have scores : scoresAt sampleOutcome 2 = .ok ⟨1, 1, 1 / 2⟩ := by
    decide +kernel
  exact ⟨s, h, Except.ok.inj (h.symm.trans scores), le⟩

/-! ### The aggregate -/

theorem meanOf_whole (outcomes : List (QuestionOutcome π)) :
  meanOf (fun o => reciprocalRank o o.whole) outcomes =
    .ok ((outcomes.map fun o => firstRank o.relevant 1 (firsts ∅ o.retrieved)).sum /
      outcomes.length)
  := by
  rw [meanOf, mapM_of_ok fun o _ => o.reciprocalRank_whole]
  rfl

theorem aggregate_mrr {outcomes : List (QuestionOutcome π)} {ks : List ℤ} {m : RetrievalMetrics}
    (h : aggregate outcomes ks = .ok m) :
  m.mrr = (outcomes.map fun o => firstRank o.relevant 1 (firsts ∅ o.retrieved)).sum /
    outcomes.length
  := by
  unfold aggregate at h
  split_ifs at h
  obtain ⟨recallAt, _, h⟩ := ok_of_bind h
  obtain ⟨hitAt, _, h⟩ := ok_of_bind h
  obtain ⟨mrr, mean, h⟩ := ok_of_bind h
  rw [meanOf_whole] at mean
  cases h
  exact (Except.ok.inj mean).symm

/-- Passages that are found once more do not change the mean reciprocal rank. -/
theorem aggregate_mrr_of_repeats {outcomes outcomes' : List (QuestionOutcome π)} {ks : List ℤ}
    {m m' : RetrievalMetrics}
    (repeated : List.Forall₂ (fun o o' => ∃ ranking, Repeats o.retrieved ranking ∧
      o' = o.rerank ranking) outcomes outcomes')
    (h : aggregate outcomes ks = .ok m) (h' : aggregate outcomes' ks = .ok m') :
  m'.mrr = m.mrr
  := by
  have ranks : outcomes'.map (fun o => firstRank o.relevant 1 (firsts ∅ o.retrieved)) =
      outcomes.map fun o => firstRank o.relevant 1 (firsts ∅ o.retrieved) := by
    clear h h'
    induction repeated with
    | nil => rfl
    | cons head _ ih =>
      obtain ⟨ranking, more, rfl⟩ := head
      have first : firsts ∅ ranking = firsts ∅ _ := firsts_of_repeats more
      rw [List.map_cons, List.map_cons, ih]
      exact congrArg (fun top => firstRank _ 1 top :: _) first
  rw [aggregate_mrr h, aggregate_mrr h', ranks, repeated.length_eq]

end Lumina.Rag
