import Mathlib.Data.Int.Interval
import Mathlib.Logic.Function.Basic

/-!
# Counters that may expire

A store of counters, as the commands `INCRBY` and `EXPIRE` of a key-value server keep them.  A
counter that is not there is zero; the first change makes one without an expiry, and no change
touches the expiry of one that is there.

Increments that all come while their counter lives are given the numbers from one on, each of them
once; `Tickets` says so, and is kept by an increment.
-/

/-- A counter and the moment it expires, if it does. -/
structure Counter where
  value : ℤ
  expiresAt : Option ℕ
deriving DecidableEq

/-- The counters of the keys.  One that has expired may still be there, but it is not read. -/
abbrev Counters (κ : Type) := κ → Option Counter

namespace Counter

/-- The counter has not expired at a moment. -/
def Lives (c : Counter) (now : ℕ) : Prop :=
  ∀ e, c.expiresAt = some e → now < e

instance (c : Counter) (now : ℕ) : Decidable (c.Lives now) :=
  match h : c.expiresAt with
  | none => isTrue fun e found => by rw [h] at found; cases found
  | some e =>
    if lt : now < e then isTrue fun e' found => by rw [h] at found; cases found; exact lt
    else isFalse fun lives => lt (lives e h)

theorem lives_of_none {c : Counter} (h : c.expiresAt = none) (now : ℕ) :
  c.Lives now
  := by
  intro e found
  rw [h] at found
  cases found

/-- A counter that lives at a moment has lived before it. -/
theorem Lives.earlier {c : Counter} {now now' : ℕ} (h : c.Lives now') (le : now ≤ now') :
  c.Lives now
  := by
  intro e found
  apply Nat.lt_of_le_of_lt le (h e found)

end Counter

namespace Counters

variable {κ : Type} [DecidableEq κ]

/-- The counter of a key at a moment. -/
def read (keys : Counters κ) (now : ℕ) (k : κ) : Option Counter :=
  (keys k).filter fun c => c.Lives now

/-- The value of a key at a moment. -/
def count (keys : Counters κ) (now : ℕ) (k : κ) : ℤ :=
  ((keys.read now k).map Counter.value).getD 0

/-- `INCRBY`, or `DECRBY` for a negative amount. -/
def incrBy (keys : Counters κ) (now : ℕ) (k : κ) (amount : ℤ) : Counters κ :=
  Function.update keys k
    (some ⟨keys.count now k + amount, (keys.read now k).bind Counter.expiresAt⟩)

/-- `EXPIRE`, which does nothing to a key that is not there. -/
def expire (keys : Counters κ) (now : ℕ) (k : κ) (ttl : ℕ) : Counters κ :=
  match keys.read now k with
  | some c => Function.update keys k (some { c with expiresAt := some (now + ttl) })
  | none => keys

omit [DecidableEq κ] in
theorem read_eq_some_iff {keys : Counters κ} {now : ℕ} {k : κ} {c : Counter} :
  keys.read now k = some c ↔ keys k = some c ∧ c.Lives now
  := by
  unfold read
  rw [Option.filter_eq_some_iff, decide_eq_true_iff]

omit [DecidableEq κ] in
theorem count_of_read {keys : Counters κ} {now : ℕ} {k : κ} {c : Counter}
    (h : keys.read now k = some c) :
  keys.count now k = c.value
  := by
  unfold count
  rw [h]
  rfl

omit [DecidableEq κ] in
theorem count_of_none {keys : Counters κ} {now : ℕ} {k : κ} (h : keys.read now k = none) :
  keys.count now k = 0
  := by
  unfold count
  rw [h]
  rfl

omit [DecidableEq κ] in
/-- A counter that is not read at a moment is not read later. -/
theorem read_eq_none_mono {keys : Counters κ} {now now' : ℕ} {k : κ} (le : now ≤ now')
    (h : keys.read now k = none) :
  keys.read now' k = none
  := by
  cases later : keys.read now' k with
  | none => rfl
  | some c =>
    obtain ⟨found, lives⟩ := read_eq_some_iff.mp later
    rw [read_eq_some_iff.mpr ⟨found, lives.earlier le⟩] at h
    cases h

omit [DecidableEq κ] in
/-- A counter that is read at a moment was read before it, with its value. -/
theorem read_earlier {keys : Counters κ} {now now' : ℕ} {k : κ} {c : Counter} (le : now ≤ now')
    (h : keys.read now' k = some c) :
  keys.read now k = some c
  := by
  obtain ⟨found, lives⟩ := read_eq_some_iff.mp h
  exact read_eq_some_iff.mpr ⟨found, lives.earlier le⟩

omit [DecidableEq κ] in
/-- Only the counter of a key matters to what is read. -/
theorem read_congr {keys keys' : Counters κ} {k : κ} (h : keys' k = keys k) (now : ℕ) :
  keys'.read now k = keys.read now k
  := by
  unfold read
  rw [h]

omit [DecidableEq κ] in
theorem count_congr {keys keys' : Counters κ} {k : κ} (h : keys' k = keys k) (now : ℕ) :
  keys'.count now k = keys.count now k
  := by
  unfold count
  rw [read_congr h]

/-! ### Changes -/

@[simp]
theorem incrBy_self (keys : Counters κ) (now : ℕ) (k : κ) (amount : ℤ) :
  keys.incrBy now k amount k =
    some ⟨keys.count now k + amount, (keys.read now k).bind Counter.expiresAt⟩
  := by
  apply Function.update_self

theorem incrBy_of_ne (keys : Counters κ) (now : ℕ) {k k' : κ} (h : k' ≠ k) (amount : ℤ) :
  keys.incrBy now k amount k' = keys k'
  := by
  apply Function.update_of_ne h

/-- A counter that has been changed lives. -/
theorem read_incrBy_self (keys : Counters κ) (now : ℕ) (k : κ) (amount : ℤ) :
  (keys.incrBy now k amount).read now k =
    some ⟨keys.count now k + amount, (keys.read now k).bind Counter.expiresAt⟩
  := by
  rw [read_eq_some_iff]
  refine ⟨incrBy_self keys now k amount, ?_⟩
  intro e found
  rw [Option.bind_eq_some_iff] at found
  obtain ⟨c, read, expiresAt⟩ := found
  apply (read_eq_some_iff.mp read).2 e expiresAt

@[simp]
theorem count_incrBy_self (keys : Counters κ) (now : ℕ) (k : κ) (amount : ℤ) :
  (keys.incrBy now k amount).count now k = keys.count now k + amount
  := by
  rw [count_of_read (read_incrBy_self keys now k amount)]

theorem expire_of_read {keys : Counters κ} {now : ℕ} {k : κ} {c : Counter}
    (h : keys.read now k = some c) (ttl : ℕ) :
  keys.expire now k ttl = Function.update keys k (some { c with expiresAt := some (now + ttl) })
  := by
  unfold expire
  rw [h]

theorem expire_of_none {keys : Counters κ} {now : ℕ} {k : κ} (h : keys.read now k = none)
    (ttl : ℕ) :
  keys.expire now k ttl = keys
  := by
  unfold expire
  rw [h]

theorem expire_of_ne (keys : Counters κ) (now : ℕ) {k k' : κ} (h : k' ≠ k) (ttl : ℕ) :
  keys.expire now k ttl k' = keys k'
  := by
  cases found : keys.read now k with
  | none => rw [expire_of_none found]
  | some c =>
    rw [expire_of_read found]
    apply Function.update_of_ne h

/-- A counter of which the expiry is put off keeps its value. -/
theorem read_expire_self {keys : Counters κ} {now : ℕ} {k : κ} {c : Counter}
    (h : keys.read now k = some c) {ttl : ℕ} (pos : 0 < ttl) :
  (keys.expire now k ttl).read now k = some { c with expiresAt := some (now + ttl) }
  := by
  rw [expire_of_read h, read_eq_some_iff]
  refine ⟨Function.update_self .., ?_⟩
  intro e found
  cases found
  omega

theorem count_expire (keys : Counters κ) (now : ℕ) (k k' : κ) {ttl : ℕ} (pos : 0 < ttl) :
  (keys.expire now k ttl).count now k' = keys.count now k'
  := by
  by_cases same : k' = k
  · subst same
    cases found : keys.read now k' with
    | none => rw [expire_of_none found]
    | some c => rw [count_of_read (read_expire_self found pos), count_of_read found]
  · rw [count_congr (expire_of_ne keys now same ttl)]

/-! ### Tickets -/

variable {ι : Type} [DecidableEq ι]

/-- The increments of each key have been given the numbers from one up to its value. -/
structure Tickets (keys : Counters κ) (given : ι → Option (κ × ℤ)) : Prop where
  positive : ∀ k c, keys k = some c → 1 ≤ c.value
  listed : ∀ i k n, given i = some (k, n) → 1 ≤ n ∧ ∃ c, keys k = some c ∧ n ≤ c.value
  distinct : ∀ i j k n, given i = some (k, n) → given j = some (k, n) → i = j
  complete : ∀ k c, keys k = some c → ∀ n, 1 ≤ n → n ≤ c.value → ∃ i, given i = some (k, n)

namespace Tickets

variable {keys : Counters κ} {given : ι → Option (κ × ℤ)}

omit [DecidableEq κ] [DecidableEq ι] in
theorem init : Tickets (fun _ => none : Counters κ) (fun _ => none : ι → Option (κ × ℤ)) where
  positive := nofun
  listed := nofun
  distinct := nofun
  complete := nofun

/-- The counter of a key that has not expired is the number of the increments. -/
theorem incr (h : Tickets keys given) {now : ℕ} {k : κ} (lives : ∀ c, keys k = some c → c.Lives now)
    {i : ι} (fresh : given i = none) :
  Tickets (keys.incrBy now k 1) (Function.update given i (some (k, keys.count now k + 1)))
  := by
  have before : keys k = none ∧ keys.count now k = 0 ∨
      ∃ c, keys k = some c ∧ keys.count now k = c.value := by
    cases found : keys k with
    | none =>
      left
      refine ⟨rfl, count_of_none ?_⟩
      unfold read
      rw [found]
      rfl
    | some c =>
      right
      exact ⟨c, rfl, count_of_read (read_eq_some_iff.mpr ⟨found, lives c found⟩)⟩
  have nonneg : 0 ≤ keys.count now k := by
    obtain ⟨-, zero⟩ | ⟨c, found, value⟩ := before
    · omega
    · have := h.positive k c found
      omega
  have old : ∀ j, j ≠ i → Function.update given i (some (k, keys.count now k + 1)) j = given j :=
    fun j ne => Function.update_of_ne ne ..
  have below : ∀ j n, given j = some (k, n) → n ≤ keys.count now k := by
    intro j n hj
    obtain ⟨-, c, found, le⟩ := h.listed j k n hj
    obtain ⟨missing, -⟩ | ⟨c', found', value⟩ := before
    · rw [missing] at found
      cases found
    · rw [found'] at found
      cases found
      omega
  constructor
  · intro k' c found
    by_cases same : k' = k
    · subst same
      rw [incrBy_self] at found
      cases found
      simp only
      omega
    · rw [incrBy_of_ne _ _ same] at found
      apply h.positive k' c found
  · intro j k' n hj
    by_cases mine : j = i
    · subst mine
      rw [Function.update_self] at hj
      cases hj
      refine ⟨by omega, _, incrBy_self .., le_refl _⟩
    · rw [old j mine] at hj
      obtain ⟨pos, c, found, le⟩ := h.listed j k' n hj
      refine ⟨pos, ?_⟩
      by_cases same : k' = k
      · subst same
        refine ⟨_, incrBy_self .., ?_⟩
        have := below j n hj
        simp only
        omega
      · exact ⟨c, (incrBy_of_ne _ _ same _).trans found, le⟩
  · intro j j' k' n hj hj'
    by_cases mine : j = i
    · by_cases mine' : j' = i
      · rw [mine, mine']
      · subst mine
        rw [Function.update_self] at hj
        rw [old j' mine'] at hj'
        cases hj
        have := below j' _ hj'
        omega
    · rw [old j mine] at hj
      by_cases mine' : j' = i
      · subst mine'
        rw [Function.update_self] at hj'
        cases hj'
        have := below j _ hj
        omega
      · rw [old j' mine'] at hj'
        apply h.distinct j j' k' n hj hj'
  · intro k' c found n pos le
    by_cases same : k' = k
    · subst same
      rw [incrBy_self] at found
      cases found
      simp only at le
      by_cases last : n = keys.count now k' + 1
      · use i
        rw [Function.update_self, last]
      · obtain ⟨-, zero⟩ | ⟨c, found, value⟩ := before
        · omega
        · obtain ⟨j, hj⟩ := h.complete k' c found n pos (by omega)
          have ne : j ≠ i := by
            rintro rfl
            rw [fresh] at hj
            cases hj
          exact ⟨j, (old j ne).trans hj⟩
    · rw [incrBy_of_ne _ _ same] at found
      obtain ⟨j, hj⟩ := h.complete k' c found n pos le
      have ne : j ≠ i := by
        rintro rfl
        rw [fresh] at hj
        cases hj
      exact ⟨j, (old j ne).trans hj⟩

omit [DecidableEq ι] in
/-- An expiry changes no number. -/
theorem expire (h : Tickets keys given) (now : ℕ) (k : κ) (ttl : ℕ) :
  Tickets (keys.expire now k ttl) given
  := by
  have value : ∀ k', ((keys.expire now k ttl) k').map Counter.value = (keys k').map Counter.value := by
    intro k'
    by_cases same : k' = k
    · subst same
      cases found : keys.read now k' with
      | none => rw [expire_of_none found]
      | some c =>
        rw [expire_of_read found, Function.update_self, (read_eq_some_iff.mp found).1]
        rfl
    · rw [expire_of_ne _ _ same]
  have there : ∀ k' c, keys k' = some c → ∃ c', keys.expire now k ttl k' = some c' ∧
      c'.value = c.value := by
    intro k' c found
    rw [← Option.map_eq_some_iff, value k', found]
    rfl
  have back : ∀ k' c, keys.expire now k ttl k' = some c → ∃ c', keys k' = some c' ∧
      c'.value = c.value := by
    intro k' c found
    rw [← Option.map_eq_some_iff, ← value k', found]
    rfl
  constructor
  · intro k' c found
    obtain ⟨c', found', same⟩ := back k' c found
    rw [← same]
    apply h.positive k' c' found'
  · intro i k' n hi
    obtain ⟨pos, c, found, le⟩ := h.listed i k' n hi
    obtain ⟨c', found', same⟩ := there k' c found
    exact ⟨pos, c', found', same ▸ le⟩
  · exact h.distinct
  · intro k' c found n pos le
    obtain ⟨c', found', same⟩ := back k' c found
    apply h.complete k' c' found' n pos (same ▸ le)

omit [DecidableEq κ] [DecidableEq ι] in
/-- No more than `limit` increments of a key have numbers up to `limit`. -/
theorem card_le (h : Tickets keys given) {k : κ} {limit : ℤ} (ids : Finset ι)
    (all : ∀ i ∈ ids, ∃ n, given i = some (k, n) ∧ n ≤ limit) :
  ids.card ≤ limit.toNat
  := by
  have number : ∀ i, ∃ n : ℤ, i ∈ ids → given i = some (k, n) ∧ n ≤ limit := by
    intro i
    by_cases mem : i ∈ ids
    · obtain ⟨n, hn⟩ := all i mem
      exact ⟨n, fun _ => hn⟩
    · exact ⟨0, fun mem' => absurd mem' mem⟩
  choose f hf using number
  have card := Int.card_Icc 1 limit
  rw [add_sub_cancel_right] at card
  rw [← card]
  apply Finset.card_le_card_of_injOn f
  · intro i mem
    rw [Finset.mem_coe, Finset.mem_Icc]
    exact ⟨(h.listed i k (f i) (hf i mem).1).1, (hf i mem).2⟩
  · intro i mem j mem' same
    apply h.distinct i j k (f i) (hf i mem).1
    rw [same]
    exact (hf j mem').1

omit [DecidableEq κ] in
/-- Before an increment was given a number beyond `limit`, `limit` others were given the numbers up
to it. -/
theorem exists_card (h : Tickets keys given) {i : ι} {k : κ} {n limit : ℤ}
    (hi : given i = some (k, n)) (lt : limit < n) :
  ∃ ids : Finset ι, ids.card = limit.toNat ∧ ∀ j ∈ ids, ∃ m, given j = some (k, m) ∧ m ≤ limit
  := by
  obtain ⟨-, c, found, le⟩ := h.listed i k n hi
  have holder : ∀ m : ℤ, ∃ j, m ∈ Finset.Icc 1 limit → given j = some (k, m) := by
    intro m
    by_cases mem : m ∈ Finset.Icc 1 limit
    · obtain ⟨pos, upper⟩ := Finset.mem_Icc.mp mem
      obtain ⟨j, hj⟩ := h.complete k c found m pos (by omega)
      exact ⟨j, fun _ => hj⟩
    · exact ⟨i, fun mem' => absurd mem' mem⟩
  choose f hf using holder
  refine ⟨(Finset.Icc 1 limit).image f, ?_, ?_⟩
  · rw [Finset.card_image_of_injOn, Int.card_Icc, add_sub_cancel_right]
    intro m mem m' mem' same
    have first := hf m mem
    rw [same, hf m' mem'] at first
    cases first
    rfl
  · intro j mem
    obtain ⟨m, inside, rfl⟩ := Finset.mem_image.mp mem
    exact ⟨m, hf m inside, (Finset.mem_Icc.mp inside).2⟩

end Tickets

end Counters
