import Lumina.Library.PyJson

/-!
# The characters of a JSON text

`json.dumps` with `ensure_ascii=False` writes printable characters of ASCII and, as they are, those
characters of the strings of a value that are not ASCII.
-/

namespace PyJson

open Json (JsNumber)

/-- A printable character of ASCII, or the last of its controls. -/
def Printable (u : ℕ) : Prop :=
  0x20 ≤ u ∧ u < 0x80

instance (u : ℕ) : Decidable (Printable u) := inferInstanceAs (Decidable (_ ∧ _))

/-- A character of a string in a value. -/
inductive Occurs (u : ℕ) : Value → Prop where
  | str {s : Str} (h : u ∈ s) : Occurs u (.str s)
  | item {items : List Value} {v : Value} (h : v ∈ items) (occurs : Occurs u v) :
      Occurs u (.list items)
  | key {members : List (Str × Value)} {m : Str × Value} (h : m ∈ members) (occurs : u ∈ m.1) :
      Occurs u (.dict members)
  | value {members : List (Str × Value)} {m : Str × Value} (h : m ∈ members)
      (occurs : Occurs u m.2) : Occurs u (.dict members)

theorem occurs_str {u : ℕ} {s : Str} :
  Occurs u (.str s) ↔ u ∈ s
  :=
  ⟨fun | .str h => h, .str⟩

theorem occurs_list {u : ℕ} {items : List Value} :
  Occurs u (.list items) ↔ ∃ v ∈ items, Occurs u v
  :=
  ⟨fun | .item h occurs => ⟨_, h, occurs⟩, fun ⟨_, h, occurs⟩ => .item h occurs⟩

theorem occurs_dict {u : ℕ} {members : List (Str × Value)} :
  Occurs u (.dict members) ↔ ∃ m ∈ members, u ∈ m.1 ∨ Occurs u m.2
  := by
  constructor
  · intro occurs
    cases occurs with
    | key h occurs => exact ⟨_, h, .inl occurs⟩
    | value h occurs => exact ⟨_, h, .inr occurs⟩
  · rintro ⟨m, h, occurs | occurs⟩
    · exact .key h occurs
    · exact .value h occurs

/-! ### Strings -/

theorem printable_digitPoint {d : ℕ} (h : d < 16) :
  Printable (digitPoint d)
  := by
  unfold digitPoint
  split_ifs
  · exact ⟨by change 0x20 ≤ 0x30 + d; omega, by change 0x30 + d < 0x80; omega⟩
  · exact ⟨by change 0x20 ≤ 0x61 + (d - 10); omega, by change 0x61 + (d - 10) < 0x80; omega⟩

theorem printable_escapeUnit {n : ℕ} (h : n < 0x20) {w : ℕ} (hw : w ∈ escapeUnit n) :
  Printable w
  := by
  simp only [escapeUnit, List.mem_cons, List.not_mem_nil, or_false] at hw
  rcases hw with rfl | rfl | rfl | rfl | rfl | rfl
  · decide
  · decide
  all_goals
    apply printable_digitPoint
    omega

theorem mem_escapePoint {u w : ℕ} (h : w ∈ escapePoint false u) :
  Printable w ∨ 0x80 ≤ w ∧ w = u
  := by
  have two {a b : ℕ} (ha : Printable a) (hb : Printable b) (h : w ∈ [a, b]) : Printable w := by
    rcases List.mem_pair.mp h with rfl | rfl
    · exact ha
    · exact hb
  unfold escapePoint at h
  simp only [Bool.false_eq_true, false_and, or_false] at h
  split_ifs at h with _ _ _ _ _ _ _ control short
  iterate 7 exact .inl (two (by decide) (by decide) h)
  · exact .inl (printable_escapeUnit (by omega) h)
  · omega
  · rw [List.mem_singleton.mp h]
    unfold Printable
    omega

theorem escapePoint_of_le {u : ℕ} (h : 0x80 ≤ u) :
  escapePoint false u = [u]
  := by
  have other {c : Char} (hc : c.toNat < 0x80) : u ≠ c.toNat := by omega
  unfold escapePoint
  simp only [Bool.false_eq_true, false_and, or_false]
  rw [if_neg (other (by decide)), if_neg (other (by decide)), if_neg (other (by decide)),
    if_neg (other (by decide)), if_neg (other (by decide)), if_neg (by omega), if_neg (by omega),
    if_neg (by omega)]

theorem mem_dumpsString {w : ℕ} {s : Str} (h : w ∈ dumpsString false s) :
  Printable w ∨ 0x80 ≤ w ∧ w ∈ s
  := by
  unfold dumpsString at h
  rcases List.mem_cons.mp h with rfl | h
  · exact .inl (by decide)
  rcases List.mem_append.mp h with h | h
  · obtain ⟨u, hu, hw⟩ := List.mem_flatMap.mp h
    rcases mem_escapePoint hw with printable | ⟨le, rfl⟩
    · exact .inl printable
    · exact .inr ⟨le, hu⟩
  · rw [List.mem_singleton.mp h]
    exact .inl (by decide)

theorem mem_dumpsString_of_mem {u : ℕ} (le : 0x80 ≤ u) {s : Str} (h : u ∈ s) :
  u ∈ dumpsString false s
  := by
  have written : u ∈ s.flatMap (escapePoint false) :=
    List.mem_flatMap.mpr ⟨u, h, by rw [escapePoint_of_le le]; exact List.mem_singleton.mpr rfl⟩
  exact List.mem_cons_of_mem _ (List.mem_append_left _ written)

/-! ### Values -/

theorem printable_of_mem_str {s : String} (h : (str s).all fun u => Printable u) {u : ℕ}
    (hu : u ∈ str s) :
  Printable u
  :=
  of_decide_eq_true (List.all_eq_true.mp h u hu)

theorem printable_dumpsInt {n : ℤ} {u : ℕ} (h : u ∈ (Json.dumpsInt n).map Char.toNat) :
  Printable u
  := by
  have digits {u : ℕ} (h : u ∈ (Nat.toDigits 10 n.natAbs).map Char.toNat) : Printable u := by
    obtain ⟨c, hc, rfl⟩ := List.mem_map.mp h
    have digit := Nat.isDigit_of_mem_toDigits (by decide) (by decide) hc
    simp only [Char.isDigit, Bool.and_eq_true, decide_eq_true_eq] at digit
    obtain ⟨low, high⟩ := digit
    have low' : 0x30 ≤ c.toNat := low
    have high' : c.toNat ≤ 0x39 := high
    exact ⟨by omega, by omega⟩
  unfold Json.dumpsInt at h
  split_ifs at h
  · rcases List.mem_cons.mp h with rfl | h
    · decide
    · exact digits h
  · exact digits h

section

variable {spaced : Bool} {floatRepr : JsNumber → List Char}

/-- Floating point numbers are shown in printable characters. -/
def PrintableFloats (floatRepr : JsNumber → List Char) : Prop :=
  ∀ x, ∀ c ∈ floatRepr x, Printable c.toNat

theorem printable_separators {u : ℕ} {fmt : Format}
    (h : u ∈ fmt.itemSeparator ∨ u ∈ fmt.keySeparator) :
  Printable u
  := by
  unfold Format.itemSeparator Format.keySeparator at h
  split_ifs at h
  all_goals
    simp only [List.mem_cons, List.not_mem_nil, or_false] at h
    rcases h with (rfl | rfl) | rfl | rfl
  all_goals decide

theorem printable_dumpsDouble (floats : PrintableFloats floatRepr) {x : Double} {u : ℕ} (h : u ∈ dumpsDouble floatRepr x) :
  Printable u
  := by
  cases x with
  | nan => exact printable_of_mem_str (by decide) h
  | number x =>
    rw [dumpsDouble] at h
    split_ifs at h
    · obtain ⟨c, hc, rfl⟩ := List.mem_map.mp h
      exact floats x c hc
    · exact printable_of_mem_str (by decide) h
    · exact printable_of_mem_str (by decide) h

mutual

/-- What is written is ASCII or from the strings of the value. -/
theorem mem_dumps (floats : PrintableFloats floatRepr) {u : ℕ} :
  ∀ {v : Value}, u ∈ dumps ⟨false, spaced⟩ floatRepr v → Printable u ∨ 0x80 ≤ u ∧ Occurs u v
  | .none, h => .inl (printable_of_mem_str (by decide) h)
  | .bool true, h => .inl (printable_of_mem_str (by decide) h)
  | .bool false, h => .inl (printable_of_mem_str (by decide) h)
  | .int _, h => .inl (printable_dumpsInt h)
  | .float _, h => .inl (printable_dumpsDouble floats h)
  | .str _, h => (mem_dumpsString h).imp_right fun ⟨le, hu⟩ => ⟨le, .str hu⟩
  | .list [], h => .inl (printable_of_mem_str (s := "[]") (by decide) h)
  | .list (v :: rest), h => by
      rw [dumps, List.cons_append, List.cons_append, List.mem_cons, List.mem_append,
        List.mem_append, List.mem_singleton] at h
      rcases h with rfl | (h | h) | rfl
      · exact .inl (by decide)
      · exact (mem_dumps floats h).imp_right fun ⟨le, occurs⟩ => ⟨le, .item List.mem_cons_self occurs⟩
      · exact (mem_dumpsItems floats h).imp_right fun ⟨le, w, hw, occurs⟩ =>
          ⟨le, .item (List.mem_cons_of_mem v hw) occurs⟩
      · exact .inl (by decide)
  | .dict [], h => .inl (printable_of_mem_str (s := "\x7b\x7d") (by decide) h)
  | .dict ((k, v) :: rest), h => by
      rw [dumps, List.cons_append, List.cons_append, List.cons_append, List.cons_append,
        List.mem_cons, List.mem_append, List.mem_append, List.mem_append, List.mem_append,
        List.mem_singleton] at h
      rcases h with rfl | (((h | h) | h) | h) | rfl
      · exact .inl (by decide)
      · exact (mem_dumpsString h).imp_right fun ⟨le, occurs⟩ =>
          ⟨le, .key List.mem_cons_self occurs⟩
      · exact .inl (printable_separators (.inr h))
      · exact (mem_dumps floats h).imp_right fun ⟨le, occurs⟩ => ⟨le, .value List.mem_cons_self occurs⟩
      · exact (mem_dumpsMembers floats h).imp_right fun ⟨le, m, hm, occurs⟩ =>
          ⟨le, occurs.elim (.key (List.mem_cons_of_mem _ hm)) (.value (List.mem_cons_of_mem _ hm))⟩
      · exact .inl (by decide)

theorem mem_dumpsItems (floats : PrintableFloats floatRepr) {u : ℕ} :
  ∀ {items : List Value}, u ∈ dumpsItems ⟨false, spaced⟩ floatRepr items →
    Printable u ∨ 0x80 ≤ u ∧ ∃ v ∈ items, Occurs u v
  | [], h => nomatch h
  | v :: rest, h => by
      rw [dumpsItems, List.mem_append, List.mem_append] at h
      rcases h with (h | h) | h
      · exact .inl (printable_separators (.inl h))
      · exact (mem_dumps floats h).imp_right fun ⟨le, occurs⟩ => ⟨le, v, List.mem_cons_self, occurs⟩
      · exact (mem_dumpsItems floats h).imp_right fun ⟨le, w, hw, occurs⟩ =>
          ⟨le, w, List.mem_cons_of_mem v hw, occurs⟩

theorem mem_dumpsMembers (floats : PrintableFloats floatRepr) {u : ℕ} :
  ∀ {members : List (Str × Value)}, u ∈ dumpsMembers ⟨false, spaced⟩ floatRepr members →
    Printable u ∨ 0x80 ≤ u ∧ ∃ m ∈ members, u ∈ m.1 ∨ Occurs u m.2
  | [], h => nomatch h
  | (k, v) :: rest, h => by
      rw [dumpsMembers, List.mem_append, List.mem_append, List.mem_append, List.mem_append] at h
      rcases h with (((h | h) | h) | h) | h
      · exact .inl (printable_separators (.inl h))
      · exact (mem_dumpsString h).imp_right fun ⟨le, occurs⟩ =>
          ⟨le, _, List.mem_cons_self, .inl occurs⟩
      · exact .inl (printable_separators (.inr h))
      · exact (mem_dumps floats h).imp_right fun ⟨le, occurs⟩ =>
          ⟨le, _, List.mem_cons_self, .inr occurs⟩
      · exact (mem_dumpsMembers floats h).imp_right fun ⟨le, m, hm, occurs⟩ =>
          ⟨le, m, List.mem_cons_of_mem _ hm, occurs⟩

end

/-- The characters of strings that are not ASCII are written. -/
theorem mem_dumps_of_occurs {u : ℕ} (le : 0x80 ≤ u) {v : Value} (h : Occurs u v) :
  u ∈ dumps ⟨false, spaced⟩ floatRepr v
  := by
  have items {items : List Value} {v : Value} (h : v ∈ items)
      (hu : u ∈ dumps ⟨false, spaced⟩ floatRepr v) :
      u ∈ dumpsItems ⟨false, spaced⟩ floatRepr items := by
    induction items with
    | nil => cases h
    | cons w items ih =>
      rw [dumpsItems]
      rcases List.mem_cons.mp h with rfl | h
      · exact List.mem_append_left _ (List.mem_append_right _ hu)
      · exact List.mem_append_right _ (ih h)
  have members {members : List (Str × Value)} {m : Str × Value} (h : m ∈ members)
      (hu : u ∈ dumpsString false m.1 ∨ u ∈ dumps ⟨false, spaced⟩ floatRepr m.2) :
      u ∈ dumpsMembers ⟨false, spaced⟩ floatRepr members := by
    induction members with
    | nil => cases h
    | cons m' members ih =>
      obtain ⟨k, w⟩ := m'
      rw [dumpsMembers]
      simp only [List.mem_append]
      rcases List.mem_cons.mp h with rfl | h
      · tauto
      · exact .inr (ih h)
  have entry {list : List (Str × Value)} {m : Str × Value} (h : m ∈ list)
      (hu : u ∈ dumpsString false m.1 ∨ u ∈ dumps ⟨false, spaced⟩ floatRepr m.2) :
      u ∈ dumps ⟨false, spaced⟩ floatRepr (.dict list) := by
    cases list with
    | nil => cases h
    | cons m' rest =>
      obtain ⟨k, w⟩ := m'
      rw [dumps]
      simp only [List.cons_append, List.mem_cons, List.mem_append]
      rcases List.mem_cons.mp h with rfl | h
      · tauto
      · exact .inr (.inl (.inr (members h hu)))
  induction h with
  | str h => exact mem_dumpsString_of_mem le h
  | @item list v h _ ih =>
    cases list with
    | nil => cases h
    | cons w rest =>
      rw [dumps]
      simp only [List.cons_append, List.mem_cons, List.mem_append]
      rcases List.mem_cons.mp h with rfl | h
      · exact .inr (.inl (.inl ih))
      · exact .inr (.inl (.inr (items h ih)))
  | @key list m h occurs =>
    exact entry h (.inl (mem_dumpsString_of_mem le occurs))
  | @value list m h _ ih => exact entry h (.inr ih)

end

end PyJson
