import Mathlib.Data.List.Lex
import Mathlib.Data.UInt

/-!
# Ordered maps

Lists of entries with strictly increasing keys. An update is specified by what `get?` answers, and
by what it makes of the list.
-/

namespace BicDb.Foundation

open List List.Pairwise

universe u v w

theorem mem_takeWhile_iff {α : Type u} {p : α → Bool} {l : List α} {x : α}
    (h : l.Pairwise fun a b => p b = true → p a = true) :
    x ∈ l.takeWhile p ↔ x ∈ l ∧ p x = true := by
  induction l with
  | nil => simp
  | cons a l ih =>
    obtain ⟨ha, hl⟩ := pairwise_cons.1 h
    rw [takeWhile_cons]
    split_ifs with hp
    · rw [mem_cons, mem_cons, ih hl, or_and_right, and_iff_left_of_imp fun hx : x = a => hx ▸ hp]
    · refine ⟨nofun, fun hx => absurd ?_ hp⟩
      rcases mem_cons.1 hx.1 with rfl | hmem
      · exact hx.2
      · exact ha x hmem hx.2

/-- Entries in the order of their keys, each key once. -/
structure OrderedMap (κ : Type u) [LinearOrder κ] (α : Type v) where
  entries : List (κ × α)
  sorted : entries.Pairwise fun a b => a.1 < b.1

namespace OrderedMap

variable {κ : Type u} [LinearOrder κ] {α : Type v} {β : Type w}

variable {m : OrderedMap κ α}

@[ext]
theorem ext {m' : OrderedMap κ α} (h : m.entries = m'.entries) : m = m' := by
  cases m
  cases h
  rfl

instance [DecidableEq α] : DecidableEq (OrderedMap κ α) := fun m m' =>
  decidable_of_iff (m.entries = m'.entries) ⟨OrderedMap.ext, congrArg _⟩

instance : EmptyCollection (OrderedMap κ α) := ⟨⟨[], List.Pairwise.nil⟩⟩

def keys (m : OrderedMap κ α) : List κ := m.entries.map Prod.fst

def values (m : OrderedMap κ α) : List α := m.entries.map Prod.snd

def size (m : OrderedMap κ α) : Nat := m.entries.length

/-- The value of a key. -/
def get? (m : OrderedMap κ α) (k : κ) : Option α :=
  (m.entries.find? fun e => decide (e.1 = k)).map Prod.snd

def contains (m : OrderedMap κ α) (k : κ) : Bool := (m.get? k).isSome

/-- The entries with `k` set to `v`. -/
def insertInto (k : κ) (v : α) : List (κ × α) → List (κ × α)
  | [] => [(k, v)]
  | e :: l =>
    if k < e.1 then (k, v) :: e :: l
    else if k = e.1 then (k, v) :: l
    else e :: insertInto k v l

/-- The entries with the first value that passes the test changed. -/
def modifyFirst (p : α → Bool) (f : α → α) : List (κ × α) → List (κ × α)
  | [] => []
  | e :: l => if p e.2 then (e.1, f e.2) :: l else e :: modifyFirst p f l

/-! ## The order of the entries -/

variable {k : κ} {v : α} {e : κ × α} {l : List (κ × α)}

theorem mem_insertInto (h : e ∈ insertInto k v l) : e = (k, v) ∨ e ∈ l := by
  induction l with
  | nil => exact .inl (mem_singleton.1 h)
  | cons a l ih =>
    unfold insertInto at h
    split_ifs at h
    · exact mem_cons.1 h
    · exact (mem_cons.1 h).imp id (mem_cons_of_mem _)
    · rcases mem_cons.1 h with rfl | h
      · exact .inr mem_cons_self
      · exact (ih h).imp id (mem_cons_of_mem _)

theorem insertInto_sorted (k : κ) (v : α) (h : l.Pairwise fun a b => a.1 < b.1) :
    (insertInto k v l).Pairwise fun a b => a.1 < b.1 := by
  induction l with
  | nil => exact pairwise_singleton _ _
  | cons e l ih =>
    have hhead : ∀ {b}, b ∈ l → e.1 < b.1 := rel_of_pairwise_cons h
    unfold insertInto
    split_ifs with hlt heq
    · refine cons ?_ h
      intro b hb
      rcases mem_cons.1 hb with rfl | hb
      · exact hlt
      · exact hlt.trans (hhead hb)
    · exact cons (fun b hb => heq ▸ hhead hb) h.of_cons
    · refine cons ?_ (ih h.of_cons)
      intro b hb
      rcases mem_insertInto hb with rfl | hb
      · exact lt_of_le_of_ne (not_lt.1 hlt) (Ne.symm heq)
      · exact hhead hb

omit [LinearOrder κ] in
theorem keys_modifyFirst (p : α → Bool) (f : α → α) (l : List (κ × α)) :
    (modifyFirst p f l).map Prod.fst = l.map Prod.fst := by
  induction l with
  | nil => rfl
  | cons e l ih =>
    unfold modifyFirst
    split_ifs
    · rfl
    · rw [map_cons, map_cons, ih]

theorem sorted_iff_keys : (l.Pairwise fun a b => a.1 < b.1) ↔ (l.map Prod.fst).Pairwise (· < ·) :=
  pairwise_map.symm

/-! ## Updates -/

/-- Puts a value in, in place of the one there. -/
def insert (m : OrderedMap κ α) (k : κ) (v : α) : OrderedMap κ α :=
  ⟨insertInto k v m.entries, insertInto_sorted k v m.sorted⟩

/-- Takes a key out. -/
def erase (m : OrderedMap κ α) (k : κ) : OrderedMap κ α :=
  ⟨m.entries.filter fun e => decide (e.1 ≠ k), m.sorted.filter _⟩

/-- Change the first value that passes the test. -/
def modifyWhere (m : OrderedMap κ α) (p : α → Bool) (f : α → α) : OrderedMap κ α :=
  ⟨modifyFirst p f m.entries, by
    rw [sorted_iff_keys, keys_modifyFirst, ← sorted_iff_keys]
    exact m.sorted⟩

/-- Changes all values. -/
def mapValues (f : κ → α → β) (m : OrderedMap κ α) : OrderedMap κ β :=
  ⟨m.entries.map fun e => (e.1, f e.1 e.2), List.pairwise_map.2 m.sorted⟩

/-! ## Lookup and membership -/

theorem keys_nodup (m : OrderedMap κ α) : (m.entries.map Prod.fst).Nodup :=
  (sorted_iff_keys.1 m.sorted).imp ne_of_lt

theorem eq_of_mem_entries {v' : α} (h : (k, v) ∈ m.entries) (h' : (k, v') ∈ m.entries) :
    v = v' := by
  have hinj := inj_on_of_nodup_map m.keys_nodup h h' rfl
  exact congrArg Prod.snd hinj

theorem get?_eq_some_iff :
    m.get? k = some v ↔ (k, v) ∈ m.entries := by
  unfold get?
  constructor
  · intro h
    obtain ⟨e, hfind, rfl⟩ := Option.map_eq_some_iff.1 h
    have hk : e.1 = k := by simpa using find?_some hfind
    exact hk ▸ mem_of_find?_eq_some hfind
  · intro h
    cases hfind : m.entries.find? fun e => decide (e.1 = k) with
    | none =>
      have := find?_eq_none.1 hfind (k, v) h
      simp at this
    | some e =>
      have hk : e.1 = k := by simpa using find?_some hfind
      have hmem : (k, e.2) ∈ m.entries := hk ▸ mem_of_find?_eq_some hfind
      rw [Option.map_some, eq_of_mem_entries hmem h]

theorem mem_values_iff : v ∈ m.values ↔ ∃ k, (k, v) ∈ m.entries := by
  simp [values]

theorem mem_insert_iff :
    e ∈ (m.insert k v).entries ↔ e = (k, v) ∨ (e ∈ m.entries ∧ e.1 ≠ k) := by
  obtain ⟨l, hl⟩ := m
  simp only [insert]
  induction l with
  | nil => simp [insertInto]
  | cons a l ih =>
    have hhead : ∀ {b}, b ∈ l → a.1 < b.1 := rel_of_pairwise_cons hl
    unfold insertInto
    split_ifs with hlt heq
    · -- `k` comes before every key of the list
      have hne : ∀ b ∈ a :: l, b.1 ≠ k := by
        intro b hb
        rcases mem_cons.1 hb with rfl | hb
        · exact hlt.ne'
        · exact (hlt.trans (hhead hb)).ne'
      rw [mem_cons]
      exact or_congr_right ⟨fun h => ⟨h, hne e h⟩, And.left⟩
    · have hne : ∀ b ∈ l, b.1 ≠ k := fun b hb => (heq ▸ hhead hb).ne'
      rw [mem_cons, mem_cons]
      constructor
      · exact Or.imp_right fun h => ⟨.inr h, hne e h⟩
      · rintro (h | ⟨rfl | h, hk⟩)
        · exact .inl h
        · exact absurd heq.symm hk
        · exact .inr h
    · rw [mem_cons, ih hl.of_cons, mem_cons]
      constructor
      · rintro (rfl | h | ⟨h, hk⟩)
        · exact .inr ⟨.inl rfl, Ne.symm heq⟩
        · exact .inl h
        · exact .inr ⟨.inr h, hk⟩
      · rintro (h | ⟨rfl | h, hk⟩)
        · exact .inr (.inl h)
        · exact .inl rfl
        · exact .inr (.inr ⟨h, hk⟩)

theorem forall_mem_insert {P : κ × α → Prop} (hnew : P (k, v)) (hold : ∀ e ∈ m.entries, P e) :
    ∀ e ∈ (m.insert k v).entries, P e := by
  intro e he
  rcases mem_insert_iff.1 he with rfl | ⟨hmem, -⟩
  · exact hnew
  · exact hold e hmem

theorem mem_erase_iff :
    e ∈ (m.erase k).entries ↔ e ∈ m.entries ∧ e.1 ≠ k := by
  simp [erase]

theorem get?_insert (m : OrderedMap κ α) (k k' : κ) (v : α) :
    (m.insert k v).get? k' = if k' = k then some v else m.get? k' := by
  apply Option.ext
  intro x
  rw [get?_eq_some_iff, mem_insert_iff]
  by_cases hk : k' = k
  · simp [hk, eq_comm]
  · simp [hk, get?_eq_some_iff]

theorem get?_erase (m : OrderedMap κ α) (k k' : κ) :
    (m.erase k).get? k' = if k' = k then none else m.get? k' := by
  apply Option.ext
  intro x
  rw [get?_eq_some_iff, mem_erase_iff]
  by_cases hk : k' = k
  · simp [hk]
  · simp [hk, get?_eq_some_iff]

theorem get?_mapValues (f : κ → α → β) (m : OrderedMap κ α) (k : κ) :
    (m.mapValues f).get? k = (m.get? k).map (f k) := by
  apply Option.ext
  intro x
  rw [get?_eq_some_iff, Option.map_eq_some_iff]
  simp only [mapValues, mem_map, get?_eq_some_iff]
  constructor
  · rintro ⟨⟨k', v⟩, hmem, heq⟩
    cases heq
    exact ⟨v, hmem, rfl⟩
  · simp

/-- Keep the entries whose value passes the test. -/
def filter (p : α → Bool) (m : OrderedMap κ α) : OrderedMap κ α :=
  ⟨m.entries.filter fun e => p e.2, m.sorted.filter _⟩

theorem get?_filter (p : α → Bool) (m : OrderedMap κ α) (k : κ) :
    (m.filter p).get? k = (m.get? k).filter p := by
  apply Option.ext
  intro v
  rw [get?_eq_some_iff, Option.filter_eq_some_iff, get?_eq_some_iff]
  exact mem_filter

theorem ext_get? {m' : OrderedMap κ α} (h : ∀ k, m.get? k = m'.get? k) : m = m' := by
  have hmem : ∀ e, e ∈ m.entries ↔ e ∈ m'.entries := by
    rintro ⟨k, v⟩
    rw [← get?_eq_some_iff, ← get?_eq_some_iff, h]
  have hperm : m.entries.Perm m'.entries :=
    (perm_ext_iff_of_nodup m.keys_nodup.of_map m'.keys_nodup.of_map).2 hmem
  exact ext (hperm.eq_of_pairwise (fun _ _ _ _ hlt hgt => absurd hgt hlt.asymm) m.sorted m'.sorted)

theorem erase_of_get?_eq_none (h : m.get? k = none) : m.erase k = m := by
  apply ext_get?
  intro k'
  rw [get?_erase]
  split_ifs with hk
  · rw [hk, h]
  · rfl

/-- Writing the value that is there changes nothing. -/
theorem insert_eq_self (h : m.get? k = some v) : m.insert k v = m := by
  apply ext_get?
  intro k'
  rw [get?_insert]
  split_ifs with hk
  · rw [hk, h]
  · rfl

theorem values_mapValues (f : α → β) (m : OrderedMap κ α) :
    (m.mapValues fun _ => f).values = m.values.map f := by
  simp [values, mapValues, Function.comp_def]

/-! ## The entries around an update -/

section Around

variable {m : OrderedMap κ α} {pre post : List (κ × α)} {k : κ} {v v' : α}

theorem lt_of_entries_eq (h : m.entries = pre ++ (k, v) :: post) :
    (∀ e ∈ pre, e.1 < k) ∧ ∀ e ∈ post, k < e.1 := by
  have hsorted := m.sorted
  rw [h, pairwise_append, pairwise_cons] at hsorted
  obtain ⟨-, ⟨hpost, -⟩, hpre⟩ := hsorted
  exact ⟨fun e he => hpre e he _ mem_cons_self, hpost⟩

theorem insertInto_skip (k : κ) (v : α) {pre : List (κ × α)} (l : List (κ × α))
    (hpre : ∀ e ∈ pre, e.1 < k) : insertInto k v (pre ++ l) = pre ++ insertInto k v l := by
  induction pre with
  | nil => rfl
  | cons e pre ih =>
    have hlt := hpre e mem_cons_self
    simp only [cons_append, insertInto]
    rw [if_neg (not_lt.2 hlt.le), if_neg hlt.ne', ih fun a ha => hpre a (mem_cons_of_mem _ ha)]

theorem entries_insert_of_mem (h : m.entries = pre ++ (k, v) :: post) :
    (m.insert k v').entries = pre ++ (k, v') :: post := by
  simp only [insert]
  rw [h, insertInto_skip k v' _ (lt_of_entries_eq h).1]
  simp [insertInto]

theorem entries_insert_between (h : m.entries = pre ++ post) (hpre : ∀ e ∈ pre, e.1 < k)
    (hpost : ∀ e ∈ post, k < e.1) : (m.insert k v).entries = pre ++ (k, v) :: post := by
  simp only [insert]
  rw [h, insertInto_skip k v _ hpre]
  cases post with
  | nil => rfl
  | cons e post => rw [insertInto, if_pos (hpost e mem_cons_self)]

theorem entries_erase_of_mem (h : m.entries = pre ++ (k, v) :: post) :
    (m.erase k).entries = pre ++ post := by
  obtain ⟨hpre, hpost⟩ := lt_of_entries_eq h
  simp only [erase]
  rw [h, filter_append, filter_cons_of_neg (by simp)]
  rw [filter_eq_self.2 fun e he => decide_eq_true (hpre e he).ne,
    filter_eq_self.2 fun e he => decide_eq_true (hpost e he).ne']

theorem entries_modifyWhere_of_mem {p : α → Bool} {f : α → α}
    (h : m.entries = pre ++ (k, v) :: post) (hpre : ∀ e ∈ pre, p e.2 = false) (hv : p v = true) :
    (m.modifyWhere p f).entries = pre ++ (k, f v) :: post := by
  simp only [modifyWhere]
  rw [h]
  clear h
  induction pre with
  | nil => simp [modifyFirst, hv]
  | cons e pre ih =>
    have hrest := ih fun a ha => hpre a (mem_cons_of_mem _ ha)
    rw [cons_append, modifyFirst, hpre e mem_cons_self, hrest]
    rfl

theorem exists_split_of_find? {p : α → Bool} (h : m.values.find? p = some v) :
    ∃ pre k post, m.entries = pre ++ (k, v) :: post ∧ (∀ e ∈ pre, p e.2 = false) ∧ p v = true := by
  simp only [values] at h
  generalize m.entries = l at h ⊢
  induction l with
  | nil => cases h
  | cons e l ih =>
    rw [map_cons, find?_cons] at h
    cases hp : p e.2 with
    | true =>
      rw [hp] at h
      cases h
      exact ⟨[], e.1, l, rfl, fun _ h => (not_mem_nil h).elim, hp⟩
    | false =>
      rw [hp] at h
      obtain ⟨pre, k, post, heq, hpre, hv⟩ := ih h
      refine ⟨e :: pre, k, post, by rw [heq]; rfl, ?_, hv⟩
      intro a ha
      rcases mem_cons.1 ha with rfl | ha
      · exact hp
      · exact hpre a ha

theorem exists_split_of_get? (h : m.get? k = some v) :
    ∃ pre post, m.entries = pre ++ (k, v) :: post :=
  append_of_mem (get?_eq_some_iff.1 h)

theorem size_insert_of_get? (h : m.get? k = some v) : (m.insert k v').size = m.size := by
  obtain ⟨pre, post, heq⟩ := exists_split_of_get? h
  rw [size, size, entries_insert_of_mem heq, heq, length_append, length_append]
  rfl

theorem length_insertInto_le (k : κ) (v : α) (l : List (κ × α)) :
    (insertInto k v l).length ≤ l.length + 1 := by
  induction l with
  | nil => exact Nat.le_refl _
  | cons e l ih =>
    unfold insertInto
    split_ifs
    · exact Nat.le_refl _
    · exact Nat.le_succ _
    · exact Nat.succ_le_succ ih

theorem size_insert_le (m : OrderedMap κ α) (k : κ) (v : α) : (m.insert k v).size ≤ m.size + 1 :=
  length_insertInto_le k v m.entries

theorem size_erase_of_get? (h : m.get? k = some v) : (m.erase k).size + 1 = m.size := by
  obtain ⟨pre, post, heq⟩ := exists_split_of_get? h
  rw [size, size, entries_erase_of_mem heq, heq, length_append, length_append, length_cons]
  exact Nat.add_assoc _ _ _

end Around

/-! ## Values with a key of their own -/

section Keyed

variable {ι : Type w} [DecidableEq ι] {key : α → ι} {i : ι} {a : α}

omit [LinearOrder κ] in
theorem find?_eq_some_iff_of_nodup {l : List α} (h : (l.map key).Nodup) :
    (l.find? fun a => decide (key a = i)) = some a ↔ a ∈ l ∧ key a = i := by
  constructor
  · intro hfind
    exact ⟨mem_of_find?_eq_some hfind, by simpa using find?_some hfind⟩
  · rintro ⟨hmem, rfl⟩
    cases hfind : l.find? fun b => decide (key b = key a) with
    | none => simpa using find?_eq_none.1 hfind a hmem
    | some b =>
      have hkey : key b = key a := by simpa using find?_some hfind
      rw [inj_on_of_nodup_map h (mem_of_find?_eq_some hfind) hmem hkey]

theorem exists_split_of_key {m : OrderedMap κ α} (h : (m.values.map key).Nodup)
    (ha : a ∈ m.values) (f : α → α) :
    ∃ pre k post, m.entries = pre ++ (k, a) :: post ∧
      (m.modifyWhere (fun b => decide (key b = key a)) f).entries = pre ++ (k, f a) :: post := by
  obtain ⟨pre, k, post, heq, hpre, hv⟩ :=
    exists_split_of_find? ((find?_eq_some_iff_of_nodup h).2 ⟨ha, rfl⟩)
  exact ⟨pre, k, post, heq, entries_modifyWhere_of_mem heq hpre hv⟩

theorem mem_values_modifyWhere {m : OrderedMap κ α} (h : (m.values.map key).Nodup)
    (ha : a ∈ m.values) {f : α → α} {b : α} :
    b ∈ (m.modifyWhere (fun b => decide (key b = key a)) f).values ↔
      b = f a ∨ (b ∈ m.values ∧ key b ≠ key a) := by
  obtain ⟨pre, k, post, heq, heq'⟩ := exists_split_of_key h ha f
  -- no other entry has the key of `a`
  have hother : ∀ c ∈ (pre ++ post).map Prod.snd, key c ≠ key a := by
    rw [values, heq] at h
    simp only [map_append, map_cons, nodup_append', nodup_cons, disjoint_cons_right] at h
    intro c hc hkey
    rw [map_append] at hc
    rcases mem_append.1 hc with hc | hc
    · exact h.2.2.1 (hkey ▸ mem_map_of_mem hc)
    · exact h.2.1.1 (hkey ▸ mem_map_of_mem hc)
  have hmem : ∀ {c : α} (v : α), c ∈ (pre ++ (k, v) :: post).map Prod.snd ↔
      c = v ∨ c ∈ (pre ++ post).map Prod.snd := by
    intro c v
    simp only [map_append, map_cons, mem_append, mem_cons]
    tauto
  rw [values, values, heq, heq', hmem, hmem]
  constructor
  · rintro (rfl | hb)
    · exact .inl rfl
    · exact .inr ⟨.inr hb, hother b hb⟩
  · rintro (rfl | ⟨rfl | hb, hne⟩)
    · exact .inl rfl
    · exact absurd rfl hne
    · exact .inr hb

/-- Where the values have keys of their own, changing the first value with a key is changing each
value by its key. -/
theorem modifyWhere_eq_mapValues {m : OrderedMap κ α} (h : (m.values.map key).Nodup) (i : ι)
    (f : α → α) :
    m.modifyWhere (fun b => decide (key b = i)) f =
      m.mapValues fun _ b => if key b = i then f b else b := by
  apply ext
  simp only [modifyWhere, mapValues]
  rw [values, map_map] at h
  generalize m.entries = l at h
  induction l with
  | nil => rfl
  | cons e l ih =>
    rw [map_cons, nodup_cons] at h
    rw [modifyFirst, map_cons, ih h.2]
    by_cases hkey : key e.2 = i
    · -- no later value has the key
      have hrest : ∀ e' ∈ l, (e'.1, if key e'.2 = i then f e'.2 else e'.2) = e' := by
        intro e' he'
        rw [if_neg]
        intro heq
        exact h.1 (mem_map.2 ⟨e', he', heq.trans hkey.symm⟩)
      rw [map_congr_left hrest, map_id']
      simp [hkey]
    · simp [hkey]

end Keyed

end OrderedMap

/-! ## Bytes as keys -/

instance instLinearOrderUInt8 : LinearOrder UInt8 where
  le_refl := fun a => UInt8.le_refl a
  le_trans := fun _ _ _ => UInt8.le_trans
  lt_iff_le_not_ge := fun a b => by
    rw [UInt8.lt_iff_toNat_lt, UInt8.le_iff_toNat_le, UInt8.le_iff_toNat_le]
    omega
  le_antisymm := fun _ _ => UInt8.le_antisymm
  le_total := fun a b => UInt8.le_total a b
  toDecidableLE := inferInstance

end BicDb.Foundation
