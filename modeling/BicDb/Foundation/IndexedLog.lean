import Mathlib.Data.List.Infix
import Mathlib.Data.List.Nodup
import Mathlib.Algebra.GroupWithZero.Nat

/-!
# Logs whose entries carry their index

The first entry has the index `b + 1` for a base `b`. Code looks up, truncates and ships by the
stored indexes; these lemmas say which positions that means.
-/

namespace BicDb.Foundation

open List

/-- The largest value of a 64-bit counter. -/
def u64Max : Nat := 2 ^ 64 - 1

/-- Saturating successor of a 64-bit counter. -/
def satSucc (n : Nat) : Nat := min (n + 1) u64Max

theorem satSucc_of_lt {n : Nat} (h : n < u64Max) : satSucc n = n + 1 := by
  unfold satSucc
  omega

variable {E : Type*} {l m : List E} {k : Nat}

theorem take_succ_of_get {e : E} (he : l[k]? = some e) : l.take (k + 1) = l.take k ++ [e] := by
  rw [take_add_one, he]
  rfl

theorem take_append_drop_take (l : List E) {j : Nat} (hjk : j ≤ k) :
    l.take j ++ (l.take k).drop j = l.take k := by
  conv_rhs => rw [← take_append_drop j (l.take k), take_take, Nat.min_eq_left hjk]

theorem take_eq_of_kept (hk : k ≤ l.length) (hp : l.take k <+: m) :
    k ≤ m.length ∧ m.take k = l.take k := by
  have hlen : (l.take k).length = k := length_take_of_le hk
  have heq := prefix_iff_eq_take.mp hp
  rw [hlen] at heq
  exact ⟨hlen ▸ hp.length_le, heq.symm⟩

theorem prefix_get_eq {x y : E} (hp : l <+: m) (hx : l[k]? = some x) (hy : m[k]? = some y) :
    x = y := by
  obtain ⟨r, rfl⟩ := hp
  rw [getElem?_append_left (List.getElem?_eq_some_iff.mp hx).1, hx] at hy
  exact Option.some.inj hy

section Indexed

variable (indexOf : E → Nat)

/-- The entries carry the indexes `b + 1`, `b + 2`, and so on. -/
def IndexedFrom (b : Nat) : List E → Prop
  | [] => True
  | e :: l => indexOf e = b + 1 ∧ IndexedFrom (b + 1) l

variable {indexOf}

variable {b : Nat}

theorem indexedFrom_append {m : List E} :
    IndexedFrom indexOf b (l ++ m) ↔
      IndexedFrom indexOf b l ∧ IndexedFrom indexOf (b + l.length) m := by
  induction l generalizing b with
  | nil => simp [IndexedFrom]
  | cons e l ih =>
    have hlen : b + (e :: l).length = b + 1 + l.length := by
      simp only [length_cons]
      omega
    rw [cons_append, IndexedFrom, ih, IndexedFrom, hlen, and_assoc]

variable {e : E}

theorem indexedFrom_singleton :
    IndexedFrom indexOf b [e] ↔ indexOf e = b + 1 := by
  simp [IndexedFrom]

theorem IndexedFrom.anti {m : List E} (h : IndexedFrom indexOf b m) (hp : l <+: m) :
    IndexedFrom indexOf b l := by
  obtain ⟨r, rfl⟩ := hp
  exact (indexedFrom_append.mp h).1

variable (h : IndexedFrom indexOf b l)

include h

theorem IndexedFrom.map_index : l.map indexOf = List.range' (b + 1) l.length := by
  induction l generalizing b with
  | nil => rfl
  | cons e l ih =>
    rw [map_cons, h.1, ih h.2, length_cons, range'_succ]

theorem IndexedFrom.drop {k c : Nat} (hc : b + k = c) : IndexedFrom indexOf c (l.drop k) := by
  induction l generalizing b k with
  | nil =>
    rw [drop_nil]
    trivial
  | cons e l ih =>
    cases k with
    | zero => rwa [← hc]
    | succ k => exact ih h.2 (by omega)

theorem IndexedFrom.get {k : Nat} (he : l[k]? = some e) : indexOf e = b + k + 1 := by
  have hk := (List.getElem?_eq_some_iff.mp he).1
  have hmap : (l.map indexOf)[k]? = some (indexOf e) := by rw [getElem?_map, he]; rfl
  rw [h.map_index, getElem?_range' hk, Option.some.injEq] at hmap
  omega

theorem IndexedFrom.mem (he : e ∈ l) : b < indexOf e ∧ indexOf e ≤ b + l.length := by
  obtain ⟨k, hk, rfl⟩ := mem_iff_getElem.mp he
  have hidx := h.get (getElem?_eq_getElem hk)
  omega

theorem IndexedFrom.eq_of_index {x y : E} (hx : x ∈ l) (hy : y ∈ l) (hxy : indexOf x = indexOf y) :
    x = y := by
  refine inj_on_of_nodup_map ?_ hx hy hxy
  rw [h.map_index]
  exact nodup_range'

theorem IndexedFrom.findIdx_succ (k : Nat) :
    l.findIdx? (fun e => indexOf e == b + k + 1) = if k < l.length then some k else none := by
  split_ifs with hk
  · rw [findIdx?_eq_some_iff_getElem]
    refine ⟨hk, by simp [h.get (getElem?_eq_getElem hk)], fun j hj => ?_⟩
    have hidx := h.get (getElem?_eq_getElem (hj.trans hk))
    simp only [beq_iff_eq]
    omega
  · rw [findIdx?_eq_none_iff]
    intro e he
    have hle := (h.mem he).2
    rw [beq_eq_false_iff_ne]
    omega

theorem IndexedFrom.find_succ (k : Nat) : l.find? (fun e => indexOf e == b + k + 1) = l[k]? := by
  rw [find?_eq_bind_findIdx?_getElem?, h.findIdx_succ]
  split_ifs with hk
  · rfl
  · rw [getElem?_eq_none (not_lt.1 hk), Option.bind_none]

theorem IndexedFrom.find_le {i : Nat} (hi : i ≤ b) : l.find? (fun e => indexOf e == i) = none := by
  rw [find?_eq_none]
  intro e he
  have hb := (h.mem he).1
  simp only [beq_iff_eq]
  omega

theorem IndexedFrom.mem_take {k : Nat} (he : e ∈ l.take k) : indexOf e < b + k + 1 := by
  have hle := ((h.anti <| take_prefix k l).mem he).2
  have hlen := length_take_le k l
  omega

theorem IndexedFrom.mem_drop {k : Nat} (he : e ∈ l.drop k) : b + k + 1 ≤ indexOf e :=
  ((h.drop rfl).mem he).1

theorem IndexedFrom.filter_lt (k : Nat) :
    l.filter (fun e => decide (indexOf e < b + k + 1)) = l.take k := by
  conv_lhs => rw [← take_append_drop k l]
  rw [filter_append, filter_eq_self.2 fun e he => decide_eq_true (h.mem_take he),
    filter_eq_nil_iff.2 fun e he => by simpa using h.mem_drop he, append_nil]

theorem IndexedFrom.filter_ge (k : Nat) :
    l.filter (fun e => decide (b + k + 1 ≤ indexOf e)) = l.drop k := by
  conv_lhs => rw [← take_append_drop k l]
  rw [filter_append, filter_eq_nil_iff.2 fun e he => by simpa using h.mem_take he,
    filter_eq_self.2 fun e he => decide_eq_true (h.mem_drop he), nil_append]

theorem IndexedFrom.last : (l.getLast?).elim b indexOf = b + l.length := by
  rcases eq_nil_or_concat' l with rfl | ⟨p, e, rfl⟩
  · simp
  rw [indexedFrom_append, indexedFrom_singleton] at h
  simp only [getLast?_append, getLast?_singleton, Option.some_or, Option.elim_some,
    length_append, length_singleton]
  omega

end Indexed

/-! ## Overlaying a stretch of another log -/

variable {L old es : List E} {prev : Nat}

/-- `new` is what `old` may become when the stretch `es` of `L` behind `prev` entries is laid over
it: part of `L`, with all that `old` shares with `L`. -/
structure Overlay (L old : List E) (prev : Nat) (es new : List E) : Prop where
  sub : new <+: L
  keeps : ∀ q, q <+: L → q <+: old → q <+: new
  prev_le : prev ≤ new.length
  origin : new = old ∨ new = L.take (prev + es.length)

theorem take_stretch (hes : es <+: L.drop prev) :
    L.take prev ++ es = L.take (prev + es.length) := by
  rw [take_add, ← prefix_iff_eq_take.mp hes]

theorem overlay_kept (hold : old.take prev = L.take prev) (hprev : prev ≤ old.length)
    (hes : es <+: L.drop prev) (hhas : es <+: old.drop prev)
    (hend : old.length ≤ prev + es.length ∨ old <+: L) : Overlay L old prev es old := by
  refine ⟨?_, fun _ _ hq => hq, hprev, .inl rfl⟩
  rcases hend with hend | hsub
  · have hdrop : es = old.drop prev := by
      refine hhas.eq_of_length_le ?_
      rw [length_drop]
      omega
    have heq : old = L.take (prev + es.length) := by
      rw [← take_stretch hes, ← hold, hdrop, take_append_drop]
    rw [heq]
    exact take_prefix _ _
  · exact hsub

theorem overlay_replaced (hL : prev ≤ L.length) (hes : es <+: L.drop prev)
    (hnot : ¬ es <+: old.drop prev) :
    Overlay L old prev es (L.take (prev + es.length)) := by
  refine ⟨List.take_prefix _ _, fun q hqL hqo => ?_, ?_, .inr rfl⟩
  · rw [prefix_take_iff]
    refine ⟨hqL, ?_⟩
    by_contra hgt
    -- both logs agree beyond the stretch
    apply hnot
    have hq : es <+: q.drop prev := by
      have hqdrop : q.drop prev <+: L.drop prev := hqL.drop prev
      refine prefix_of_prefix_length_le hes hqdrop ?_
      rw [length_drop]
      omega
    exact hq.trans (hqo.drop prev)
  · rw [length_take]
    omega

theorem overlay_installed (hL : prev ≤ L.length) (hes : es <+: L.drop prev)
    (hhas : es <+: old.drop prev) (hend : old.length ≤ prev + es.length ∨ old <+: L) :
    Overlay L old prev es (L.take prev ++ old.drop prev) := by
  have hshort : old.length ≤ prev + es.length →
      Overlay L old prev es (L.take prev ++ old.drop prev) := by
    intro hle
    have hdrop : es = old.drop prev := by
      refine hhas.eq_of_length_le ?_
      rw [length_drop]
      omega
    rw [← hdrop, take_stretch hes]
    refine ⟨List.take_prefix _ _, fun q hqL hqo => ?_, ?_, .inr rfl⟩
    · rw [prefix_take_iff]
      exact ⟨hqL, hqo.length_le.trans hle⟩
    · have hlen := hes.length_le
      rw [length_take]
      omega
  rcases hend with hle | hsub
  · exact hshort hle
  rcases Nat.lt_or_ge old.length prev with hlt | hge
  · exact hshort (by omega)
  · rw [(take_eq_of_kept hge ((List.take_prefix prev old).trans hsub)).2, take_append_drop]
    exact ⟨hsub, fun _ _ hq => hq, hge, .inl rfl⟩

theorem Overlay.take_prev {new : List E} (h : Overlay L old prev es new) {i : Nat}
    (hi : i ≤ prev) : new.take i = L.take i := by
  obtain ⟨t, rfl⟩ := h.sub
  rw [take_append_of_le_length (hi.trans h.prev_le)]

end BicDb.Foundation
