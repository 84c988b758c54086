import Mathlib.Algebra.Ring.Parity
import Mathlib.Data.List.Basic
import Transceiver.Proofs.ShiftRegister

/-!
# Errors that the frame check finds

A disturbed frame passes the check exactly if the disturbance, taken for a frame of its own, brings
the register back to zero. Three kinds of disturbance never do. A burst no longer than the register
would have to be the register's own content. An odd number of bits leaves an odd number of bits in
the register, since a clock changes an even number of them. Two bits would have to be as far apart
as it takes a single bit to come around, which is farther than a frame is long.
-/

namespace Transceiver

namespace Crc

/-! ## Silence and bursts -/

/-- Without input the register only shifts. -/
theorem feedBits_of_silent {l : List Bool} (h : true ∉ l) (crc : UInt16) :
    feedBits crc l = shifts l.length crc := by
  induction l generalizing crc with
  | nil => rfl
  | cons b l ih =>
    obtain ⟨hb, hl⟩ := not_or.1 (mt List.mem_cons.2 h)
    obtain rfl : b = false := by simpa using hb
    have hshift : feedBit crc false = shift crc := by simp [feedBit, top]
    rw [feedBits_cons, hshift, ih hl]
    rfl

theorem feedBits_silent_append {l : List Bool} (h : true ∉ l) (m : List Bool) :
    feedBits 0 (l ++ m) = feedBits 0 m := by
  rw [feedBits_append, feedBits_of_silent h, (shifts_eq_zero_iff _ _).2 rfl]

theorem feedBits_append_silent_eq_zero_iff {m : List Bool} (h : true ∉ m) (l : List Bool) :
    feedBits 0 (l ++ m) = 0 ↔ feedBits 0 l = 0 := by
  rw [feedBits_append, feedBits_of_silent h, shifts_eq_zero_iff]

/-- All bits that are set lie within as many places as the register has. -/
def IsBurst (l : List Bool) : Prop := ∃ s, ∀ i, l[i]? = some true → s ≤ i ∧ i < s + 16

theorem feedBits_window_ne_zero {w : List Bool} (hlength : w.length ≤ 16) (h : true ∈ w) :
    feedBits 0 w ≠ 0 := by
  intro hz
  obtain ⟨i, hi, hbit⟩ := List.mem_iff_getElem.1 h
  have hzero := (feedBits_eq_zero_iff hlength 0).1 hz i (by omega)
  rw [bit_zero, List.getD_eq_getElem?_getD, List.getElem?_eq_getElem hi, hbit] at hzero
  cases hzero

theorem feedBits_burst_ne_zero {l : List Bool} (hl : IsBurst l) (h : true ∈ l) :
    feedBits 0 l ≠ 0 := by
  obtain ⟨s, hs⟩ := hl
  have hsplit : l = l.take s ++ ((l.drop s).take 16 ++ l.drop (s + 16)) := by
    rw [← List.drop_drop, List.take_append_drop, List.take_append_drop]
  have hbefore : true ∉ l.take s := by
    intro hm
    obtain ⟨i, hi⟩ := List.mem_iff_getElem?.1 hm
    rw [List.getElem?_take] at hi
    split at hi
    · have := (hs i hi).1
      omega
    · cases hi
  have hbehind : true ∉ l.drop (s + 16) := by
    intro hm
    obtain ⟨i, hi⟩ := List.mem_iff_getElem?.1 hm
    rw [List.getElem?_drop] at hi
    have := (hs _ hi).2
    omega
  have hwindow : true ∈ (l.drop s).take 16 := by
    rw [hsplit, List.mem_append, List.mem_append] at h
    exact (h.resolve_left hbefore).resolve_right hbehind
  rw [hsplit, feedBits_silent_append hbefore, ne_eq, feedBits_append_silent_eq_zero_iff hbehind]
  exact feedBits_window_ne_zero (List.length_take_le _ _) hwindow

/-! ## Parity -/

def oddBelow (v : UInt16) : Nat → Bool
  | 0 => false
  | n + 1 => oddBelow v n ^^ bit v n

theorem oddBelow_zero (n : Nat) : oddBelow 0 n = false := by
  induction n with
  | zero => rfl
  | succ n ih => rw [oddBelow, ih, bit_zero, Bool.xor_false]

theorem oddBelow_xor (v w : UInt16) (n : Nat) :
    oddBelow (v ^^^ w) n = (oddBelow v n ^^ oddBelow w n) := by
  induction n with
  | zero => rfl
  | succ n ih => simp only [oddBelow, ih, bit_xor, Bool.xor_assoc, Bool.xor_left_comm]

theorem oddBelow_shift (v : UInt16) {n : Nat} (hn : n ≤ 15) : oddBelow (shift v) (n + 1) =
    (oddBelow v n ^^ (bit v 15 && oddBelow polynomial (n + 1))) := by
  induction n with
  | zero =>
    have h0 : bit polynomial 0 = true := by decide
    simp [oddBelow, bit_shift_zero, h0]
  | succ n ih =>
    rw [oddBelow, ih (by omega), bit_shift_succ v (by omega), oddBelow.eq_2 v n,
      oddBelow.eq_2 polynomial (n + 1), Bool.and_xor_distrib_left]
    simp only [Bool.xor_assoc, Bool.xor_left_comm]

/-- The polynomial has an even number of terms: what falls out above comes in again below. -/
theorem oddBelow_shift_all (v : UInt16) : oddBelow (shift v) 16 = oddBelow v 16 := by
  have hp : oddBelow polynomial 16 = true := by decide
  rw [oddBelow_shift v (Nat.le_refl _), hp, Bool.and_true]
  rfl

theorem oddBelow_feedBits (crc : UInt16) (l : List Bool) :
    oddBelow (feedBits crc l) 16 = (oddBelow crc 16 ^^ decide (Odd (l.count true))) := by
  induction l generalizing crc with
  | nil => simp [feedBits]
  | cons b l ih =>
    have htop : oddBelow (top b) 16 = b := by cases b <;> decide
    rw [feedBits_cons, ih, feedBit, oddBelow_shift_all, oddBelow_xor, htop]
    cases b with
    | true =>
      have hodd : decide (Odd (l.count true + 1)) = !decide (Odd (l.count true)) := by
        rw [decide_eq_decide.2 Nat.odd_add_one, decide_not]
      rw [List.count_cons_self, hodd, Bool.xor_true, Bool.not_xor, Bool.xor_not]
    | false => simp

theorem feedBits_odd_ne_zero {l : List Bool} (h : Odd (l.count true)) : feedBits 0 l ≠ 0 := by
  intro hz
  have hodd := oddBelow_feedBits 0 l
  rw [hz, oddBelow_zero, decide_eq_true h] at hodd
  cases hodd

/-! ## Two bits -/

def avoids (v : UInt16) : UInt16 → Nat → Bool
  | _, 0 => true
  | w, n + 1 => shift w != v && avoids v (shift w) n

theorem shifts_ne_of_avoids {v w : UInt16} {n : Nat} (h : avoids v w n = true) {k : Nat}
    (hk : k < n) : shifts (k + 1) w ≠ v := by
  induction n generalizing w k with
  | zero => cases hk
  | succ n ih =>
    simp only [avoids, Bool.and_eq_true, bne_iff_ne] at h
    cases k with
    | zero => exact h.1
    | succ k => exact ih h.2 (by omega)

/-- A single bit does not come around within the length of a frame. -/
theorem shifts_top_ne {k : Nat} (h : k < 1015) : shifts (k + 1) (top true) ≠ top true :=
  shifts_ne_of_avoids (n := 1015) (by decide +kernel) h

/-- The first bit that is set, with the silence before it. -/
theorem eq_replicate_append {l : List Bool} (h : true ∈ l) :
    ∃ k r, l = List.replicate k false ++ true :: r ∧ l.count true = r.count true + 1 := by
  induction l with
  | nil => cases h
  | cons b l ih =>
    cases b with
    | true => exact ⟨0, l, rfl, List.count_cons_self⟩
    | false =>
      obtain ⟨k, r, rfl, hr⟩ := ih (by simpa using h)
      exact ⟨k + 1, r, rfl, by simpa using hr⟩

theorem feedBits_pair_ne_zero {l : List Bool} (hl : l.length ≤ 1016) (h : l.count true = 2) :
    feedBits 0 l ≠ 0 := by
  have hfirst : 0 < l.count true := by omega
  obtain ⟨i, r, rfl, hr⟩ := eq_replicate_append (List.count_pos_iff.1 hfirst)
  have hsecond : 0 < r.count true := by omega
  obtain ⟨k, t, rfl, ht⟩ := eq_replicate_append (List.count_pos_iff.1 hsecond)
  have hsilent : true ∉ t := List.count_eq_zero.1 (by omega)
  have hgap (n : Nat) : true ∉ List.replicate n false := by simp
  simp only [List.length_append, List.length_replicate, List.length_cons] at hl
  have hpair : feedBits 0 (true :: (List.replicate k false ++ true :: t)) =
      shifts (t.length + 1) (shifts (k + 1) (top true) ^^^ top true) := by
    rw [feedBits_cons, feedBits_append, feedBits_of_silent (hgap k), List.length_replicate,
      feedBits_cons, feedBits_of_silent hsilent]
    simp [feedBit, shifts]
  rw [feedBits_silent_append (hgap i), hpair, ne_eq, shifts_eq_zero_iff, UInt16.xor_eq_zero_iff]
  exact shifts_top_ne (by omega)

/-! ## Disturbed frames -/

theorem mem_flatMap_airBits {e : List UInt8} (h : ∃ b ∈ e, b ≠ 0) : true ∈ e.flatMap airBits := by
  obtain ⟨b, hb, hne⟩ := h
  exact List.mem_flatMap.2 ⟨b, hb, Decidable.not_not.1 (mt eq_zero_of_airBits hne)⟩

/-- At most three bits are one, two or three, and one and three are odd. -/
theorem feedBits_few_ne_zero {l : List Bool} (hl : l.length ≤ 1016) (h : true ∈ l)
    (hfew : l.count true ≤ 3) : feedBits 0 l ≠ 0 := by
  have hpos := List.count_pos_iff.2 h
  by_cases htwo : l.count true = 2
  · exact feedBits_pair_ne_zero hl htwo
  · apply feedBits_odd_ne_zero
    rw [Nat.odd_iff]
    omega

theorem ofList_append_octets (m : List UInt8) : ofList (m ++ octets (ofList m)) = 0 :=
  (accepts_iff_ofList m _ _).1 (accepts_first_second _)

theorem eq_append_pair {n : Nat} {l : List UInt8} (h : l.length = n + 2) :
    ∃ r a b, l = r ++ [a, b] := by
  have hdrop : (l.drop n).length = 2 := by
    rw [List.length_drop]
    omega
  obtain ⟨a, b, hab⟩ := List.length_eq_two.1 hdrop
  exact ⟨l.take n, a, b, by rw [← hab, List.take_append_drop]⟩

/-- Whatever of these kinds becomes of a frame on its way, the check octets do not fit it. -/
theorem disturbance_found {m e : List UInt8} (hm : m.length ≤ 125)
    (he : e.length = m.length + 2) (hne : ∃ b ∈ e, b ≠ 0)
    (h : IsBurst (e.flatMap airBits) ∨ (e.flatMap airBits).count true ≤ 3 ∨
      Odd ((e.flatMap airBits).count true)) :
    ∃ l a b, List.zipWith (· ^^^ ·) (m ++ octets (ofList m)) e = l ++ [a, b] ∧
      accepts (ofList l) a b = false := by
  have hset := mem_flatMap_airBits hne
  have hlength : (e.flatMap airBits).length ≤ 1016 := by
    rw [length_flatMap_airBits]
    omega
  have herror : ofList e ≠ 0 := by
    rw [ofList_eq]
    rcases h with hburst | hfew | hodd
    · exact feedBits_burst_ne_zero hburst hset
    · exact feedBits_few_ne_zero hlength hset hfew
    · exact feedBits_odd_ne_zero hodd
  have heq : (m ++ octets (ofList m)).length = e.length := by simp [octets, he]
  have hdisturbed : (List.zipWith (· ^^^ ·) (m ++ octets (ofList m)) e).length = m.length + 2 := by
    rw [List.length_zipWith, heq, Nat.min_self, he]
  obtain ⟨l, a, b, hl⟩ := eq_append_pair hdisturbed
  refine ⟨l, a, b, hl, ?_⟩
  rw [Bool.eq_false_iff, ne_eq, accepts_iff_ofList, ← hl, ofList_zipWith_xor heq,
    ofList_append_octets, UInt16.zero_xor]
  exact herror

/-- A burst across three octets, from the last bit of the first one on. -/
theorem disturbance_found_of_burst : ∃ l a b,
    List.zipWith (· ^^^ ·) ([0x02, 0x00, 0x2A] ++ octets (ofList [0x02, 0x00, 0x2A]))
      [0x00, 0x00, 0x80, 0xFF, 0x7F] = l ++ [a, b] ∧ accepts (ofList l) a b = false := by
  refine disturbance_found (by decide) (by decide) (by decide) (.inl ⟨23, fun i hi => ?_⟩)
  have hlt := (List.getElem?_eq_some_iff.1 hi).1
  have hall : ∀ i < 40, (([0x00, 0x00, 0x80, 0xFF, 0x7F] : List UInt8).flatMap airBits)[i]? =
      some true → 23 ≤ i ∧ i < 23 + 16 := by decide
  exact hall i hlt hi

/-- A burst one bit longer can be the polynomial itself, which the register does not see. -/
example : ofList [0x11, 0x08, 0x01] = 0 := by decide +kernel

end Crc

end Transceiver
