import Transceiver.FrameCheck

/-!
# The check register as a linear map

The register of the frame check, looked at bit by bit. A clock moves every bit up by one place and
brings the polynomial in when the top bit falls out, so it is linear: `shift_xor`, and with it
`feed_xor` for octets. `feed_eq` takes an octet apart into the bits that go on air. A stream of bits
followed by the check octets of its register brings the register back to zero, and nothing else of
that length does: `accepts_iff_ofList`.
-/

namespace Transceiver

def airBits (b : UInt8) : List Bool := (List.range 8).map b.toNat.testBit

@[simp] theorem length_airBits (b : UInt8) : (airBits b).length = 8 := by simp [airBits]

/-- Followed by other bits, the bits of an octet keep their places. -/
theorem getD_airBits_append (b : UInt8) {i : Nat} (h : i < 8) (l : List Bool) :
    (airBits b ++ l).getD i false = b.toBitVec.getLsbD i := by
  have hlt : i < (airBits b).length := by rwa [length_airBits]
  simp only [List.getD_eq_getElem?_getD, List.getElem?_append_left hlt]
  simp [airBits, h, BitVec.getLsbD]

theorem length_flatMap_airBits (l : List UInt8) : (l.flatMap airBits).length = 8 * l.length := by
  rw [List.length_flatMap, List.map_congr_left (fun b _ => length_airBits b), List.map_const',
    List.sum_replicate_nat, Nat.mul_comm]

theorem octet_ext_iff {a b : UInt8} :
    a = b ↔ ∀ i < 8, a.toBitVec.getLsbD i = b.toBitVec.getLsbD i := by
  constructor
  · rintro rfl i -
    rfl
  · intro h
    exact UInt8.toBitVec_inj.1 (BitVec.eq_of_getLsbD_eq h)

theorem getLsbD_reverseBits (b : UInt8) {i : Nat} (h : i < 8) :
    (reverseBits b).toBitVec.getLsbD i = b.toBitVec.getLsbD (7 - i) := by
  simp only [reverseBits, BitVec.getLsbD_reverse, BitVec.getMsbD_eq_getLsbD]
  simp [h]

theorem reverseBits_xor (a b : UInt8) :
    reverseBits (a ^^^ b) = reverseBits a ^^^ reverseBits b := by
  rw [octet_ext_iff]
  intro i hi
  simp only [UInt8.toBitVec_xor, BitVec.getLsbD_xor, getLsbD_reverseBits _ hi]

/-- An octet with no bit set is zero. -/
theorem eq_zero_of_airBits {b : UInt8} (h : true ∉ airBits b) : b = 0 := by
  rw [octet_ext_iff]
  intro i hi
  have hbit : b.toNat.testBit i ≠ true := fun hb =>
    h (List.mem_map.2 ⟨i, List.mem_range.2 hi, hb⟩)
  rw [UInt8.toBitVec_zero, BitVec.getLsbD_zero]
  exact Bool.eq_false_iff.2 hbit

namespace Crc

def bit (crc : UInt16) (i : Nat) : Bool := crc.toBitVec.getLsbD i

/-- One bit where input comes in, at the top of the register. -/
def top (b : Bool) : UInt16 := if b then 0x8000 else 0

theorem eq_of_bits {v w : UInt16} (h : ∀ i < 16, bit v i = bit w i) : v = w :=
  UInt16.toBitVec_inj.1 (BitVec.eq_of_getLsbD_eq h)

@[simp] theorem bit_zero (i : Nat) : bit 0 i = false := BitVec.getLsbD_zero

theorem bit_xor (v w : UInt16) (i : Nat) : bit (v ^^^ w) i = (bit v i ^^ bit w i) :=
  BitVec.getLsbD_xor

theorem bit_top (b : Bool) (i : Nat) : bit (top b) i = (b && decide (i = 15)) := by
  have h : (0x8000 : UInt16).toBitVec = BitVec.twoPow 16 15 := rfl
  cases b with
  | false => exact bit_zero i
  | true =>
    change (0x8000 : UInt16).toBitVec.getLsbD i = _
    rw [h, BitVec.getLsbD_twoPow]
    grind

theorem bit_shiftLeft_succ (v : UInt16) {i : Nat} (h : i < 15) :
    bit (v <<< 1) (i + 1) = bit v i := by
  have hs : (v <<< 1).toBitVec = v.toBitVec <<< 1 := rfl
  have hlt : i + 1 < 16 := by omega
  unfold bit
  rw [hs, BitVec.getLsbD_shiftLeft]
  simp [hlt]

theorem bit_shiftLeft_zero (v : UInt16) : bit (v <<< 1) 0 = false := by
  have hs : (v <<< 1).toBitVec = v.toBitVec <<< 1 := rfl
  unfold bit
  rw [hs, BitVec.getLsbD_shiftLeft]
  simp

theorem and_mask_eq_zero_iff (v : UInt16) {m : UInt16} {i : Nat} (hi : i < 16)
    (hm : m.toBitVec = BitVec.twoPow 16 i) : v &&& m = 0 ↔ bit v i = false := by
  have hzero : BitVec.twoPow 16 i ≠ 0#16 := fun h => by
    have hbit := congrArg (fun w : BitVec 16 => w.getLsbD i) h
    simp [hi] at hbit
  rw [← UInt16.toBitVec_inj, UInt16.toBitVec_and, hm, BitVec.and_twoPow]
  unfold bit
  cases v.toBitVec.getLsbD i <;> simp [hzero]

theorem and_top_eq_zero_iff (v : UInt16) : v &&& 0x8000 = 0 ↔ bit v 15 = false :=
  and_mask_eq_zero_iff v (by decide) rfl

/-! ## One clock -/

theorem shift_of_top {v : UInt16} (h : bit v 15 = true) : shift v = (v <<< 1) ^^^ polynomial :=
  if_neg fun hz => by simp [(and_top_eq_zero_iff v).1 hz] at h

theorem shift_of_not_top {v : UInt16} (h : bit v 15 = false) : shift v = v <<< 1 :=
  if_pos ((and_top_eq_zero_iff v).2 h)

theorem bit_shift_succ (v : UInt16) {i : Nat} (h : i < 15) :
    bit (shift v) (i + 1) = (bit v i ^^ (bit v 15 && bit polynomial (i + 1))) := by
  cases hv : bit v 15 with
  | true => rw [shift_of_top hv, bit_xor, bit_shiftLeft_succ v h, Bool.true_and]
  | false => rw [shift_of_not_top hv, bit_shiftLeft_succ v h, Bool.false_and, Bool.xor_false]

/-- The lowest bit of the polynomial is set, so the bit that falls out comes in again below. -/
theorem bit_shift_zero (v : UInt16) : bit (shift v) 0 = bit v 15 := by
  have hp : bit polynomial 0 = true := by decide
  cases hv : bit v 15 with
  | true => rw [shift_of_top hv, bit_xor, bit_shiftLeft_zero, hp, Bool.false_xor]
  | false => rw [shift_of_not_top hv, bit_shiftLeft_zero]

theorem shift_xor (v w : UInt16) : shift (v ^^^ w) = shift v ^^^ shift w := by
  apply eq_of_bits
  intro i hi
  cases i with
  | zero => simp only [bit_shift_zero, bit_xor]
  | succ i =>
    simp only [bit_xor, bit_shift_succ _ (Nat.lt_of_succ_lt_succ hi), Bool.and_xor_distrib_right]
    simp only [Bool.xor_assoc, Bool.xor_left_comm]

theorem shift_eq_zero_iff (v : UInt16) : shift v = 0 ↔ v = 0 := by
  constructor
  · intro h
    have htop : bit v 15 = false := by rw [← bit_shift_zero, h, bit_zero]
    apply eq_of_bits
    intro i hi
    rw [bit_zero]
    by_cases hlt : i < 15
    · have hsucc := bit_shift_succ v hlt
      rw [h, htop, bit_zero, Bool.false_and, Bool.xor_false] at hsucc
      exact hsucc.symm
    · obtain rfl : i = 15 := by omega
      exact htop
  · rintro rfl
    rfl

theorem shifts_xor (n : Nat) (v w : UInt16) :
    shifts n (v ^^^ w) = shifts n v ^^^ shifts n w := by
  induction n generalizing v w with
  | zero => rfl
  | succ n ih => simp only [shifts, shift_xor, ih]

theorem shifts_eq_zero_iff (n : Nat) (v : UInt16) : shifts n v = 0 ↔ v = 0 := by
  induction n generalizing v with
  | zero => rfl
  | succ n ih => rw [shifts, ih, shift_eq_zero_iff]

/-! ## Bits and octets -/

def feedBit (crc : UInt16) (b : Bool) : UInt16 := shift (crc ^^^ top b)

def feedBits (crc : UInt16) (l : List Bool) : UInt16 := l.foldl feedBit crc

theorem feedBits_cons (crc : UInt16) (b : Bool) (l : List Bool) :
    feedBits crc (b :: l) = feedBits (feedBit crc b) l := rfl

theorem feedBits_append (crc : UInt16) (l m : List Bool) :
    feedBits crc (l ++ m) = feedBits (feedBits crc l) m := List.foldl_append

/-- What was in the register before goes its own way. -/
theorem feedBits_eq_xor (crc : UInt16) (l : List Bool) :
    feedBits crc l = shifts l.length crc ^^^ feedBits 0 l := by
  induction l generalizing crc with
  | nil => simp [feedBits, shifts]
  | cons b l ih =>
    have hzero : shift 0 = 0 := rfl
    rw [feedBits_cons, feedBits_cons, ih (feedBit crc b), ih (feedBit 0 b), List.length_cons,
      shifts]
    simp only [feedBit, shift_xor, shifts_xor, hzero, (shifts_eq_zero_iff _ 0).2 rfl]
    simp [UInt16.xor_assoc]

theorem feed_zero (b : UInt8) : feed 0 b = feedBits 0 (airBits b) := by
  have hall : ∀ n : Fin 256, feed 0 (UInt8.ofNat n) = feedBits 0 (airBits (UInt8.ofNat n)) := by
    decide +kernel
  have hb := hall ⟨b.toNat, b.toNat_lt⟩
  rwa [UInt8.ofNat_toNat] at hb

theorem feed_eq (crc : UInt16) (b : UInt8) : feed crc b = feedBits crc (airBits b) := by
  rw [feedBits_eq_xor, ← feed_zero, length_airBits]
  simp only [feed, shifts_xor, UInt16.zero_xor]

theorem ofList_eq (l : List UInt8) : ofList l = feedBits 0 (l.flatMap airBits) := by
  unfold ofList
  generalize (0 : UInt16) = crc
  induction l generalizing crc with
  | nil => rfl
  | cons b l ih => rw [List.foldl_cons, ih, List.flatMap_cons, feedBits_append, feed_eq]

theorem feed_xor (v w : UInt16) (a b : UInt8) :
    feed (v ^^^ w) (a ^^^ b) = feed v a ^^^ feed w b := by
  have hs (x y : UInt16) : (x ^^^ y) <<< 8 = (x <<< 8) ^^^ (y <<< 8) :=
    UInt16.toBitVec_inj.1 (BitVec.shiftLeft_xor_distrib x.toBitVec y.toBitVec 8)
  unfold feed
  rw [← shifts_xor, reverseBits_xor, UInt8.toUInt16_xor, hs]
  congr 1
  ac_rfl

theorem foldl_feed_zipWith_xor {l m : List UInt8} (h : l.length = m.length) (v w : UInt16) :
    (List.zipWith (· ^^^ ·) l m).foldl feed (v ^^^ w) = l.foldl feed v ^^^ m.foldl feed w := by
  induction l generalizing m v w with
  | nil =>
    obtain rfl := List.length_eq_zero_iff.1 h.symm
    rfl
  | cons a l ih =>
    cases m with
    | nil => cases h
    | cons b m =>
      rw [List.zipWith_cons_cons, List.foldl_cons, feed_xor, ih (Nat.succ.inj h)]
      rfl

/-- The register of a disturbed frame is the frame's own, disturbed by that of the errors. -/
theorem ofList_zipWith_xor {l m : List UInt8} (h : l.length = m.length) :
    ofList (List.zipWith (· ^^^ ·) l m) = ofList l ^^^ ofList m :=
  foldl_feed_zipWith_xor h 0 0

/-! ## Back to zero -/

section
variable (crc : UInt16) (b : Bool)

theorem bit_xor_top {i : Nat} (hi : i < 15) : bit (crc ^^^ top b) i = bit crc i := by
  have hne : i ≠ 15 := by omega
  simp [bit_xor, bit_top, hne]

theorem bit_xor_top_last : bit (crc ^^^ top b) 15 = (bit crc 15 ^^ b) := by
  simp [bit_xor, bit_top]

theorem bit_feedBit_zero : bit (feedBit crc b) 0 = (bit crc 15 ^^ b) := by
  rw [feedBit, bit_shift_zero, bit_xor_top_last]

/-- A bit equal to the one that falls out leaves the register a plain shift. -/
theorem bit_feedBit_of_eq (h : bit crc 15 = b) {i : Nat} (hi : i < 15) :
    bit (feedBit crc b) (15 - i) = bit crc (14 - i) := by
  have hsucc : 15 - i = 14 - i + 1 := by omega
  rw [hsucc, feedBit, bit_shift_succ _ (by omega), bit_xor_top _ _ (by omega), bit_xor_top_last,
    h, Bool.xor_self, Bool.false_and, Bool.xor_false]

end

/-- No more bits than the register has bring it to zero only by being its own, from the top. -/
theorem feedBits_eq_zero_iff {l : List Bool} (hl : l.length ≤ 16) (crc : UInt16) :
    feedBits crc l = 0 ↔ ∀ i < 16, bit crc (15 - i) = l.getD i false := by
  induction l generalizing crc with
  | nil =>
    change crc = 0 ↔ ∀ i < 16, bit crc (15 - i) = false
    constructor
    · rintro rfl i -
      exact bit_zero _
    · intro h
      apply eq_of_bits
      intro i hi
      have hi' := h (15 - i) (by omega)
      rw [Nat.sub_sub_self (by omega)] at hi'
      rw [hi', bit_zero]
  | cons b l ih =>
    rw [List.length_cons] at hl
    have hend : l.getD 15 false = false := by
      rw [List.getD_eq_getElem?_getD, List.getElem?_eq_none (by omega)]
      rfl
    rw [feedBits_cons, ih (by omega)]
    constructor
    · intro h
      have h15 : bit crc 15 = b := by
        have := h 15 (by omega)
        rw [hend, Nat.sub_self, bit_feedBit_zero] at this
        simpa using this
      intro i hi
      cases i with
      | zero => exact h15
      | succ i =>
        have h14 : 15 - (i + 1) = 14 - i := by omega
        rw [h14, ← bit_feedBit_of_eq crc b h15 (by omega)]
        exact h i (by omega)
    · intro h i hi
      have h15 : bit crc 15 = b := h 0 (by omega)
      by_cases hlast : i = 15
      · rw [hlast, hend, Nat.sub_self, bit_feedBit_zero, h15, Bool.xor_self]
      · rw [bit_feedBit_of_eq crc b h15 (by omega)]
        have h14 : 15 - (i + 1) = 14 - i := by omega
        rw [← h14]
        exact h (i + 1) (by omega)

theorem getLsbD_first (crc : UInt16) {i : Nat} (h : i < 8) :
    (first crc).toBitVec.getLsbD i = bit crc (15 - i) := by
  have hi : 8 + (7 - i) = 15 - i := by omega
  have hs : (crc >>> 8).toUInt8.toBitVec = (crc.toBitVec >>> 8).setWidth 8 := rfl
  have hlt : 7 - i < 8 := by omega
  rw [first, getLsbD_reverseBits _ h, hs, BitVec.getLsbD_setWidth, BitVec.getLsbD_ushiftRight, hi]
  simp [hlt, bit]

theorem getLsbD_second (crc : UInt16) {i : Nat} (h : i < 8) :
    (second crc).toBitVec.getLsbD i = bit crc (7 - i) := by
  have hs : crc.toUInt8.toBitVec = crc.toBitVec.setWidth 8 := rfl
  have hlt : 7 - i < 8 := by omega
  rw [second, getLsbD_reverseBits _ h, hs, BitVec.getLsbD_setWidth]
  simp [hlt, bit]

/-- The check octets go on air as the bits of the register, from the top. -/
theorem octets_eq_iff (crc : UInt16) (a b : UInt8) : octets crc = [a, b] ↔
    ∀ i < 16, bit crc (15 - i) = (airBits a ++ airBits b).getD i false := by
  have hlate {i : Nat} (h : 8 ≤ i) (h' : i < 16) :
      (airBits a ++ airBits b).getD i false = b.toBitVec.getLsbD (i - 8) := by
    have hge : (airBits a).length ≤ i := by rwa [length_airBits]
    have hb := getD_airBits_append b (i := i - 8) (by omega) []
    rw [← hb, List.append_nil, List.getD_eq_getElem?_getD, List.getElem?_append_right hge,
      length_airBits, List.getD_eq_getElem?_getD]
  simp only [octets, List.cons.injEq, and_true]
  rw [octet_ext_iff, octet_ext_iff]
  constructor
  · rintro ⟨ha, hb⟩ i hi
    by_cases h : i < 8
    · rw [getD_airBits_append a h, ← ha i h, getLsbD_first crc h]
    · have h7 : 7 - (i - 8) = 15 - i := by omega
      rw [hlate (by omega) hi, ← hb _ (by omega), getLsbD_second crc (by omega), h7]
  · intro h
    constructor
    · intro i hi
      rw [getLsbD_first crc hi, h i (by omega), getD_airBits_append a hi]
    · intro i hi
      have h7 : 7 - i = 15 - (i + 8) := by omega
      rw [getLsbD_second crc hi, h7, h _ (by omega), hlate (by omega) (by omega),
        Nat.add_sub_cancel]

/-- Two octets check a frame exactly if they bring its register back to zero. -/
theorem accepts_iff_ofList (l : List UInt8) (a b : UInt8) :
    accepts (ofList l) a b = true ↔ ofList (l ++ [a, b]) = 0 := by
  have hlength : (airBits a ++ airBits b).length ≤ 16 := by simp
  rw [accepts_iff, octets_eq_iff, ← feedBits_eq_zero_iff hlength, ofList_eq, ofList_eq,
    List.flatMap_append, ← feedBits_append]
  simp only [List.flatMap_cons, List.flatMap_nil, List.append_nil]

end Crc

end Transceiver
