import Transceiver.Octets
import Transceiver.Proofs.ShiftRegister

/-!
# The reflected check register

The same check as a register that shifts the other way: an octet comes in at the low end as it is,
and the bit that falls out at the low end brings in the polynomial in opposite bit order. This is
the CRC-16/KERMIT. `reflect` turns a register around. It takes every clock of the one register to a
clock of the other (`reflect_shift`), so both registers pass through the same states, and what goes
on air are the two octets of the reflected register, the low one first.
-/

namespace Transceiver.Crc

def reflect (crc : UInt16) : UInt16 := ⟨crc.toBitVec.reverse⟩

namespace Reflected

def polynomial : UInt16 := 0x8408

def shift (crc : UInt16) : UInt16 :=
  if crc &&& 1 = 0 then crc >>> 1 else (crc >>> 1) ^^^ polynomial

def shifts : Nat → UInt16 → UInt16
  | 0, crc => crc
  | n + 1, crc => shifts n (shift crc)

def feed (crc : UInt16) (b : UInt8) : UInt16 := shifts 8 (crc ^^^ b.toUInt16)

def ofList (octets : List UInt8) : UInt16 := octets.foldl feed 0

end Reflected

theorem bit_reflect (v : UInt16) {i : Nat} (h : i < 16) : bit (reflect v) i = bit v (15 - i) := by
  unfold bit reflect
  rw [BitVec.getLsbD_reverse, BitVec.getMsbD_eq_getLsbD]
  simp [h]

theorem reflect_xor (v w : UInt16) : reflect (v ^^^ w) = reflect v ^^^ reflect w := by
  apply eq_of_bits
  intro i hi
  simp only [bit_xor, bit_reflect _ hi]

theorem reflect_polynomial : reflect polynomial = Reflected.polynomial := by decide

theorem bit_shiftRight (v : UInt16) (i : Nat) : bit (v >>> 1) i = bit v (i + 1) := by
  have hs : (v >>> 1).toBitVec = v.toBitVec >>> 1 := rfl
  unfold bit
  rw [hs, BitVec.getLsbD_ushiftRight, Nat.add_comm]

theorem and_one_eq_zero_iff (v : UInt16) : v &&& 1 = 0 ↔ bit v 0 = false :=
  and_mask_eq_zero_iff v (by decide) rfl

/-- A clock moves every bit down by one place. -/
theorem bit_reflected_shift (v : UInt16) (i : Nat) :
    bit (Reflected.shift v) i = (bit v (i + 1) ^^ (bit v 0 && bit Reflected.polynomial i)) := by
  unfold Reflected.shift
  by_cases h : v &&& 1 = 0
  · rw [if_pos h, (and_one_eq_zero_iff v).1 h, bit_shiftRight, Bool.false_and, Bool.xor_false]
  · have hlow : bit v 0 = true := by
      cases hb : bit v 0 with
      | true => rfl
      | false => exact absurd ((and_one_eq_zero_iff v).2 hb) h
    rw [if_neg h, hlow, bit_xor, bit_shiftRight, Bool.true_and]

/-- A clock of one register is a clock of the other. -/
theorem reflect_shift (v : UInt16) : reflect (shift v) = Reflected.shift (reflect v) := by
  apply eq_of_bits
  intro i hi
  have hpolynomial : bit Reflected.polynomial i = bit polynomial (15 - i) := by
    rw [← reflect_polynomial, bit_reflect _ hi]
  have hlow : bit (reflect v) 0 = bit v 15 := bit_reflect v (by omega)
  rw [bit_reflect _ hi, bit_reflected_shift, hlow, hpolynomial]
  by_cases hlast : i = 15
  · -- nothing comes from above, and what falls out below comes in again
    subst hlast
    have hbeyond : bit (reflect v) 16 = false := BitVec.getLsbD_of_ge _ _ (Nat.le_refl 16)
    have hset : bit polynomial 0 = true := by decide
    rw [Nat.sub_self, bit_shift_zero, hbeyond, hset, Bool.and_true, Bool.false_xor]
  · have hsucc : 15 - i = 14 - i + 1 := by omega
    have hnext : 15 - (i + 1) = 14 - i := by omega
    rw [hsucc, bit_shift_succ v (by omega), bit_reflect v (by omega), hnext]

theorem reflect_shifts (n : Nat) (v : UInt16) :
    reflect (shifts n v) = Reflected.shifts n (reflect v) := by
  induction n generalizing v with
  | zero => rfl
  | succ n ih => rw [shifts, Reflected.shifts, ih, reflect_shift]

/-- An octet that is turned around for the top of the one register is for the other as it is. -/
theorem reflect_input (b : UInt8) : reflect ((reverseBits b).toUInt16 <<< 8) = b.toUInt16 := by
  have hs : ((reverseBits b).toUInt16 <<< 8).toBitVec =
      (reverseBits b).toBitVec.setWidth 16 <<< 8 := rfl
  have hb : b.toUInt16.toBitVec = b.toBitVec.setWidth 16 := rfl
  apply eq_of_bits
  intro i hi
  rw [bit_reflect _ hi]
  unfold bit
  rw [hs, hb, BitVec.getLsbD_shiftLeft, BitVec.getLsbD_setWidth, BitVec.getLsbD_setWidth]
  by_cases h : i < 8
  · have hplace : 15 - i - 8 = 7 - i := by omega
    have hback : 7 - (7 - i) = i := by omega
    have hupper : ¬15 - i < 8 := by omega
    have hlt : 15 - i < 16 ∧ 7 - i < 16 := by omega
    rw [hplace, getLsbD_reverseBits b (by omega), hback]
    simp [hi, hupper, hlt]
  · have hlower : 15 - i < 8 := by omega
    rw [BitVec.getLsbD_of_ge b.toBitVec i (by omega)]
    simp [hlower]

theorem reflect_feed (crc : UInt16) (b : UInt8) :
    reflect (feed crc b) = Reflected.feed (reflect crc) b := by
  unfold feed Reflected.feed
  rw [reflect_shifts, reflect_xor, reflect_input]

theorem reflect_ofList (l : List UInt8) : reflect (ofList l) = Reflected.ofList l := by
  have hfold (crc : UInt16) : reflect (l.foldl feed crc) = l.foldl Reflected.feed (reflect crc) := by
    induction l generalizing crc with
    | nil => rfl
    | cons b l ih => rw [List.foldl_cons, List.foldl_cons, ih, reflect_feed]
  exact hfold 0

theorem getLsbD_ofNat (n : Nat) {i : Nat} (h : i < 8) :
    (UInt8.ofNat n).toBitVec.getLsbD i = n.testBit i := by
  have hn : (UInt8.ofNat n).toBitVec = BitVec.ofNat 8 n := rfl
  rw [hn, BitVec.getLsbD_ofNat, decide_eq_true h, Bool.true_and]

/-- What goes on air is the reflected register, its low octet first. -/
theorem octets_eq_littleEndian (crc : UInt16) :
    octets crc = littleEndian 2 (reflect crc).toNat := by
  have hfirst : first crc = UInt8.ofNat (reflect crc).toNat := by
    rw [octet_ext_iff]
    intro i hi
    rw [getLsbD_first crc hi, ← bit_reflect crc (by omega), getLsbD_ofNat _ hi]
    rfl
  have hsecond : second crc = UInt8.ofNat ((reflect crc).toNat / 256) := by
    rw [octet_ext_iff]
    intro i hi
    have hplace : 7 - i = 15 - (i + 8) := by omega
    rw [getLsbD_second crc hi, hplace, ← bit_reflect crc (by omega), getLsbD_ofNat _ hi]
    exact (Nat.testBit_div_two_pow _ i).symm
  rw [octets, hfirst, hsecond]
  rfl

/-- The check octets of a frame are those of CRC-16/KERMIT, the low one first. Two octets check a
frame exactly if they bring its register back to zero. -/
theorem check_octets_reflected (l : List UInt8) :
    octets (ofList l) = littleEndian 2 (Reflected.ofList l).toNat ∧
      ∀ a b, accepts (ofList l) a b = true ↔ ofList (l ++ [a, b]) = 0 := by
  refine ⟨?_, accepts_iff_ofList l⟩
  rw [octets_eq_littleEndian, reflect_ofList]

/-- The check value of CRC-16/KERMIT, which is its register after the digits from 1 to 9. -/
example : Reflected.ofList [0x31, 0x32, 0x33, 0x34, 0x35, 0x36, 0x37, 0x38, 0x39] = 0x2189 := by
  decide +kernel

end Transceiver.Crc
