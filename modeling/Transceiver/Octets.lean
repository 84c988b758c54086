/-!
# Numbers as octets

Multi-octet fields travel least significant octet first. `littleEndian` writes a number into a given
count of octets and `ofLittleEndian` reads octets back; `littleEndian_ofLittleEndian` says that what
was read is written the same way again. `octet_toNat_succ` counts in an octet, and
`octet_and_or_distrib` masks an octet that is put together from two.
-/

namespace Transceiver

/-- The low `n` octets of `v`, least significant first. -/
def littleEndian : Nat → Nat → List UInt8
  | 0, _ => []
  | n + 1, v => UInt8.ofNat v :: littleEndian n (v / 256)

def ofLittleEndian : List UInt8 → Nat
  | [] => 0
  | b :: r => b.toNat + 256 * ofLittleEndian r

@[simp] theorem length_littleEndian (n v : Nat) : (littleEndian n v).length = n := by
  induction n generalizing v with
  | zero => rfl
  | succ n ih => simp [littleEndian, ih]

theorem littleEndian_ofLittleEndian (l : List UInt8) :
    littleEndian l.length (ofLittleEndian l) = l := by
  induction l with
  | nil => rfl
  | cons b r ih =>
      have hb := b.toNat_lt
      have hdiv : (b.toNat + 256 * ofLittleEndian r) / 256 = ofLittleEndian r := by omega
      have hmod : UInt8.ofNat (b.toNat + 256 * ofLittleEndian r) = b := by
        apply UInt8.toNat_inj.1
        rw [UInt8.toNat_ofNat']
        omega
      simp only [List.length_cons, littleEndian, ofLittleEndian, hdiv, hmod, ih]

theorem octet_toNat_succ {a : UInt8} (h : a.toNat < 255) : (a + 1).toNat = a.toNat + 1 := by
  rw [UInt8.toNat_add]
  change (a.toNat + 1) % 256 = a.toNat + 1
  omega

theorem octet_and_or_distrib (a b m : UInt8) : (a ||| b) &&& m = a &&& m ||| b &&& m :=
  UInt8.toBitVec_inj.1 BitVec.and_or_distrib_right

end Transceiver
