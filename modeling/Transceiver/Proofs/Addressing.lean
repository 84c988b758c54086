import Transceiver.FrameHeader
import Transceiver.Proofs.StreamedFilter

/-!
# Frames addressed to a node

`Header.AddressedTo` says for which nodes a frame is meant, in terms of the fields of its header.
The filter knows nothing of headers: it compares octets at fixed offsets of the frame as it comes
in. By `passes_image_iff` it lets exactly the frames pass that are addressed to its node, whatever
addresses and payload they carry.
-/

namespace Transceiver

/-! ### Numbers in octets -/

theorem ofLittleEndian_littleEndian {n v : Nat} (h : v < Nat.pow 256 n) :
    ofLittleEndian (littleEndian n v) = v := by
  induction n generalizing v with
  | zero =>
    have hv : v < 1 := h
    change 0 = v
    omega
  | succ n ih =>
    have hdiv : v / 256 < Nat.pow 256 n := Nat.div_lt_of_lt_mul (by rw [Nat.mul_comm]; exact h)
    have hlow : (UInt8.ofNat v).toNat = v % 256 := UInt8.toNat_ofNat'
    change (UInt8.ofNat v).toNat + 256 * ofLittleEndian (littleEndian n (v / 256)) = v
    rw [ih hdiv, hlow]
    exact Nat.mod_add_div v 256

theorem ofLittleEndian_lt (l : List UInt8) : ofLittleEndian l < Nat.pow 256 l.length := by
  induction l with
  | nil => exact Nat.zero_lt_one
  | cons b r ih =>
    have hb := b.toNat_lt
    change b.toNat + 256 * ofLittleEndian r < Nat.pow 256 r.length * 256
    omega

theorem littleEndian_eq_iff {n v : Nat} {l : List UInt8} (hl : l.length = n)
    (hv : v < Nat.pow 256 n) : littleEndian n v = l ↔ v = ofLittleEndian l := by
  constructor
  · intro h
    rw [← h, ofLittleEndian_littleEndian hv]
  · intro h
    rw [h, ← hl, littleEndian_ofLittleEndian]

namespace LocalAddress

variable (node : LocalAddress)

def panId : UInt16 := UInt16.ofNat (ofLittleEndian node.pan.toList)

def shortAddress : UInt16 := UInt16.ofNat (ofLittleEndian node.short.toList)

def ieeeAddress : UInt64 := UInt64.ofNat (ofLittleEndian node.ieee.toList)

end LocalAddress

namespace FrameFilter

theorem littleEndian_two_iff (a : UInt16) {own : List UInt8} (h : own.length = 2) :
    littleEndian 2 a.toNat = own ↔ a = UInt16.ofNat (ofLittleEndian own) := by
  have hown := ofLittleEndian_lt own
  rw [h] at hown
  rw [littleEndian_eq_iff h a.toNat_lt, ← UInt16.toNat_inj, UInt16.toNat_ofNat',
    Nat.mod_eq_of_lt hown]

theorem littleEndian_eight_iff (a : UInt64) {own : List UInt8} (h : own.length = 8) :
    littleEndian 8 a.toNat = own ↔ a = UInt64.ofNat (ofLittleEndian own) := by
  have hown := ofLittleEndian_lt own
  rw [h] at hown
  rw [littleEndian_eq_iff h a.toNat_lt, ← UInt64.toNat_inj, UInt64.toNat_ofNat',
    Nat.mod_eq_of_lt hown]

theorem reaches_iff {address own : List UInt8} : reaches address own = true ↔
    address = own ∨ address = List.replicate own.length 0xFF := by
  simp [reaches]

theorem reaches_two (a : UInt16) {own : List UInt8} (h : own.length = 2) :
    reaches (littleEndian 2 a.toNat) own = true ↔
      a = UInt16.ofNat (ofLittleEndian own) ∨ a = 0xFFFF := by
  have hall : List.replicate 2 0xFF = littleEndian 2 (0xFFFF : UInt16).toNat := by decide
  rw [reaches_iff, littleEndian_two_iff a h, h, littleEndian_two_iff a (by simp), hall,
    ofLittleEndian_littleEndian (by decide)]
  rfl

theorem reaches_eight (a : UInt64) {own : List UInt8} (h : own.length = 8) :
    reaches (littleEndian 8 a.toNat) own = true ↔
      a = UInt64.ofNat (ofLittleEndian own) ∨ a = 0xFFFFFFFFFFFFFFFF := by
  have hall : List.replicate 8 0xFF = littleEndian 8 (0xFFFFFFFFFFFFFFFF : UInt64).toNat := by
    decide
  rw [reaches_iff, littleEndian_eight_iff a h, h, littleEndian_eight_iff a (by simp), hall,
    ofLittleEndian_littleEndian (by decide)]
  rfl

theorem sourcePanAccepted_iff (t : FrameType) (pan : UInt16) {node : LocalAddress}
    (h : node.isCoordinator = false) :
    sourcePanAccepted t node (littleEndian 2 pan.toNat) = true ↔
      match t with
      | .beacon => pan = node.panId ∨ node.panId = 0xFFFF
      | .data | .command => False
      | _ => True := by
  have hall : node.pan.toList = [0xFF, 0xFF] ↔ node.panId = 0xFFFF := by
    have hword : littleEndian 2 (0xFFFF : UInt16).toNat = [0xFF, 0xFF] := by decide
    rw [eq_comm, ← hword, littleEndian_two_iff _ node.pan.length_toList, eq_comm]
    rfl
  cases t with
  | beacon =>
    simp only [sourcePanAccepted, Bool.or_eq_true, beq_iff_eq,
      littleEndian_two_iff pan node.pan.length_toList, hall]
    rfl
  | data | command => simp [sourcePanAccepted, h]
  | ack | reserved n => simp [sourcePanAccepted]

/-! ### The filter on a whole frame -/

variable {frame : List UInt8} (node : LocalAddress)

theorem accepted_check_one : (check frame 1 node).accepted =
    !(FrameControl.ofFrame frame).isReserved := by
  unfold check
  simp only
  cases (FrameControl.ofFrame frame).isReserved <;> rfl

theorem accepted_check_of_known (h : (FrameControl.ofFrame frame).isReserved = false) :
    (check frame 5 node).accepted = panAccepted (.ofFrame frame) node frame ∧
    (check frame 7 node).accepted =
      ((FrameControl.ofFrame frame).destMode != .short ||
        addressAccepted frame node.short.toList) ∧
    (check frame 13 node).accepted =
      ((FrameControl.ofFrame frame).destMode != .long ||
        addressAccepted frame node.ieee.toList) := by
  unfold check
  simp only [h, Bool.false_eq_true, if_false]
  exact ⟨accepted_ofBool _, accepted_ofBool _, accepted_ofBool _⟩

/-- Fields that are not there count as matching, so the checks need no regard to the length. -/
theorem passes_iff (h : 1 < frame.length) : Passes frame node ↔
    (FrameControl.ofFrame frame).isReserved = false ∧
    panAccepted (.ofFrame frame) node frame = true ∧
    ((FrameControl.ofFrame frame).destMode = .short →
      addressAccepted frame node.short.toList = true) ∧
    ((FrameControl.ofFrame frame).destMode = .long →
      addressAccepted frame node.ieee.toList = true) := by
  have hpan (hn : ¬5 < frame.length) (fc : FrameControl) : panAccepted fc node frame = true := by
    have hfield : field? frame 4 2 = none := if_neg (by omega)
    simp only [panAccepted, hfield]
  have haddress (own : List UInt8) (hn : ¬5 + own.length < frame.length) :
      addressAccepted frame own = true := by
    have hfield : field? frame 6 own.length = none := if_neg (by omega)
    simp only [addressAccepted, hfield]
  by_cases hreserved : (FrameControl.ofFrame frame).isReserved = true
  · have hfirst : (check frame 1 node).accepted = false := by
      rw [accepted_check_one, hreserved]
      rfl
    constructor
    · intro hp
      rw [hp 1 (by decide) h] at hfirst
      cases hfirst
    · rintro ⟨hn, -⟩
      rw [hn] at hreserved
      cases hreserved
  have hknown := eq_false_of_ne_true hreserved
  obtain ⟨h5, h7, h13⟩ := accepted_check_of_known node hknown
  constructor
  · intro hp
    refine ⟨hknown, ?_, fun hd => ?_, fun hd => ?_⟩
    · by_cases hlength : 5 < frame.length
      · exact h5 ▸ hp 5 (by decide) hlength
      · exact hpan hlength _
    · by_cases hlength : 7 < frame.length
      · have hchecked := h7 ▸ hp 7 (by decide) hlength
        simpa [hd] using hchecked
      · exact haddress _ (by simpa using hlength)
    · by_cases hlength : 13 < frame.length
      · have hchecked := h13 ▸ hp 13 (by decide) hlength
        simpa [hd] using hchecked
      · exact haddress _ (by simpa using hlength)
  · rintro ⟨-, hpan, hshort, hlong⟩ k hk -
    simp only [checkOffsets, List.mem_cons, List.not_mem_nil, or_false] at hk
    rcases hk with rfl | rfl | rfl | rfl | rfl
    · rw [accepted_check_one, hknown]
      rfl
    · exact accepted_check_three node frame
    · exact h5.trans hpan
    · rw [h7]
      by_cases hd : (FrameControl.ofFrame frame).destMode = .short
      · simp [hshort hd]
      · simp [hd]
    · rw [h13]
      by_cases hd : (FrameControl.ofFrame frame).destMode = .long
      · simp [hlong hd]
      · simp [hd]

theorem field?_mid {pre mid post : List UInt8} {s n : Nat} (hs : pre.length = s)
    (hn : mid.length = n) : field? (pre ++ mid ++ post) s n = some mid := by
  subst hs hn
  have hlength : pre.length + mid.length ≤ (pre ++ mid ++ post).length := by simp
  unfold field?
  rw [if_pos hlength, List.append_assoc, List.drop_left, List.take_left]

end FrameFilter

/-! ### Headers on air -/

namespace Address

def mode : Address → AddressingMode
  | absent => .absent
  | short _ => .short
  | long _ => .long

theorem modeBits_mem (a : Address) : a.modeBits ∈ [0, 2, 3] := by
  cases a <;> simp [modeBits]

theorem ofBits_modeBits (a : Address) : AddressingMode.ofBits a.modeBits = a.mode := by
  cases a with
  | absent => exact (by decide : AddressingMode.ofBits 0 = .absent)
  | short a => exact (by decide : AddressingMode.ofBits 2 = .short)
  | long a => exact (by decide : AddressingMode.ofBits 3 = .long)

theorem modeBits_ne_zero {a : Address} : (a.modeBits != 0) = true ↔ a ≠ absent := by
  cases a <;> simp [modeBits]

end Address

namespace FrameType

def onAir (t : FrameType) : FrameType := .ofBits t.bits

theorem bits_and_mask (t : FrameType) : t.bits &&& 0x07 = t.bits := by
  cases t with
  | reserved n => exact UInt8.and_assoc n 0x07 0x07
  | beacon | data | ack | command => rfl

theorem bits_cases (t : FrameType) : t.bits ∈ [0, 1, 2, 3, 4, 5, 6, 7] := by
  have hlt : t.bits.toNat ≤ 7 := by
    rw [← t.bits_and_mask, UInt8.toNat_and]
    exact Nat.and_le_right
  generalize t.bits = b at hlt ⊢
  simp only [List.mem_cons, List.not_mem_nil, or_false, ← UInt8.toNat_inj]
  change b.toNat = 0 ∨ b.toNat = 1 ∨ b.toNat = 2 ∨ b.toNat = 3 ∨ b.toNat = 4 ∨ b.toNat = 5 ∨
    b.toNat = 6 ∨ b.toNat = 7
  omega

/-- Bit 2 tells the reserved types from the others. -/
theorem bits_and_four (t : FrameType) : t.bits &&& 0x04 = 0 ↔ t.bits < 4 :=
  (by decide +kernel : ∀ b ∈ [0, 1, 2, 3, 4, 5, 6, 7], b &&& 0x04 = 0 ↔ b < (4 : UInt8))
    _ t.bits_cases

end FrameType

namespace Header

variable (h : Header)

/-- The frame is meant for this node, which does not coordinate its network. -/
def AddressedTo (node : LocalAddress) : Prop :=
  h.frameType.bits < 4 ∧
    match h.dest, h.source with
    | .short a, _ =>
        (h.destPan = node.panId ∨ h.destPan = 0xFFFF) ∧ (a = node.shortAddress ∨ a = 0xFFFF)
    | .long a, _ =>
        (h.destPan = node.panId ∨ h.destPan = 0xFFFF) ∧
          (a = node.ieeeAddress ∨ a = 0xFFFFFFFFFFFFFFFF)
    | .absent, .absent => True
    | .absent, _ =>
        match h.frameType.onAir with
        | .beacon => h.sourcePan.getD h.destPan = node.panId ∨ node.panId = 0xFFFF
        | .data | .command => False
        | _ => True

/-- The image of a frame has its length in front. -/
theorem image?_eq_some {payload image : List UInt8} (hi : h.image? payload = some image) :
    ∃ l, image = l :: (h.octets ++ payload) ∧ (h.octets ++ payload).length + 2 = l.toNat ∧
      l.toNat ≤ 127 := by
  unfold image? at hi
  simp only at hi
  split at hi
  · rename_i hle
    cases hi
    have hle : (h.octets ++ payload).length + 2 ≤ 127 := hle
    refine ⟨_, rfl, ?_⟩
    rw [UInt8.toNat_ofNat']
    omega
  · cases hi

theorem low_and_mask : h.control.low &&& 0x07 = h.frameType.bits := by
  have hflags (a b c : Bool) : (if a then 0x10 else 0 : UInt8) &&& 0x07 = 0 ∧
      (if b then 0x20 else 0 : UInt8) &&& 0x07 = 0 ∧
      (if c then 0x40 else 0 : UInt8) &&& 0x07 = 0 := by
    cases a <;> cases b <;> cases c <;> decide
  obtain ⟨ha, hb, hc⟩ := hflags h.framePending h.ackRequest h.panCompressed
  simp only [control, octet_and_or_distrib, ha, hb, hc, UInt8.or_zero,
    FrameType.bits_and_mask]

theorem frameType_control : h.control.frameType = h.frameType.onAir := by
  unfold FrameControl.frameType FrameType.onAir FrameType.ofBits
  rw [low_and_mask, FrameType.bits_and_mask]

/-- The flags do not get in the way of each other, nor of the frame type. -/
theorem flags_control : h.control.framePending = h.framePending ∧
    h.control.ackRequest = h.ackRequest ∧ h.control.panCompressed = h.panCompressed :=
  (by decide +kernel : ∀ b ∈ ([0, 1, 2, 3, 4, 5, 6, 7] : List UInt8), ∀ p a c : Bool,
    let low := b ||| (if p then 0x10 else 0) ||| (if a then 0x20 else 0) |||
      (if c then 0x40 else 0)
    (low &&& 0x10 != 0) = p ∧ (low &&& 0x20 != 0) = a ∧ (low &&& 0x40 != 0) = c)
    _ h.frameType.bits_cases _ _ _

theorem isReserved_control : h.control.isReserved = false ↔ h.frameType.bits < 4 := by
  have hmask : h.control.low &&& 0x04 = h.frameType.bits &&& 0x04 := by
    rw [← h.low_and_mask, UInt8.and_assoc]
    rfl
  unfold FrameControl.isReserved
  rw [hmask, ← h.frameType.bits_and_four]
  simp

theorem modes_control : h.control.destMode = .ofBits h.dest.modeBits ∧
    h.control.sourceMode = .ofBits h.source.modeBits ∧
    h.control.destPanPresent = (h.dest.modeBits != 0) ∧
    h.control.sourcePanPresent = (h.source.modeBits != 0) :=
  (by decide +kernel : ∀ d ∈ ([0, 2, 3] : List UInt8), ∀ s ∈ ([0, 2, 3] : List UInt8),
    AddressingMode.ofBits ((d <<< 2 ||| s <<< 6) >>> 2) = AddressingMode.ofBits d ∧
    AddressingMode.ofBits ((d <<< 2 ||| s <<< 6) >>> 6) = AddressingMode.ofBits s ∧
    (((d <<< 2 ||| s <<< 6) >>> 2) &&& 0x02 != (0 : UInt8)) = (d != 0) ∧
    (((d <<< 2 ||| s <<< 6) >>> 6) &&& 0x02 != (0 : UInt8)) = (s != 0))
    _ h.dest.modeBits_mem _ h.source.modeBits_mem

theorem destMode_control : h.control.destMode = h.dest.mode :=
  h.modes_control.1.trans h.dest.ofBits_modeBits

theorem sourceMode_control : h.control.sourceMode = h.source.mode :=
  h.modes_control.2.1.trans h.source.ofBits_modeBits

theorem destPanPresent_control : h.control.destPanPresent = true ↔ h.dest ≠ .absent := by
  rw [h.modes_control.2.2.1, Address.modeBits_ne_zero]

theorem sourcePanPresent_control : h.control.sourcePanPresent = true ↔ h.source ≠ .absent := by
  rw [h.modes_control.2.2.2, Address.modeBits_ne_zero]

section

variable {l : UInt8} {payload : List UInt8} (node : LocalAddress)

theorem field?_pan {pan : UInt16} {r : List UInt8}
    (hf : h.destFields ++ h.sourceFields = littleEndian 2 pan.toNat ++ r) :
    FrameFilter.field? (l :: (h.octets ++ payload)) 4 2 = some (littleEndian 2 pan.toNat) := by
  have himage : l :: (h.octets ++ payload) = [l, h.control.low, h.control.high, h.sequence] ++
      littleEndian 2 pan.toNat ++ (r ++ payload) := by
    simp only [octets, List.append_assoc, List.cons_append, List.nil_append]
    rw [← List.append_assoc h.destFields, hf, List.append_assoc]
  rw [himage]
  exact FrameFilter.field?_mid rfl (length_littleEndian 2 _)

theorem field?_address {n : Nat} {a : Nat}
    (hf : h.destFields = littleEndian 2 h.destPan.toNat ++ littleEndian n a) :
    FrameFilter.field? (l :: (h.octets ++ payload)) 6 n = some (littleEndian n a) := by
  have himage : l :: (h.octets ++ payload) =
      ([l, h.control.low, h.control.high, h.sequence] ++ littleEndian 2 h.destPan.toNat) ++
        littleEndian n a ++ (h.sourceFields ++ payload) := by
    simp only [octets, hf, List.append_assoc, List.cons_append, List.nil_append]
  rw [himage]
  exact FrameFilter.field?_mid (by simp) (length_littleEndian n a)

theorem panAccepted_of_dest (hd : h.dest ≠ .absent) :
    FrameFilter.panAccepted h.control node (l :: (h.octets ++ payload)) = true ↔
      h.destPan = node.panId ∨ h.destPan = 0xFFFF := by
  have hfields : h.destFields ++ h.sourceFields =
      littleEndian 2 h.destPan.toNat ++ (h.dest.octets ++ h.sourceFields) := by
    unfold destFields
    cases hdest : h.dest with
    | absent => exact absurd hdest hd
    | short a | long a => rw [List.append_assoc]
  unfold FrameFilter.panAccepted
  rw [h.field?_pan hfields]
  simp only [h.destPanPresent_control.2 hd, if_true]
  exact FrameFilter.reaches_two h.destPan node.pan.length_toList

theorem panAccepted_of_absent (hd : h.dest = .absent) (hs : h.source = .absent)
    (frame : List UInt8) : FrameFilter.panAccepted h.control node frame = true := by
  have hdest : ¬h.control.destPanPresent = true := fun hp => h.destPanPresent_control.1 hp hd
  have hsource : ¬h.control.sourcePanPresent = true :=
    fun hp => h.sourcePanPresent_control.1 hp hs
  unfold FrameFilter.panAccepted
  split
  · rfl
  · rw [if_neg hdest, if_neg fun hc => hsource hc.2]

theorem panAccepted_of_source (hd : h.dest = .absent) (hs : h.source ≠ .absent) :
    FrameFilter.panAccepted h.control node (l :: (h.octets ++ payload)) =
      FrameFilter.sourcePanAccepted h.frameType.onAir node
        (littleEndian 2 (h.sourcePan.getD h.destPan).toNat) := by
  have hwritten : h.writtenSourcePan = some (h.sourcePan.getD h.destPan) := by
    unfold writtenSourcePan
    rw [hd]
    cases hsource : h.source with
    | absent => exact absurd hsource hs
    | short a | long a => cases h.sourcePan <;> rfl
  have hfields : h.destFields ++ h.sourceFields =
      littleEndian 2 (h.sourcePan.getD h.destPan).toNat ++ h.source.octets := by
    unfold destFields sourceFields
    rw [hd, hwritten]
    rfl
  have hdest : ¬h.control.destPanPresent = true := fun hp => h.destPanPresent_control.1 hp hd
  have hmode : h.control.destMode = .absent := h.destMode_control.trans (congrArg Address.mode hd)
  unfold FrameFilter.panAccepted
  rw [h.field?_pan hfields]
  simp only [if_neg hdest, hmode, h.sourcePanPresent_control.2 hs, h.frameType_control, true_and,
    if_true]

end

/-- The filter of a node that does not coordinate its network lets pass what is addressed to it. -/
theorem passes_image_iff {payload image : List UInt8} (hi : h.image? payload = some image)
    {node : LocalAddress} (hnode : node.isCoordinator = false) :
    FrameFilter.Passes image node ↔ h.AddressedTo node := by
  obtain ⟨l, rfl, -, -⟩ := h.image?_eq_some hi
  have hcontrol : FrameControl.ofFrame (l :: (h.octets ++ payload)) = h.control := rfl
  have hmode := h.destMode_control
  rw [FrameFilter.passes_iff node (by simp [octets]), hcontrol, h.isReserved_control]
  unfold AddressedTo
  refine and_congr_right fun _ => ?_
  cases hd : h.dest with
  | short a =>
    rw [hd] at hmode
    have hfields : h.destFields = littleEndian 2 h.destPan.toNat ++ littleEndian 2 a.toNat := by
      unfold destFields
      rw [hd]
      rfl
    have haddress : FrameFilter.addressAccepted (l :: (h.octets ++ payload)) node.short.toList =
        true ↔ a = node.shortAddress ∨ a = 0xFFFF := by
      unfold FrameFilter.addressAccepted
      rw [node.short.length_toList, h.field?_address hfields]
      exact FrameFilter.reaches_two a node.short.length_toList
    rw [h.panAccepted_of_dest node (by simp [hd]), hmode, haddress]
    simp [Address.mode]
  | long a =>
    rw [hd] at hmode
    have hfields : h.destFields = littleEndian 2 h.destPan.toNat ++ littleEndian 8 a.toNat := by
      unfold destFields
      rw [hd]
      rfl
    have haddress : FrameFilter.addressAccepted (l :: (h.octets ++ payload)) node.ieee.toList =
        true ↔ a = node.ieeeAddress ∨ a = 0xFFFFFFFFFFFFFFFF := by
      unfold FrameFilter.addressAccepted
      rw [node.ieee.length_toList, h.field?_address hfields]
      exact FrameFilter.reaches_eight a node.ieee.length_toList
    rw [h.panAccepted_of_dest node (by simp [hd]), hmode, haddress]
    simp [Address.mode]
  | absent =>
    rw [hd] at hmode
    have hnone : h.control.destMode ≠ .short ∧ h.control.destMode ≠ .long := by
      rw [hmode]
      exact ⟨nofun, nofun⟩
    simp only [hnone.1, hnone.2, false_implies, and_true]
    by_cases hs : h.source = .absent
    · simp only [h.panAccepted_of_absent node hd hs, hs]
    · rw [h.panAccepted_of_source node hd hs]
      have haccepted := FrameFilter.sourcePanAccepted_iff h.frameType.onAir
        (h.sourcePan.getD h.destPan) hnode
      cases hsource : h.source with
      | absent => exact absurd hsource hs
      | short a | long a => exact haccepted

end Header

end Transceiver
