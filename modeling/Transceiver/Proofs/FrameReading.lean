import Transceiver.Proofs.Addressing

/-!
# Frames written and read

The image of a frame can be put together field by field in a vector of 128 octets, with the length
filled in at the end (`assemble?`). Whether the vector overflows on the way or the length turns out
to be too large, there is no image exactly for the frames that do not fit into 127 octets together
with their check octets.

`MacFrame.ofImage?` reads an image from its first octet to its last. The two octets of the frame
control field are all that it goes by: they say which fields there are and how long each of them is.
What it finds are the header and the payload that were written (`image_reads_back`).
-/

namespace Transceiver

/-! ### Writing field by field -/

def extend? (image octets : List UInt8) : Option (List UInt8) :=
  if image.length + octets.length ≤ maxFrameLength + 1 then some (image ++ octets) else none

/-- There is room for two parts one after the other if there is room for both of them. -/
theorem extend?_bind (image a b : List UInt8) :
    ((extend? image a).bind fun image => extend? image b) = extend? image (a ++ b) := by
  unfold extend?
  by_cases h : image.length + (a ++ b).length ≤ maxFrameLength + 1
  · rw [List.length_append] at h
    have ha : image.length + a.length ≤ maxFrameLength + 1 := by omega
    have hb : (image ++ a).length + b.length ≤ maxFrameLength + 1 := by
      rw [List.length_append]
      omega
    have hab : image.length + (a ++ b).length ≤ maxFrameLength + 1 := by
      rwa [List.length_append]
    rw [if_pos ha, Option.bind_some, if_pos hb, if_pos hab, List.append_assoc]
  · rw [if_neg h]
    split
    · refine if_neg fun hb => h ?_
      simp only [List.length_append] at hb ⊢
      omega
    · rfl

def fillLength? (image : List UInt8) : Option (List UInt8) :=
  let length := image.length - 1 + 2
  if maxFrameLength < length then none else some (image.set 0 (UInt8.ofNat length))

theorem extend?_fillLength? (body : List UInt8) : (extend? [0] body).bind fillLength? =
    if body.length + 2 ≤ maxFrameLength then some (UInt8.ofNat (body.length + 2) :: body)
    else none := by
  have hlength : (0 :: body : List UInt8).length - 1 = body.length := Nat.add_sub_cancel ..
  by_cases hroom : 1 + body.length ≤ maxFrameLength + 1
  · have hfilled : extend? [0] body = some (0 :: body) := if_pos hroom
    rw [hfilled, Option.bind_some, fillLength?]
    simp only [hlength, List.set_cons_zero]
    by_cases hle : body.length + 2 ≤ maxFrameLength
    · rw [if_pos hle, if_neg (Nat.not_lt_of_le hle)]
    · rw [if_neg hle, if_pos (Nat.lt_of_not_le hle)]
  · have hfull : extend? [0] body = none := if_neg hroom
    rw [hfull, Option.bind_none, if_neg (by omega)]

namespace Header

variable (h : Header) (payload : List UInt8)

def addDest? (image : List UInt8) : Option (List UInt8) :=
  match h.dest with
  | .absent => some image
  | a => (extend? image (littleEndian 2 h.destPan.toNat)).bind fun image => extend? image a.octets

def addSource? (image : List UInt8) : Option (List UInt8) :=
  match h.source with
  | .absent => some image
  | a =>
    match h.writtenSourcePan with
    | some pan =>
        (extend? image (littleEndian 2 pan.toNat)).bind fun image => extend? image a.octets
    | none => extend? image a.octets

/-- The image of a frame, field by field, or `none` if one of them has no room or the frame is too
long in the end. -/
def assemble? : Option (List UInt8) :=
  extend? [0] [h.control.low, h.control.high, h.sequence]
    |>.bind h.addDest?
    |>.bind h.addSource?
    |>.bind (extend? · payload)
    |>.bind fillLength?

theorem extend?_addDest? (image a : List UInt8) :
    (extend? image a).bind h.addDest? = extend? image (a ++ h.destFields) := by
  unfold addDest? destFields
  cases h.dest with
  | absent => rw [Option.bind_fun_some, List.append_nil]
  | short d | long d => simp only [extend?_bind]

theorem extend?_addSource? (image a : List UInt8) :
    (extend? image a).bind h.addSource? = extend? image (a ++ h.sourceFields) := by
  unfold addSource? sourceFields
  cases hsource : h.source with
  | absent =>
    have hwritten : h.writtenSourcePan = none := by rw [writtenSourcePan, hsource]
    rw [hwritten, Address.octets, Option.bind_fun_some, List.append_nil]
  | short d | long d => cases h.writtenSourcePan <;> simp only [extend?_bind]

/-- The same image comes of it: the vector overflows only with frames that are too long anyway. -/
theorem assemble?_eq : h.assemble? payload = h.image? payload := by
  simp only [assemble?, extend?_addDest?, extend?_addSource?, extend?_bind]
  exact extend?_fillLength? (h.octets ++ payload)

/-- Octets of a frame: frame control and sequence number, the address fields, the payload and the
check octets. A source PAN identifier is written unless it is that of a written destination. -/
def frameLength : Nat :=
  3 + (match h.dest with | .absent => 0 | .short _ => 4 | .long _ => 10) +
    (match h.source with | .absent => 0 | .short _ => 2 | .long _ => 8) +
    (if h.source ≠ .absent ∧ (h.sourcePan ≠ none ∨ h.dest = .absent) then 2 else 0) +
    payload.length + 2

theorem length_destFields : h.destFields.length =
    match h.dest with | .absent => 0 | .short _ => 4 | .long _ => 10 := by
  unfold destFields
  cases h.dest with
  | absent => rfl
  | short a | long a => simp [Address.octets]

theorem length_sourceFields : h.sourceFields.length =
    (match h.source with | .absent => 0 | .short _ => 2 | .long _ => 8) +
      if h.source ≠ .absent ∧ (h.sourcePan ≠ none ∨ h.dest = .absent) then 2 else 0 := by
  unfold sourceFields writtenSourcePan
  cases h.source with
  | absent => rfl
  | short a | long a =>
    cases h.sourcePan with
    | some pan => simp [Address.octets]
    | none => cases h.dest <;> simp [Address.octets]

theorem length_frame : (h.octets ++ payload).length + 2 = h.frameLength payload := by
  have hdest := h.length_destFields
  have hsource := h.length_sourceFields
  simp only [octets, frameLength, List.length_append, List.length_cons, List.length_nil]
  omega

end Header

/-! ### Reading -/

structure MacFrame where
  frameType : FrameType
  framePending : Bool
  ackRequest : Bool
  sequence : UInt8
  destPan : Option UInt16
  dest : Address
  /-- The PAN identifier before the source address, or else that of the destination. -/
  sourcePan : Option UInt16
  source : Address
  payload : List UInt8
  deriving DecidableEq

def readNumber? (n : Nat) (l : List UInt8) : Option (Nat × List UInt8) :=
  if n ≤ l.length then some (ofLittleEndian (l.take n), l.drop n) else none

def readPan? (present : Bool) (l : List UInt8) : Option (Option UInt16 × List UInt8) :=
  if present then (readNumber? 2 l).map fun (v, r) => (some (.ofNat v), r) else some (none, l)

def readAddress? (mode : AddressingMode) (l : List UInt8) : Option (Address × List UInt8) :=
  match mode with
  | .absent => some (.absent, l)
  | .reserved => none
  | .short => (readNumber? 2 l).map fun (v, r) => (.short (.ofNat v), r)
  | .long => (readNumber? 8 l).map fun (v, r) => (.long (.ofNat v), r)

def MacFrame.ofImage? : List UInt8 → Option MacFrame
  | _ :: low :: high :: sequence :: fields => do
    let fc : FrameControl := ⟨low, high⟩
    let (destPan, r) ← readPan? fc.destPanPresent fields
    let (dest, r) ← readAddress? fc.destMode r
    let (ownPan, r) ← readPan? (fc.sourcePanPresent && !fc.panCompressed) r
    let (source, payload) ← readAddress? fc.sourceMode r
    return {
      frameType := fc.frameType
      framePending := fc.framePending
      ackRequest := fc.ackRequest
      sequence
      destPan
      dest
      sourcePan := if fc.sourcePanPresent then ownPan.or destPan else none
      source
      payload }
  | _ => none

/-! ### Single fields -/

theorem readNumber?_littleEndian {n v : Nat} (h : v < Nat.pow 256 n) (r : List UInt8) :
    readNumber? n (littleEndian n v ++ r) = some (v, r) := by
  have hle : n ≤ (littleEndian n v ++ r).length := by simp
  have htake : (littleEndian n v ++ r).take n = littleEndian n v :=
    List.take_left' (length_littleEndian n v)
  have hdrop : (littleEndian n v ++ r).drop n = r := List.drop_left' (length_littleEndian n v)
  rw [readNumber?, if_pos hle, htake, hdrop, ofLittleEndian_littleEndian h]

theorem readPan?_present (pan : UInt16) (r : List UInt8) :
    readPan? true (littleEndian 2 pan.toNat ++ r) = some (some pan, r) := by
  have hread := readNumber?_littleEndian (n := 2) pan.toNat_lt r
  simp only [readPan?, hread, Option.map_some, UInt16.ofNat_toNat, if_true]

theorem readAddress?_octets (a : Address) (r : List UInt8) :
    readAddress? a.mode (a.octets ++ r) = some (a, r) := by
  cases a with
  | absent => rfl
  | short a =>
    have hread := readNumber?_littleEndian (n := 2) a.toNat_lt r
    simp only [Address.mode, Address.octets, readAddress?, hread, Option.map_some,
      UInt16.ofNat_toNat]
  | long a =>
    have hread := readNumber?_littleEndian (n := 8) a.toNat_lt r
    simp only [Address.mode, Address.octets, readAddress?, hread, Option.map_some,
      UInt64.ofNat_toNat]

namespace Header

variable (h : Header) (payload : List UInt8)

/-- What the receiver of a frame can know of its header: the fields that were sent. -/
def asRead : MacFrame where
  frameType := h.frameType.onAir
  framePending := h.framePending
  ackRequest := h.ackRequest
  sequence := h.sequence
  destPan := if h.dest = .absent then none else some h.destPan
  dest := h.dest
  sourcePan := if h.source = .absent then none else some (h.sourcePan.getD h.destPan)
  source := h.source
  payload := payload

theorem readPan?_destFields (r : List UInt8) :
    readPan? h.control.destPanPresent (h.destFields ++ r) =
      some ((h.asRead payload).destPan, h.dest.octets ++ r) := by
  rw [h.modes_control.2.2.1]
  unfold destFields asRead
  cases h.dest with
  | absent => rfl
  | short a | long a =>
    rw [List.append_assoc]
    exact readPan?_present ..

/-- A source PAN identifier is written where the reader looks for one, and nowhere else. -/
theorem readPan?_sourceFields (r : List UInt8) :
    readPan? (h.control.sourcePanPresent && !h.control.panCompressed) (h.sourceFields ++ r) =
      some (h.writtenSourcePan, h.source.octets ++ r) := by
  have hwritten : (h.control.sourcePanPresent && !h.control.panCompressed) =
      h.writtenSourcePan.isSome := by
    rw [h.modes_control.2.2.2, h.flags_control.2.2]
    unfold writtenSourcePan panCompressed
    cases h.source with
    | absent => rfl
    | short a | long a => cases h.sourcePan <;> cases h.dest <;> rfl
  rw [hwritten]
  unfold sourceFields
  cases h.writtenSourcePan with
  | none => rfl
  | some pan =>
    simp only
    rw [List.append_assoc]
    exact readPan?_present pan _

/-- The reader's source PAN identifier is the one that the header means. -/
theorem sourcePan_asRead :
    (if h.control.sourcePanPresent then h.writtenSourcePan.or (h.asRead payload).destPan
      else none) = (h.asRead payload).sourcePan := by
  rw [h.modes_control.2.2.2]
  unfold writtenSourcePan asRead
  cases h.source with
  | absent => rfl
  | short a | long a => cases h.sourcePan <;> cases h.dest <;> rfl

theorem ofImage?_octets (l : UInt8) :
    MacFrame.ofImage? (l :: (h.octets ++ payload)) = some (h.asRead payload) := by
  have hfields : l :: (h.octets ++ payload) = l :: h.control.low :: h.control.high :: h.sequence ::
      (h.destFields ++ (h.sourceFields ++ payload)) := by
    simp only [octets, List.append_assoc, List.cons_append, List.nil_append]
  have hcontrol : (⟨h.control.low, h.control.high⟩ : FrameControl) = h.control := rfl
  obtain ⟨hpending, hack, -⟩ := h.flags_control
  rw [hfields, MacFrame.ofImage?]
  simp only [hcontrol, h.readPan?_destFields payload, h.destMode_control, readAddress?_octets,
    h.readPan?_sourceFields, h.sourceMode_control, Option.bind_eq_bind, Option.bind_some,
    h.frameType_control, hpending, hack, h.sourcePan_asRead payload]
  rfl

/-- The frames that do not exceed 127 octets have an image, and it is the same whether it is laid out
as a whole or put together field by field. Its first octet is the length of the frame, which counts
the image less that octet and the two check octets. Whoever reads the image finds the header and the
payload of the frame: every field that was sent, and for the PAN identifier of the source that of
the destination if it was left out. -/
theorem image_reads_back :
    h.assemble? payload = h.image? payload ∧
    if h.frameLength payload ≤ 127 then
      ∃ image, h.image? payload = some image ∧ (image.headD 0).toNat = image.length + 1 ∧
        MacFrame.ofImage? image = some (h.asRead payload)
    else h.image? payload = none := by
  refine ⟨h.assemble?_eq payload, ?_⟩
  rw [← h.length_frame payload]
  by_cases hle : (h.octets ++ payload).length + 2 ≤ 127
  · rw [if_pos hle]
    refine ⟨UInt8.ofNat ((h.octets ++ payload).length + 2) :: (h.octets ++ payload), if_pos hle,
      ?_, h.ofImage?_octets payload _⟩
    have hlt : (h.octets ++ payload).length + 2 < 256 := by omega
    exact UInt8.toNat_ofNat_of_lt' hlt
  · rw [if_neg hle]
    exact if_neg hle

/-- Inside of one PAN its identifier is written once. -/
example : MacFrame.ofImage?
    [13, 0x61, 0x88, 0x2A, 0xCD, 0xAB, 0x01, 0x00, 0x02, 0x00, 0xDE, 0xAD] =
      some (((data 0x2A 0xABCD (.short 1) (.short 2)).withAckRequest true).asRead [0xDE, 0xAD]) := by
  decide

end Header

end Transceiver
