import Transceiver.FrameControl

/-!
# The frame filter

Decides octet by octet whether a frame is for this node. The filter is asked right after the octet
at an offset was stored, so that the fields that end there are complete; fields that are not there
count as matching. Offset 0 is the length octet.
-/

namespace Transceiver

structure LocalAddress where
  pan : Vector UInt8 2
  short : Vector UInt8 2
  ieee : Vector UInt8 8
  isCoordinator : Bool
  deriving DecidableEq

structure Verdict where
  accepted : Bool
  /-- The sequence number of the frame, at the offset where it stands. -/
  sequence : Option UInt8
  deriving DecidableEq

namespace Verdict

def accept : Verdict := ⟨true, none⟩

def reject : Verdict := ⟨false, none⟩

def ofBool (b : Bool) : Verdict := if b then accept else reject

end Verdict

namespace FrameFilter

/-- A frame accepted up to this offset is for this node. -/
def matchOffset : Nat := 13

def field? (frame : List UInt8) (start n : Nat) : Option (List UInt8) :=
  if start + n ≤ frame.length then some ((frame.drop start).take n) else none

/-- An address is the node's own or the one of all ones, which means everyone. -/
def reaches (address own : List UInt8) : Bool :=
  address == own || address == List.replicate own.length 0xFF

/-- Where no destination address is given, the PAN identifier of the source decides. -/
def sourcePanAccepted (frameType : FrameType) (node : LocalAddress) (pan : List UInt8) : Bool :=
  match frameType with
  | .beacon => pan == node.pan.toList || node.pan.toList == [0xFF, 0xFF]
  | .data | .command => node.isCoordinator && pan == node.pan.toList
  | _ => true

def panAccepted (fc : FrameControl) (node : LocalAddress) (frame : List UInt8) : Bool :=
  match field? frame 4 2 with
  | none => true
  | some pan =>
    if fc.destPanPresent then reaches pan node.pan.toList
    else if fc.destMode = .absent ∧ fc.sourcePanPresent then
      sourcePanAccepted fc.frameType node pan
    else true

def addressAccepted (frame : List UInt8) (own : List UInt8) : Bool :=
  match field? frame 6 own.length with
  | none => true
  | some address => reaches address own

def sequence? (fc : FrameControl) (frame : List UInt8) : Option UInt8 :=
  if fc.frameType = .beacon then none else frame[3]?

/-- The verdict on a frame at an offset. Reserved frame types are refused at once and accepted at
every later offset. -/
def check (frame : List UInt8) (offset : Nat) (node : LocalAddress) : Verdict :=
  let fc := FrameControl.ofFrame frame
  if fc.isReserved then .ofBool (offset != 1)
  else
    match offset with
    | 3 => ⟨true, sequence? fc frame⟩
    | 5 => .ofBool (panAccepted fc node frame)
    | 7 => .ofBool (fc.destMode != .short || addressAccepted frame node.short.toList)
    | 13 => .ofBool (fc.destMode != .long || addressAccepted frame node.ieee.toList)
    | _ => .accept

end FrameFilter

end Transceiver
