import Transceiver.Reception
import Transceiver.Transmission

/-!
# Networks

The chips of a network share one medium and are told apart by their places. `relay` carries what the
chip at one place sends to the listening places, octet by octet, and flips bits on the way. A place
may listen more than once, and so may the one that sends: each time is one more octet period for the
same chip. The other places are left alone.
-/

namespace Transceiver

abbrev Network (G : Type) (n : Nat) := Vector (Chip G) n

structure Hop (n : Nat) where
  octet : UInt8
  signals : Vector (List Signal) n
  deriving DecidableEq

/-- Applies the bit masks listed for the octet with this index. -/
def distort (flips : List (Nat × UInt8)) (index : Nat) (b : UInt8) : UInt8 :=
  flips.foldl (fun b flip => if flip.1 = index then b ^^^ flip.2 else b) b

namespace Network

variable {G : Type} {n : Nat} (net : Network G n)

def collect : Vector (List Signal) n × Network G n :=
  (net.map fun c => c.collect.1, net.map fun c => c.collect.2)

def transmitAt (i : Fin n) : UInt8 × Network G n :=
  let (octet, c) := ((net.get i).pass octetPeriod).transmit
  (octet, net.set i c i.isLt)

variable [RandomWords G]

def hearAt (i : Fin n) (carrier : Bool) (b : UInt8) : Network G n :=
  net.set i (((net.get i).pass octetPeriod).receive carrier b).2 i.isLt

def hear (listeners : List (Fin n)) (carrier : Bool) (b : UInt8) : Network G n :=
  listeners.foldl (fun net i => net.hearAt i carrier b) net

/-- Carries the octets from `sender`, the first of which has the given index, to the listeners until
the transmission ends or `limit` octets have passed. -/
def relayFrom (flips : List (Nat × UInt8)) (index : Nat) (net : Network G n) (sender : Fin n)
    (listeners : List (Fin n)) : Nat → List (Hop n) × Network G n
  | 0 => ([], net)
  | limit + 1 =>
    if (net.get sender).isTransmitting then
      let (sent, net) := net.transmitAt sender
      let octet := distort flips index sent
      let (signals, net) := (net.hear listeners true octet).collect
      let (hops, net) := relayFrom flips (index + 1) net sender listeners limit
      (⟨octet, signals⟩ :: hops, net)
    else ([], net)

def relay (sender : Fin n) (listeners : List (Fin n)) (flips : List (Nat × UInt8)) (limit : Nat) :
    List (Hop n) × Network G n :=
  relayFrom flips 0 net sender listeners limit

/-! ### Places that do not listen -/

theorem get_hearAt_of_ne {i j : Fin n} (h : i ≠ j) (carrier : Bool) (b : UInt8) :
    (net.hearAt i carrier b).get j = net.get j :=
  Vector.getElem_set_ne i.isLt j.isLt (Fin.val_ne_of_ne h)

theorem get_hear_of_notMem {listeners : List (Fin n)} {j : Fin n} (h : j ∉ listeners)
    (carrier : Bool) (b : UInt8) : (net.hear listeners carrier b).get j = net.get j := by
  induction listeners generalizing net with
  | nil => rfl
  | cons i r ih =>
    have hi : i ≠ j := fun e => h (e ▸ List.mem_cons_self)
    have hr : j ∉ r := fun e => h (List.mem_cons_of_mem i e)
    exact (ih (net.hearAt i carrier b) hr).trans (get_hearAt_of_ne net hi carrier b)

end Network

end Transceiver
