/-!
# Operating states

The states the transceiver can report, each under the code that the status register shows.
`ofCode?` recognises exactly those codes.
-/

namespace Transceiver

inductive OperatingState where
  | busyRx
  | busyTx
  | rxOn
  | trxOff
  | pllOn
  | sleep
  | busyRxAack
  | busyTxAret
  | rxAackOn
  | txAretOn
  | transition
  deriving DecidableEq

namespace OperatingState

/-- All states, in the order in which stored records number them. -/
def all : List OperatingState :=
  [busyRx, busyTx, rxOn, trxOff, pllOn, sleep, busyRxAack, busyTxAret, rxAackOn, txAretOn,
    transition]

def code : OperatingState → UInt8
  | busyRx => 0x01
  | busyTx => 0x02
  | rxOn => 0x06
  | trxOff => 0x08
  | pllOn => 0x09
  | sleep => 0x0F
  | busyRxAack => 0x11
  | busyTxAret => 0x12
  | rxAackOn => 0x16
  | txAretOn => 0x19
  | transition => 0x1F

def ofCode? (b : UInt8) : Option OperatingState := all.find? (·.code == b)

theorem ofCode?_code (s : OperatingState) : ofCode? s.code = some s := by
  cases s <;> rfl

theorem code_of_ofCode? {b : UInt8} {s : OperatingState} (h : ofCode? b = some s) : s.code = b := by
  have := List.find?_some h
  simpa using this

end OperatingState

end Transceiver
