/-!
# The register map

The transceiver has 64 byte-wide registers. `Register` is an address on this map; the registers
that the transceiver itself works with have a name here, and `name?` and `resetValue` list what the
data sheet says of all of them.
-/

namespace Transceiver

abbrev Register := Fin 64

namespace Register

/-- Address bits above the sixth are not decoded. -/
def ofNat (n : Nat) : Register := Fin.ofNat 64 n

def ofByte (b : UInt8) : Register := ofNat b.toNat

def plus (r : Register) (n : Nat) : Register := ofNat (r.val + n)

def trxStatus : Register := 0x01
def trxState : Register := 0x02
def trxCtrl1 : Register := 0x04
def phyTxPwr : Register := 0x05
def phyRssi : Register := 0x06
def phyCcCca : Register := 0x08
def irqMask : Register := 0x0E
def irqStatus : Register := 0x0F
def shortAddr : Register := 0x20
def panId : Register := 0x22
def ieeeAddr : Register := 0x24
def csmaSeed1 : Register := 0x2E
def tstRxLength : Register := 0x3B

def name? (r : Register) : Option String :=
  match r.val with
  | 0x01 => some "TRX_STATUS"
  | 0x02 => some "TRX_STATE"
  | 0x03 => some "TRX_CTRL_0"
  | 0x04 => some "TRX_CTRL_1"
  | 0x05 => some "PHY_TX_PWR"
  | 0x06 => some "PHY_RSSI"
  | 0x07 => some "PHY_ED_LEVEL"
  | 0x08 => some "PHY_CC_CCA"
  | 0x09 => some "CCA_THRES"
  | 0x0A => some "RX_CTRL"
  | 0x0B => some "SFD_VALUE"
  | 0x0C => some "TRX_CTRL_2"
  | 0x0D => some "ANT_DIV"
  | 0x0E => some "IRQ_MASK"
  | 0x0F => some "IRQ_STATUS"
  | 0x10 => some "VREG_CTRL"
  | 0x11 => some "BATMON"
  | 0x12 => some "XOSC_CTRL"
  | 0x15 => some "RX_SYN"
  | 0x17 => some "XAH_CTRL_1"
  | 0x18 => some "FTN_CTRL"
  | 0x19 => some "XAH_CTRL_2"
  | 0x1A => some "PLL_CF"
  | 0x1B => some "PLL_DCU"
  | 0x1C => some "PART_NUM"
  | 0x1D => some "VERSION_NUM"
  | 0x1E => some "MAN_ID_0"
  | 0x1F => some "MAN_ID_1"
  | 0x20 => some "SHORT_ADDR_0"
  | 0x21 => some "SHORT_ADDR_1"
  | 0x22 => some "PAN_ID_0"
  | 0x23 => some "PAN_ID_1"
  | 0x24 => some "IEEE_ADDR_0"
  | 0x25 => some "IEEE_ADDR_1"
  | 0x26 => some "IEEE_ADDR_2"
  | 0x27 => some "IEEE_ADDR_3"
  | 0x28 => some "IEEE_ADDR_4"
  | 0x29 => some "IEEE_ADDR_5"
  | 0x2A => some "IEEE_ADDR_6"
  | 0x2B => some "IEEE_ADDR_7"
  | 0x2C => some "XAH_CTRL_0"
  | 0x2D => some "CSMA_SEED_0"
  | 0x2E => some "CSMA_SEED_1"
  | 0x2F => some "CSMA_BE"
  | 0x3B => some "TST_RX_LENGTH"
  | _ => none

/-- Value after a reset. The address registers are listed as unassigned: the configured address is
loaded over them. -/
def resetValue (r : Register) : UInt8 :=
  match r.val with
  | 0x03 => 0x19
  | 0x04 => 0x20
  | 0x05 => 0xC0
  | 0x07 => 0xFF
  | 0x08 => 0x2B
  | 0x09 => 0xC7
  | 0x0A => 0xB7
  | 0x0B => 0xA7
  | 0x0D => 0x03
  | 0x11 => 0x02
  | 0x12 => 0xF0
  | 0x18 => 0x58
  | 0x19 => 0x55
  | 0x1A => 0x57
  | 0x1B => 0x20
  | 0x1C => 0x03
  | 0x1D => 0x02
  | 0x1E => 0x1F
  | 0x20 | 0x21 | 0x22 | 0x23 => 0xFF
  | 0x2C => 0x38
  | 0x2D => 0xEA
  | 0x2E => 0x42
  | 0x2F => 0x53
  | 0x39 => 0x40
  | _ => 0x00

end Register

end Transceiver
