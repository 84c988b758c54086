import Transceiver.MappedRadio
import Transceiver.SerialRadio

/-!
# Radios

A radio is a transceiver attached in one of the two ways. Through `RegisterBus` it is used without a
look at which one it is, and `onChip` reaches past the bus to the chip.
-/

namespace Transceiver

inductive Radio (G : Type) where
  | serial (s : SerialRadio G)
  | mapped (m : MappedRadio G)

namespace Radio

variable {G α : Type}

def chip : Radio G → Chip G
  | serial s => s.chip
  | mapped m => m.chip

def withChip (c : Chip G) : Radio G → Radio G
  | serial s => serial { s with chip := c }
  | mapped m => mapped { m with chip := c }

def onChip (r : Radio G) (f : Chip G → α × Chip G) : α × Radio G :=
  ((f r.chip).1, r.withChip (f r.chip).2)

instance : RegisterBus (Radio G) where
  readRegister
    | serial s, r => (RegisterBus.readRegister s r).map id serial
    | mapped m, r => (RegisterBus.readRegister m r).map id mapped
  writeRegister
    | serial s, r, v => serial (RegisterBus.writeRegister s r v)
    | mapped m, r, v => mapped (RegisterBus.writeRegister m r v)
  readFrame
    | serial s, i => (RegisterBus.readFrame s i).map id serial
    | mapped m, i => (RegisterBus.readFrame m i).map id mapped
  writeFrame
    | serial s, i, v => serial (RegisterBus.writeFrame s i v)
    | mapped m, i, v => mapped (RegisterBus.writeFrame m i v)
  setSleep
    | serial s, level => serial (RegisterBus.setSleep s level)
    | mapped m, level => mapped (RegisterBus.setSleep m level)
  setReset
    | serial s, asserted => serial (RegisterBus.setReset s asserted)
    | mapped m, asserted => mapped (RegisterBus.setReset m asserted)
  upload
    | serial s, image => serial (RegisterBus.upload s image)
    | mapped m, image => mapped (RegisterBus.upload m image)

end Radio

end Transceiver
