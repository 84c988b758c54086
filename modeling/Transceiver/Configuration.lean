import Transceiver.Event
import Transceiver.OperatingState
import Transceiver.Storage

/-!
# Configuration

What a node decides about its transceiver before it is switched on, and its stored form. An
operating state has a stored form too.
-/

namespace Transceiver

structure Configuration where
  variant : Variant
  /-- Loaded into the address registers on every reset. -/
  ieee : Vector UInt8 8
  /-- The vector behind the interrupt line of the stand-alone part. -/
  interruptLine : Option UInt8
  seed : UInt64
  deriving DecidableEq

inductive ConfigurationError where
  | encode (cause : StorageError)
  | decode (cause : StorageError)
  deriving DecidableEq

def ConfigurationError.message : ConfigurationError → String
  | encode e => "could not encode radio configuration: " ++ e.name
  | decode e => "could not decode radio configuration: " ++ e.name

def Variant.all : List Variant := [at86rf231, atmega128rfa1]

section

open StorageFormat

variable [StorageFormat]

namespace Configuration

def fields (c : Configuration) : List (List UInt8) :=
  [(alternative Variant.all).write c.variant, (octets 8).write c.ieee,
    (optional octet).write c.interruptLine, word64.write c.seed]

def record (c : Configuration) : List UInt8 := c.fields.flatten

def encode (c : Configuration) (size : Nat) : Except ConfigurationError (List UInt8) :=
  (store size c.fields).mapError .encode

def reader : Reader Configuration :=
  (alternative Variant.all).read.andThen fun variant =>
  (octets 8).read.andThen fun ieee =>
  (optional octet).read.andThen fun interruptLine =>
  word64.read.andThen fun seed =>
  Reader.yield { variant, ieee, interruptLine, seed }

def decode (l : List UInt8) : Except ConfigurationError Configuration :=
  (reader.decode l).mapError .decode

end Configuration

namespace OperatingState

def record (s : OperatingState) : List UInt8 := (alternative all).write s

def decode (l : List UInt8) : Except StorageError OperatingState :=
  (alternative all).read.decode l

end OperatingState

end

end Transceiver
