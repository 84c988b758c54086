/-!
# Sources of random words

A generator hands out 64-bit words one at a time. `Mixer` is the generator of the radios: a counter
with a fixed odd increment whose values are mixed by one wide multiplication. `Recording` plays back
a given list of words over and over.
-/

namespace Transceiver

class RandomWords (G : Type) where
  next : G → UInt64 × G

structure Mixer where
  state : UInt64
  deriving DecidableEq

def foldedProduct (a b : UInt64) : UInt64 :=
  let product := a.toNat * b.toNat
  UInt64.ofNat (product / UInt64.size) ^^^ UInt64.ofNat product

def Mixer.next (m : Mixer) : UInt64 × Mixer :=
  let state := m.state + 0xA0761D6478BD642F
  (foldedProduct state (state ^^^ 0xE7037ED1A0B428DB), ⟨state⟩)

instance : RandomWords Mixer := ⟨Mixer.next⟩

structure Recording where
  words : List UInt64
  deriving DecidableEq

/-- The next word, which then waits behind all others; an empty recording plays zeros. -/
def Recording.next (r : Recording) : UInt64 × Recording :=
  match r.words with
  | [] => (0, r)
  | w :: ws => (w, ⟨ws ++ [w]⟩)

instance : RandomWords Recording := ⟨Recording.next⟩

/-- A word as a number from 0 up to but not including 1, from its upper 53 bits. -/
def unitInterval (w : UInt64) : Float := (w >>> 11).toFloat / (0x20000000000000 : UInt64).toFloat

end Transceiver
