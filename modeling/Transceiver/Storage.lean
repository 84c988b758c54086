import Transceiver.Octets

/-!
# Stored records

Settings are stored field by field, without names. `StorageFormat` is what a format has to offer for
that, and there is one: in the compact format a choice is the index of the alternative, an optional
value comes after a tag, and words have their least significant octet first. An index is written
seven bits at a time, low bits first, each octet but the last with its top bit set. A reader takes
what it needs from the front and leaves the rest.
-/

namespace Transceiver

inductive StorageError where
  | bufferFull
  | unexpectedEnd
  /-- An index that does not end within ten octets. -/
  | unendingIndex
  /-- An index that does not fit into 32 bits. -/
  | oversizedIndex
  /-- An index without an alternative. -/
  | unknownAlternative
  /-- An optional value with a tag other than 0 and 1. -/
  | badTag
  deriving DecidableEq

namespace StorageError

def name : StorageError → String
  | bufferFull => "SerializeBufferFull"
  | unexpectedEnd => "DeserializeUnexpectedEnd"
  | unendingIndex => "DeserializeBadVarint"
  | oversizedIndex => "DeserializeBadEnum"
  | unknownAlternative => "SerdeDeCustom"
  | badTag => "DeserializeBadOption"

def message : StorageError → String
  | bufferFull => "The serialize buffer is full"
  | unexpectedEnd => "Hit the end of buffer, expected more data"
  | unendingIndex =>
      "Found a varint that didn't terminate. Is the usize too big for this platform?"
  | oversizedIndex => "Found an enum discriminant that was > u32::max_value()"
  | unknownAlternative => "Serde Deserialization Error"
  | badTag => "Found an Option discriminant that wasn't 0 or 1"

end StorageError

abbrev Reader (α : Type) := List UInt8 → Except StorageError (α × List UInt8)

namespace Reader

variable {α β : Type}

def andThen (p : Reader α) (q : α → Reader β) : Reader β := fun l =>
  match p l with
  | .ok (a, r) => q a r
  | .error e => .error e

def yield (a : α) : Reader α := fun l => .ok (a, l)

def fail (e : StorageError) : Reader α := fun _ => .error e

def octet : Reader UInt8
  | [] => .error .unexpectedEnd
  | b :: r => .ok (b, r)

def groups : Nat → Reader Nat
  | 0, _ => .error .unendingIndex
  | _ + 1, [] => .error .unexpectedEnd
  | n + 1, b :: r =>
    if b < 0x80 then .ok (b.toNat, r)
    else (groups n).andThen (fun v => yield (b.toNat % 128 + 128 * v)) r

/-- The index of an alternative: at most ten octets, of which 64 bits count and 32 may be used. -/
def index : Reader Nat :=
  (groups 10).andThen fun v =>
    let v := v % UInt64.size
    if v < UInt32.size then yield v else fail .oversizedIndex

def alternative (all : List α) : Reader α :=
  index.andThen fun i =>
    match all[i]? with
    | some a => yield a
    | none => fail .unknownAlternative

def optional (p : Reader α) : Reader (Option α) :=
  octet.andThen fun tag =>
    if tag = 0 then yield none
    else if tag = 1 then p.andThen fun a => yield (some a)
    else fail .badTag

def octets (n : Nat) : Reader (Vector UInt8 n) := fun l =>
  if h : n ≤ l.length then .ok (⟨(l.take n).toArray, by simp [h]⟩, l.drop n)
  else .error .unexpectedEnd

def word64 : Reader UInt64 :=
  (octets 8).andThen fun v => yield (.ofNat (ofLittleEndian v.toList))

def decode (p : Reader α) (l : List UInt8) : Except StorageError α := (p l).map Prod.fst

end Reader

/-- Writes fields behind what is there already, up to the first for which there is no room. -/
def storeFields (size : Nat) (written : List UInt8) :
    List (List UInt8) → Except StorageError (List UInt8)
  | [] => .ok written
  | field :: fields =>
    if written.length + field.length ≤ size then storeFields size (written ++ field) fields
    else .error .bufferFull

structure Codec (α : Type) where
  write : α → List UInt8
  read : Reader α

/-- How each kind of field is stored, and how written fields go into a buffer of some size. -/
class StorageFormat where
  octet : Codec UInt8
  octets (n : Nat) : Codec (Vector UInt8 n)
  word64 : Codec UInt64
  alternative {α : Type} [DecidableEq α] (all : List α) : Codec α
  optional {α : Type} (p : Codec α) : Codec (Option α)
  store (size : Nat) (fields : List (List UInt8)) : Except StorageError (List UInt8)

/-- The compact format. There are never so many alternatives that one octet would not do. -/
instance StorageFormat.compact : StorageFormat where
  octet := ⟨fun b => [b], Reader.octet⟩
  octets n := ⟨Vector.toList, Reader.octets n⟩
  word64 := ⟨fun word => littleEndian 8 word.toNat, Reader.word64⟩
  alternative all := ⟨fun a => [UInt8.ofNat (all.idxOf a)], Reader.alternative all⟩
  optional p := ⟨fun o => o.elim [0] fun a => 1 :: p.write a, Reader.optional p.read⟩
  store size fields := storeFields size [] fields

end Transceiver
