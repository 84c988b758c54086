import Transceiver.Configuration
import Transceiver.Proofs.Addressing

/-!
# Stored settings

A reader and the written form of a value belong together (`Reads`) if the reader finds the value in
front of whatever follows, and hits the end of everything that breaks off before. Readers one after
the other inherit both (`Reads.andThen`), so the law of a record comes from those of its fields, and
it does not matter where in the record a field begins.

The settings of a node are such a record, whatever format they are stored in, as long as its codecs
keep their laws (`LawfulStorageFormat`). They take 18 octets, and one more with a vector for the
interrupt line (`settings_survive`). The compact format keeps these laws.
-/

namespace Transceiver

namespace Reader

variable {α β : Type} {p : Reader α} {q : α → Reader β} {a : α} {b : β} {w v : List UInt8}

/-- The reader takes the written form of a value from the front, and finds nothing in less. -/
structure Reads (p : Reader α) (written : List UInt8) (a : α) : Prop where
  found : ∀ rest, p (written ++ rest) = .ok (a, rest)
  broken_off : ∀ part, part <+: written → part ≠ written → p part = .error .unexpectedEnd

theorem Reads.decode_append (h : p.Reads w a) (rest : List UInt8) :
    p.decode (w ++ rest) = .ok a := by
  rw [decode, h.found]
  rfl

theorem Reads.decode_part (h : p.Reads w a) {part : List UInt8} (hpart : part <+: w)
    (hne : part ≠ w) : p.decode part = .error .unexpectedEnd := by
  rw [decode, h.broken_off part hpart hne]
  rfl

theorem reads_yield (a : α) : (yield a).Reads [] a where
  found _ := rfl
  broken_off _ hpart hne := absurd (List.prefix_nil.1 hpart) hne

/-- What breaks off does so in the first field, or else in the second. -/
theorem Reads.andThen (hp : p.Reads w a) (hq : (q a).Reads v b) :
    (p.andThen q).Reads (w ++ v) b where
  found rest := by
    unfold Reader.andThen
    rw [List.append_assoc, hp.found]
    exact hq.found rest
  broken_off part hpart hne := by
    unfold Reader.andThen
    by_cases hw : w <+: part
    · obtain ⟨t, rfl⟩ := hw
      rw [hp.found]
      have ht : t <+: v := (List.prefix_append_right_inj w).1 hpart
      exact hq.broken_off t ht fun h => hne (congrArg (w ++ ·) h)
    · have hfirst : part <+: w :=
        (List.prefix_or_prefix_of_prefix hpart (List.prefix_append w v)).resolve_right hw
      have hne' : part ≠ w := fun h => hw (h ▸ List.prefix_rfl)
      rw [hp.broken_off part hfirst hne']

/-- A field that only makes something else of another one. -/
theorem Reads.map {f : α → β} (hp : p.Reads w a) :
    (p.andThen fun a => yield (f a)).Reads w (f a) := by
  have h := hp.andThen (q := fun a => yield (f a)) (reads_yield (f a))
  rwa [List.append_nil] at h

/-! ### The kinds of field -/

/-- Of one octet nothing is left when it breaks off. -/
theorem reads_singleton {o : UInt8} (hfound : ∀ rest, p (o :: rest) = .ok (a, rest))
    (hnil : p [] = .error .unexpectedEnd) : p.Reads [o] a where
  found := hfound
  broken_off part hpart hne := by
    rcases List.prefix_cons_iff.1 hpart with rfl | ⟨t, rfl, ht⟩
    · exact hnil
    · exact absurd (congrArg (o :: ·) (List.prefix_nil.1 ht)) hne

theorem reads_octet (o : UInt8) : octet.Reads [o] o := reads_singleton (fun _ => rfl) rfl

theorem reads_index {i : Nat} (h : i < 128) : index.Reads [UInt8.ofNat i] i := by
  have hbyte : i < UInt8.size := Nat.lt_trans h (by decide)
  have hhalf : i < UInt32.size := Nat.lt_trans h (by decide)
  have hword : i % UInt64.size = i := Nat.mod_eq_of_lt (Nat.lt_trans h (by decide))
  have hi : (UInt8.ofNat i).toNat = i := UInt8.toNat_ofNat_of_lt' hbyte
  have hlow : UInt8.ofNat i < 0x80 := by
    rw [UInt8.lt_iff_toNat_lt, hi]
    exact h
  have hgroups : (groups 10).Reads [UInt8.ofNat i] i := by
    refine reads_singleton (fun rest => ?_) rfl
    rw [groups, if_pos hlow, hi]
  refine hgroups.andThen (v := []) ?_
  simp only [hword, if_pos hhalf]
  exact reads_yield i

theorem reads_alternative [DecidableEq α] {all : List α} (ha : a ∈ all) (hl : all.length ≤ 128) :
    (alternative all).Reads [UInt8.ofNat (all.idxOf a)] a := by
  have hlt : all.idxOf a < all.length := List.idxOf_lt_length_of_mem ha
  have hget : all[all.idxOf a]? = some a := by
    rw [List.getElem?_eq_getElem hlt, List.getElem_idxOf]
  refine (reads_index (Nat.lt_of_lt_of_le hlt hl)).andThen (v := []) ?_
  simp only [hget]
  exact reads_yield a

theorem reads_none (p : Reader α) : (optional p).Reads [0] none :=
  (reads_octet 0).andThen (v := []) (reads_yield none)

theorem Reads.some (h : p.Reads w a) : (optional p).Reads (1 :: w) (some a) :=
  (reads_octet 1).andThen (v := w) h.map

theorem reads_octets {n : Nat} (v : Vector UInt8 n) : (octets n).Reads v.toList v where
  found rest := by
    have hle : n ≤ (v.toList ++ rest).length := by simp
    have htake : (v.toList ++ rest).take n = v.toList := List.take_left' v.length_toList
    have hdrop : (v.toList ++ rest).drop n = rest := List.drop_left' v.length_toList
    rw [octets, dif_pos hle]
    simp only [htake, hdrop]
    rfl
  broken_off part hpart hne := by
    refine dif_neg fun hle => hne (hpart.eq_of_length_le ?_)
    rwa [v.length_toList]

theorem reads_word64 (word : UInt64) : word64.Reads (littleEndian 8 word.toNat) word := by
  let written : Vector UInt8 8 :=
    ⟨(littleEndian 8 word.toNat).toArray, length_littleEndian 8 word.toNat⟩
  have hword : UInt64.ofNat (ofLittleEndian written.toList) = word := by
    change UInt64.ofNat (ofLittleEndian (littleEndian 8 word.toNat)) = word
    rw [ofLittleEndian_littleEndian word.toNat_lt, UInt64.ofNat_toNat]
  have h := (reads_octets written).map (f := fun v => UInt64.ofNat (ofLittleEndian v.toList))
  rwa [hword] at h

end Reader

/-! ### Formats -/

def Codec.Lawful {α : Type} (p : Codec α) : Prop := ∀ a, p.read.Reads (p.write a) a

/-- What is expected of a format: the written forms, that each of them is read back, and that a
buffer takes fields as long as there is room. -/
class LawfulStorageFormat [StorageFormat] : Prop where
  write_octet (b : UInt8) : StorageFormat.octet.write b = [b]
  write_octets {n : Nat} (v : Vector UInt8 n) : (StorageFormat.octets n).write v = v.toList
  write_word64 (word : UInt64) : StorageFormat.word64.write word = littleEndian 8 word.toNat
  write_alternative {α : Type} [DecidableEq α] {all : List α} {a : α} (ha : a ∈ all)
    (hl : all.length ≤ 128) : (StorageFormat.alternative all).write a = [UInt8.ofNat (all.idxOf a)]
  write_none {α : Type} (p : Codec α) : (StorageFormat.optional p).write none = [0]
  write_some {α : Type} (p : Codec α) (a : α) :
    (StorageFormat.optional p).write (some a) = 1 :: p.write a
  reads_octet : StorageFormat.octet.Lawful
  reads_octets (n : Nat) : (StorageFormat.octets n).Lawful
  reads_word64 : StorageFormat.word64.Lawful
  reads_alternative {α : Type} [DecidableEq α] {all : List α} {a : α} (ha : a ∈ all)
    (hl : all.length ≤ 128) : (StorageFormat.alternative all).read.Reads
      ((StorageFormat.alternative all).write a) a
  reads_optional {α : Type} {p : Codec α} (hp : p.Lawful) : (StorageFormat.optional p).Lawful
  store_eq (size : Nat) (fields : List (List UInt8)) :
    StorageFormat.store size fields = storeFields size [] fields

instance : LawfulStorageFormat where
  write_octet _ := rfl
  write_octets _ := rfl
  write_word64 _ := rfl
  write_alternative _ _ := rfl
  write_none _ := rfl
  write_some _ _ := rfl
  reads_octet := Reader.reads_octet
  reads_octets _ := Reader.reads_octets
  reads_word64 := Reader.reads_word64
  reads_alternative := Reader.reads_alternative
  reads_optional hp
    | none => Reader.reads_none _
    | some a => (hp a).some
  store_eq _ _ := rfl

/-- There is room for each field exactly if there is room for all of them. -/
theorem storeFields_eq {size : Nat} {written : List UInt8} (h : written.length ≤ size)
    (fields : List (List UInt8)) : storeFields size written fields =
      if (written ++ fields.flatten).length ≤ size then .ok (written ++ fields.flatten)
      else .error .bufferFull := by
  induction fields generalizing written with
  | nil => simp [storeFields, h]
  | cons field fields ih =>
    rw [storeFields, List.flatten_cons, ← List.append_assoc]
    by_cases hroom : (written ++ field).length ≤ size
    · rw [ih hroom, if_pos (by rwa [← List.length_append])]
    · rw [if_neg (by rwa [← List.length_append]), if_neg fun hall => hroom ?_]
      exact Nat.le_trans (List.prefix_append _ _).length_le hall

namespace Configuration

open StorageFormat LawfulStorageFormat

theorem mem_all (v : Variant) : v ∈ Variant.all := by
  cases v <;> decide

section

variable [StorageFormat] [LawfulStorageFormat] (c : Configuration)

theorem reads_record : reader.Reads c.record c := by
  have hrecord : c.record = (alternative Variant.all).write c.variant ++ ((octets 8).write c.ieee ++
      ((optional octet).write c.interruptLine ++ word64.write c.seed)) := by
    simp [record, fields]
  rw [hrecord]
  exact (reads_alternative (mem_all c.variant) (by decide)).andThen <|
    (reads_octets 8 c.ieee).andThen <| (reads_optional reads_octet c.interruptLine).andThen
      (reads_word64 c.seed).map

theorem record_eq : c.record = (if c.variant = .at86rf231 then 0 else 1) :: c.ieee.toList ++
    (match c.interruptLine with | none => [0] | some line => [1, line]) ++
      littleEndian 8 c.seed.toNat := by
  have hvariant := write_alternative (mem_all c.variant) (by decide)
  have hline : (optional octet).write c.interruptLine =
      match c.interruptLine with | none => [0] | some line => [1, line] := by
    cases c.interruptLine with
    | none => exact write_none _
    | some line => rw [write_some, write_octet]
  have hindex : UInt8.ofNat (Variant.all.idxOf c.variant) =
      if c.variant = .at86rf231 then 0 else 1 := by
    cases c.variant <;> rfl
  simp only [record, fields, hvariant, hindex, hline, write_octets, write_word64]
  simp

theorem length_record : c.record.length = if c.interruptLine.isSome then 19 else 18 := by
  rw [record_eq]
  cases h : c.interruptLine <;> simp

theorem encode_eq (size : Nat) : c.encode size =
    if c.record.length ≤ size then .ok c.record else .error (.encode .bufferFull) := by
  rw [encode, store_eq, storeFields_eq (Nat.zero_le size), List.nil_append]
  unfold record
  split <;> rfl

end

/-- The settings of a node are stored in 18 octets, and in 19 with a vector for the interrupt line.
It takes a buffer of that size to write them, whether the fields are written one by one or all at
once. Read back they are the same, whatever follows them, and the reader notices when any of their
octets are missing at the end. -/
theorem settings_survive [StorageFormat] [LawfulStorageFormat] (c : Configuration) :
    c.record = (if c.variant = .at86rf231 then 0 else 1) :: c.ieee.toList ++
      (match c.interruptLine with | none => [0] | some line => [1, line]) ++
      littleEndian 8 c.seed.toNat ∧
    c.record.length = (if c.interruptLine.isSome then 19 else 18) ∧
    (∀ size, c.encode size = if c.record.length ≤ size then .ok c.record
      else .error (.encode .bufferFull)) ∧
    (∀ size, c.encode size = (storeFields size [] c.fields).mapError .encode) ∧
    (∀ rest, decode (c.record ++ rest) = .ok c) ∧
    ∀ part, part <+: c.record → part ≠ c.record →
      decode part = .error (.decode .unexpectedEnd) := by
  refine ⟨c.record_eq, c.length_record, c.encode_eq, fun size => ?_, fun rest => ?_,
    fun part hpart hne => ?_⟩
  · rw [encode, store_eq]
  · rw [decode, c.reads_record.decode_append]
    rfl
  · rw [decode, c.reads_record.decode_part hpart hne]
    rfl

/-- In the compact format, a vector stands between the address and the seed. -/
theorem settings_survive_compact :
    let c : Configuration := ⟨.at86rf231, #v[2, 0, 0, 0, 0, 0, 0, 0x10], some 5, 0xDEADBEEF⟩
    let l := [0, 2, 0, 0, 0, 0, 0, 0, 0x10, 1, 5, 0xEF, 0xBE, 0xAD, 0xDE, 0, 0, 0, 0]
    c.encode 19 = .ok l ∧ c.encode 18 = .error (.encode .bufferFull) ∧
      decode (l ++ [7]) = .ok c ∧ decode (l.take 11) = .error (.decode .unexpectedEnd) := by
  intro c l
  obtain ⟨hrecord, -, hencode, -, hfound, hbroken⟩ := settings_survive c
  have hl : c.record = l := hrecord.trans (by decide)
  rw [hl] at hencode hfound hbroken
  exact ⟨hencode 19, hencode 18, hfound [7], hbroken _ (List.take_prefix 11 l) (by decide)⟩

end Configuration

end Transceiver
