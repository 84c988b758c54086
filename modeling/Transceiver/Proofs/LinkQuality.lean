import Transceiver.Proofs.NoiseIndependence

/-!
# Link quality values

A correlation value is drawn from the row of the table that the packet error rate selects. How the
rate becomes the number of a row and a random word a place in it is left to floating point numbers.
Whatever comes of them, the value lies in the row (`pick_mem`), since both are cut off at the end
and no row is out of order. And all values are small enough to leave the top bit of an octet to the
verdict on the check octets.
-/

namespace Transceiver

namespace CorrelationRange

variable (r : CorrelationRange) (word : UInt64)

def count : UInt32 := r.high.toUInt32 - r.low.toUInt32 + 1

/-- The place in the range to which a word is scaled, which rounding may put behind the end. -/
def place : UInt32 := (r.count.toFloat * unitInterval word).toUInt32

variable {r}

theorem toNat_count (h : r.low ≤ r.high) : r.count.toNat = r.high.toNat - r.low.toNat + 1 := by
  have hle : r.low.toUInt32 ≤ r.high.toUInt32 := by
    rw [UInt32.le_iff_toNat_le, UInt8.toNat_toUInt32, UInt8.toNat_toUInt32]
    exact UInt8.le_iff_toNat_le.1 h
  have hhigh := r.high.toNat_lt
  have hone : (1 : UInt32).toNat = 1 := rfl
  rw [count, UInt32.toNat_add, UInt32.toNat_sub_of_le _ _ hle, UInt8.toNat_toUInt32,
    UInt8.toNat_toUInt32, hone]
  omega

theorem toNat_kept (h : r.low ≤ r.high) : (min (r.place word) (r.count - 1)).toNat =
    min (r.place word).toNat (r.high.toNat - r.low.toNat) := by
  have hcount := toNat_count h
  have hone : (1 : UInt32).toNat = 1 := rfl
  have hpos : 1 ≤ r.count := by
    rw [UInt32.le_iff_toNat_le, hcount, hone]
    omega
  have hlast : (r.count - 1).toNat = r.high.toNat - r.low.toNat := by
    rw [UInt32.toNat_sub_of_le _ _ hpos, hcount, hone]
    omega
  rw [← hlast, Nat.min_def]
  simp only [← UInt32.le_iff_toNat_le]
  exact apply_ite UInt32.toNat _ _ _

/-- The value is computed as with numbers of any size: nothing wraps around and nothing is cut
off. -/
theorem toNat_pick (h : r.low ≤ r.high) : (r.pick word).toNat =
    r.low.toNat + min (r.place word).toNat (r.high.toNat - r.low.toNat) := by
  have hhigh := r.high.toNat_lt
  have hle := UInt8.le_iff_toNat_le.1 h
  change (r.low.toUInt32 + min (r.place word) (r.count - 1)).toUInt8.toNat = _
  rw [UInt32.toNat_toUInt8, UInt32.toNat_add, toNat_kept word h, UInt8.toNat_toUInt32]
  omega

theorem pick_mem (h : r.low ≤ r.high) : r.low ≤ r.pick word ∧ r.pick word ≤ r.high := by
  have hle := UInt8.le_iff_toNat_le.1 h
  rw [UInt8.le_iff_toNat_le, UInt8.le_iff_toNat_le, toNat_pick word h]
  omega

end CorrelationRange

/-- Every row of the table is in order, and has the top bit of its values free. -/
theorem rows_ordered (i : Fin 101) : correlationRanges[i].low ≤ correlationRanges[i].high ∧
    correlationRanges[i].high < 0x80 := by
  revert i
  decide

theorem and_mask_of_lt {v : UInt8} (h : v < 0x80) : v &&& 0x7F = v := by
  have hlt : v.toNat < 2 ^ 7 := UInt8.lt_iff_toNat_lt.1 h
  apply UInt8.toNat_inj.1
  rw [UInt8.toNat_and]
  exact Nat.and_two_pow_sub_one_of_lt_two_pow hlt

section

variable {G : Type} [RandomWords G]

/-- Every value drawn leaves the top bit free. -/
theorem value_drawCorrelation (rate : Float) (g : G) :
    (drawCorrelation rate g).1 &&& 0x7F = (drawCorrelation rate g).1 := by
  obtain ⟨hordered, hhigh⟩ := rows_ordered (percentage rate)
  have hmem := CorrelationRange.pick_mem (RandomWords.next g).1 hordered
  exact and_mask_of_lt (UInt8.lt_of_le_of_lt hmem.2 hhigh)

end

namespace Chip

theorem value_qualityOctet (value : UInt8) (valid : Bool) :
    qualityOctet value valid &&& 0x7F = value &&& 0x7F := by
  have hverdict : (if valid then 0x80 else 0 : UInt8) &&& 0x7F = 0 := by
    cases valid <;> rfl
  have hmask : (0x7F : UInt8) &&& 0x7F = 0x7F := rfl
  rw [qualityOctet, octet_and_or_distrib, UInt8.and_assoc, hmask, hverdict, UInt8.or_zero]

theorem verdict_qualityOctet (value : UInt8) (valid : Bool) :
    qualityOctet value valid &&& 0x80 = if valid then 0x80 else 0 := by
  rw [qualityOctet, FrameBuffer.and_or_verdict]
  cases valid <;> rfl

variable {G : Type} [RandomWords G] {c : Chip G}

theorem octets_storeLinkQuality (h : c.buffer.octets.length ≤ FrameBuffer.capacity)
    (valid : Bool) : (c.storeLinkQuality valid).buffer.octets[c.buffer.octets.length - 1]? =
      some (qualityOctet (drawCorrelation c.bitErrors.packetErrorRate c.generator).1 valid) := by
  have hlast : c.buffer.octets.length - 1 < 128 := by
    rw [FrameBuffer.capacity] at h
    omega
  change (c.buffer.poke (c.buffer.octets.length - 1) _).2.octets[_]? = _
  rw [FrameBuffer.poke_of_lt hlast]
  apply List.getElem?_set_self
  rw [List.length_append, List.length_replicate]
  omega

/-- In the buffer, the second check octet of a frame gives way to the link quality. -/
theorem octets_hear_check2 {f : ReceiveFramer} (hf : c.receiver = some f) (hp : f.phase = .check2)
    (hroom : c.buffer.octets.length < FrameBuffer.capacity) (b : UInt8) :
    (c.hear true b).buffer.octets = c.buffer.octets ++
      [qualityOctet (drawCorrelation c.bitErrors.packetErrorRate c.generator).1
        (Crc.accepts f.crc f.firstCheck b)] := by
  let stored : Chip G := { c with
    receiver := some { f with phase := .done }
    buffer := { c.buffer with octets := c.buffer.octets ++ [b] } }
  have hquality := stored.storeLinkQuality_eq rfl hroom (Crc.accepts f.crc f.firstCheck b)
  rw [hear_check2_of_room hf hp hroom, completeChecked_eq, raise_eq]
  exact congrArg (·.buffer.octets) hquality

theorem octets_receive_check2 {f : ReceiveFramer} (hf : c.receiver = some f)
    (hp : f.phase = .check2) (hroom : c.buffer.octets.length < FrameBuffer.capacity) (b : UInt8) :
    (c.receive true b).2.buffer.octets = c.buffer.octets ++
      [qualityOctet (drawCorrelation c.bitErrors.packetErrorRate c.generator).1
        (Crc.accepts f.crc f.firstCheck b)] := by
  rw [snd_receive, advance_eq]
  apply octets_hear_check2
  · exact hf
  · exact hp
  · exact hroom

/-- For every rate of packet errors and every word drawn, the link quality lies in the row that was
looked up, with nothing cut off on the way; and with each frame that is checked, it stands in the
buffer as it was drawn, below the verdict. -/
theorem link_quality_in_row (G : Type) [RandomWords G] :
    (∀ (rate : Float) (g : G), ∃ row : Fin 101, row.val = min (rate * 100).toUInt64.toNat 100 ∧
      let range := correlationRanges[row]
      let (word, g') := RandomWords.next g
      let drawn := drawCorrelation rate g
      range.low ≤ range.high ∧ range.count.toNat = range.high.toNat - range.low.toNat + 1 ∧
        drawn.1.toNat = range.low.toNat +
          min (range.place word).toNat (range.high.toNat - range.low.toNat) ∧
        range.low ≤ drawn.1 ∧ drawn.1 ≤ range.high ∧ drawn.2 = g') ∧
    (∀ (c : Chip G) (valid : Bool), c.buffer.octets.length ≤ FrameBuffer.capacity →
      let drawn := drawCorrelation c.bitErrors.packetErrorRate c.generator
      let d := c.completeChecked valid
      d.generator = drawn.2 ∧ ∃ q, d.buffer.octets[c.buffer.octets.length - 1]? = some q ∧
        q &&& 0x7F = drawn.1 ∧ q &&& 0x80 = if valid then 0x80 else 0) ∧
    ∀ (c : Chip G) (f : ReceiveFramer) (b : UInt8), c.receiver = some f → f.phase = .check2 →
      c.buffer.octets.length < FrameBuffer.capacity →
      ∃ q, (c.receive true b).2.buffer.octets = c.buffer.octets ++ [q] ∧
        q &&& 0x7F = (drawCorrelation c.bitErrors.packetErrorRate c.generator).1 ∧
        q &&& 0x80 = if Crc.accepts f.crc f.firstCheck b then 0x80 else 0 := by
  refine ⟨fun rate g => ?_, fun c valid h => ?_, fun c f b hf hp hroom => ?_⟩
  · let word := (RandomWords.next g).1
    have hordered := (rows_ordered (percentage rate)).1
    have hmem := CorrelationRange.pick_mem word hordered
    exact ⟨percentage rate, rfl, hordered, CorrelationRange.toNat_count hordered,
      CorrelationRange.toNat_pick word hordered, hmem.1, hmem.2, rfl⟩
  · have hoctets := octets_storeLinkQuality h valid
    intro drawn d
    have hd : d.generator = (c.storeLinkQuality valid).generator ∧
        d.buffer = (c.storeLinkQuality valid).buffer := by
      simp only [d]
      rw [completeChecked_eq, raise_eq]
      exact ⟨rfl, rfl⟩
    rw [hd.1, hd.2]
    refine ⟨rfl, _, hoctets, ?_, verdict_qualityOctet _ _⟩
    rw [value_qualityOctet, value_drawCorrelation]
  · refine ⟨_, octets_receive_check2 hf hp hroom b, ?_, verdict_qualityOctet _ _⟩
    rw [value_qualityOctet, value_drawCorrelation]

/-- The frame of a single octet whose check octets are right. -/
theorem link_quality_in_row_received :
    let config : Configuration := ⟨.at86rf231, Vector.replicate 8 0, none, 0⟩
    let before : List Operation :=
      .command Command.rxOn.code :: [0, 0x7A, 3, 0x41, 0x8D].map (.receive true)
    let c : Chip Mixer := (build config (Instant.mk 0) (Mixer.mk 0)).run before
    ∃ q, (c.receive true 0x53).2.buffer.octets = [3, 0x41, 0x8D, q] ∧
      q &&& 0x7F = (drawCorrelation c.bitErrors.packetErrorRate c.generator).1 ∧
      q &&& 0x80 = 0x80 := by
  intro config before c
  have hchecks : (c.receiver.map fun f => (f.phase, Crc.accepts f.crc f.firstCheck 0x53)) =
      some (.check2, true) := by decide +kernel
  have hoctets : c.buffer.octets = [3, 0x41, 0x8D] := by decide +kernel
  obtain ⟨f, hf, hframer⟩ := Option.map_eq_some_iff.1 hchecks
  obtain ⟨hp, hvalid⟩ := Prod.mk.inj hframer
  have hroom : c.buffer.octets.length < FrameBuffer.capacity := by
    rw [hoctets]
    decide
  obtain ⟨q, hq, hvalue, hverdict⟩ := (link_quality_in_row Mixer).2.2 c f 0x53 hf hp hroom
  rw [hvalid] at hverdict
  rw [hoctets] at hq
  exact ⟨q, hq, hvalue, hverdict⟩

end Chip

end Transceiver
