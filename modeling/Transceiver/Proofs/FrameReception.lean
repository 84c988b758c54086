import Transceiver.Proofs.RaisedEvents
import Transceiver.Proofs.StreamedFilter

/-!
# The reception of a frame

What becomes of a chip that hears a frame from its preamble to its last octet. In between, the state
of the framer is that of `taking`, computed from the octets of the frame so far; the chip holds the
same octets in its buffer (`holding`), and the rest of it has changed by what the filter has seen of
them (`sifted`). `hearMany_frame` has the chip that heard a whole frame, and `hearMany_refused` the
one whose filter refused the frame on the way.
-/

namespace Transceiver

namespace ReceiveFramer

def taking (length check : UInt8) (octets : List UInt8) : ReceiveFramer where
  phase := if octets.length + 2 < length.toNat then .inPacket else .check1
  counter := UInt8.ofNat octets.length
  length := length
  crc := Crc.ofList octets
  firstCheck := check

variable {l x : UInt8} {p : List UInt8}

theorem toNat_withoutFcs (l : UInt8) : (withoutFcs l).toNat = l.toNat - 2 := by
  unfold withoutFcs
  by_cases h : l < 2
  · have hl : l.toNat < 2 := UInt8.lt_iff_toNat_lt.1 h
    rw [if_pos h]
    change 0 = l.toNat - 2
    omega
  · have hl : 2 ≤ l := UInt8.not_lt.1 h
    rw [if_neg h, UInt8.toNat_sub_of_le _ _ hl]
    rfl

theorem ofNat_succ (n : Nat) : UInt8.ofNat n + 1 = UInt8.ofNat (n + 1) := by
  apply UInt8.toNat_inj.1
  rw [UInt8.toNat_add, UInt8.toNat_ofNat', UInt8.toNat_ofNat']
  change (n % 256 + 1) % 256 = (n + 1) % 256
  omega

theorem hear_taking (h : p.length + 2 < l.toNat) (b : UInt8) :
    (taking l x p).hear b true = (taking l x (p ++ [b]),
      .push b :: if p.length + 1 ∈ checkOffsets then [.filterCheck (p.length + 1)] else []) := by
  have hlt := l.toNat_lt
  have hoffset : (UInt8.ofNat (p.length + 1)).toNat = p.length + 1 := by
    rw [UInt8.toNat_ofNat']
    omega
  have hend : withoutFcs l ≤ UInt8.ofNat (p.length + 1) ↔ ¬p.length + 1 + 2 < l.toNat := by
    rw [UInt8.le_iff_toNat_le, toNat_withoutFcs, hoffset]
    omega
  have hphase : (taking l x p).phase = .inPacket := if_pos h
  unfold hear
  rw [hphase]
  simp only [takeOctet, taking, ofNat_succ, hoffset, if_true, Crc.ofList_concat, hend,
    List.length_append, List.length_singleton, ite_not]

theorem hear_taking_of_full (h : ¬p.length + 2 < l.toNat) (b : UInt8) (autoFcs : Bool) :
    (taking l x p).hear b autoFcs = ({ taking l b p with phase := .check2 }, [.push b]) := by
  have hphase : (taking l x p).phase = .check1 := if_neg h
  unfold hear
  rw [hphase]
  rfl

theorem toNat_counter_succ {f : ReceiveFramer} (h : f.counter.toNat + 1 ≤ f.length.toNat) :
    (f.counter + 1).toNat = f.counter.toNat + 1 := by
  have hlt := f.length.toNat_lt
  exact octet_toNat_succ (by omega)

theorem passOver_of_le {f : ReceiveFramer} (h : f.counter.toNat + 1 ≤ f.length.toNat) :
    f.passOver = if f.length ≤ f.counter + 1
      then ({ f with counter := f.counter + 1, phase := .scanning }, [.discarded])
      else ({ f with counter := f.counter + 1 }, []) := by
  have hlt := f.length.toNat_lt
  have hmax : f.counter ≠ 255 := by
    intro he
    rw [he] at h
    change 255 + 1 ≤ _ at h
    omega
  simp only [passOver, if_neg hmax]

theorem passOver_of_last {f : ReceiveFramer} (h : f.counter.toNat + 1 = f.length.toNat) :
    f.passOver = ({ f with phase := .scanning, counter := f.length }, [.discarded]) := by
  have hlast : f.counter + 1 = f.length :=
    UInt8.toNat_inj.1 ((toNat_counter_succ (Nat.le_of_eq h)).trans h)
  rw [passOver_of_le (Nat.le_of_eq h), hlast, if_pos (UInt8.le_refl _)]

theorem passOver_of_more {f : ReceiveFramer} (h : f.counter.toNat + 1 < f.length.toNat) :
    f.passOver = ({ f with counter := f.counter + 1 }, []) := by
  have hmore : ¬f.length ≤ f.counter + 1 := by
    rw [UInt8.le_iff_toNat_le, toNat_counter_succ (Nat.le_of_lt h)]
    omega
  rw [passOver_of_le (Nat.le_of_lt h), if_neg hmore]

theorem phase_taking_ne_done : (taking l x p).phase ≠ .done := by
  unfold taking
  by_cases h : p.length + 2 < l.toNat <;> simp [h]

end ReceiveFramer

def syncHeader : List UInt8 := [0, 0, 0, 0, startDelimiter]

def onAir (l : UInt8) (p : List UInt8) (a b : UInt8) : List UInt8 := syncHeader ++ l :: p ++ [a, b]

namespace Chip

variable {G : Type}

def holding (c : Chip G) (f : ReceiveFramer) (frame : List UInt8) : Chip G :=
  { c with receiver := some f, buffer := ⟨frame, 0, true⟩ }

def filters (c : Chip G) : Bool := c.state == .rxAackOn && !c.registers.isCoordinator

/-- The filter does not stand in the way of the frame at this offset. -/
def Takes (c : Chip G) (frame : List UInt8) (offset : Nat) : Prop :=
  c.filters = true → (FrameFilter.check frame offset c.localAddress).accepted = true

instance (c : Chip G) (frame : List UInt8) (offset : Nat) : Decidable (c.Takes frame offset) :=
  inferInstanceAs (Decidable (_ → _))

/-- What the filter has changed about the chip when it has seen this much of a frame, which it took:
the sequence number is noted and the address match announced. -/
def sifted (c : Chip G) (frame : List UInt8) : Chip G :=
  let c' := c.noteSequence (FrameFilter.sequenceOf? frame)
  if c.filters ∧ FrameFilter.matchOffset < frame.length then c'.raise .addressMatch else c'

def dismissed (c : Chip G) (f : ReceiveFramer) (frame : List UInt8) : Chip G :=
  { (c.noteSequence (FrameFilter.sequenceOf? frame)).holding f frame with
    bitErrors := .empty
    owed := none }

def announced (c : Chip G) (length : UInt8) : Chip G :=
  { c.raise .rxStart with registers := (c.raise .rxStart).registers.set .tstRxLength length }

variable (c : Chip G) (f : ReceiveFramer) (frame : List UInt8)

/-- Neither framer nor buffer has a say in what an event does. -/
theorem raise_with (e : Event) (receiver : Option ReceiveFramer) (buffer : FrameBuffer) :
    raise { c with receiver, buffer } e = { c.raise e with receiver, buffer } := by
  have hpost (d : Chip G) :
      post { d with receiver, buffer } e = { d.post e with receiver, buffer } := by
    unfold post
    simp only
    split <;> rfl
  unfold raise
  split
  · exact hpost (c.latch e)
  · split <;> rfl

theorem raise_with_receiver (e : Event) (receiver : Option ReceiveFramer) :
    raise { c with receiver } e = { c.raise e with receiver } := by
  refine (c.raise_with e receiver c.buffer).trans ?_
  rw [raise_eq]

theorem raise_holding (e : Event) : (c.holding f frame).raise e = (c.raise e).holding f frame :=
  c.raise_with e (some f) ⟨frame, 0, true⟩

theorem noteSequence_holding (sequence : Option UInt8) :
    (c.holding f frame).noteSequence sequence = (c.noteSequence sequence).holding f frame := by
  cases sequence <;> rfl

theorem storeOctet_holding (h : frame.length < 128) (b : UInt8) :
    (c.holding f frame).storeOctet b = (true, c.holding f (frame ++ [b])) :=
  storeOctet_of_room h

/-! ### What stays the same -/

theorem sameSettings_raise (e : Event) : c.registers.SameSettings (c.raise e).registers := by
  intro r hr
  exact c.get_raise e fun he => hr (he ▸ (by decide : Register.irqStatus ∈ RegisterFile.written))

theorem sameSettings_announced (l : UInt8) :
    c.registers.SameSettings (c.announced l).registers :=
  (c.sameSettings_raise .rxStart).trans (RegisterFile.sameSettings_set (by decide) _ l)

theorem noteSequence_eq (sequence : Option UInt8) : c.noteSequence sequence = { c with
    sequence := sequence.getD c.sequence
    lastValid := (c.noteSequence sequence).lastValid
    owed := (c.noteSequence sequence).owed } := by
  cases sequence <;> rfl

theorem noteSequence_noteSequence (old new : Option UInt8) :
    (c.noteSequence old).noteSequence new = c.noteSequence (new.or old) := by
  cases new with
  | some s => cases old <;> rfl
  | none => rfl

theorem get_sifted {r : Register} (h : r ≠ .irqStatus) :
    (c.sifted frame).registers.get r = c.registers.get r := by
  unfold sifted
  simp only
  split
  · rw [get_raise _ _ h, noteSequence_eq]
  · rw [noteSequence_eq]

theorem sameSettings_sifted : c.registers.SameSettings (c.sifted frame).registers := by
  intro r hr
  exact c.get_sifted frame
    fun he => hr (he ▸ (by decide : Register.irqStatus ∈ RegisterFile.written))

theorem state_raise (e : Event) : (c.raise e).state = c.state := by
  rw [raise_eq]

theorem filters_congr {d : Chip G} (hstate : d.state = c.state)
    (h : c.registers.SameSettings d.registers) : d.filters = c.filters := by
  simp only [filters, hstate, h.isCoordinator]

theorem takes_congr {d : Chip G} (hstate : d.state = c.state)
    (h : c.registers.SameSettings d.registers) (k : Nat) : d.Takes frame k ↔ c.Takes frame k := by
  unfold Takes
  rw [c.filters_congr hstate h, c.localAddress_congr h]

/-! ### The filter -/

theorem filters_iff : c.filters = true ↔ ¬(c.state ≠ .rxAackOn ∨ c.registers.isCoordinator) := by
  simp [filters]

theorem filter_of_takes {offset : Nat} (h : c.Takes c.buffer.octets offset) :
    c.filter offset = (true,
      let c' := c.noteSequence
        (FrameFilter.check c.buffer.octets offset c.localAddress).sequence
      if c.filters ∧ offset = FrameFilter.matchOffset then c'.raise .addressMatch else c') := by
  unfold filter
  simp only
  by_cases hf : c.filters = true
  · rw [if_neg (c.filters_iff.1 hf), if_pos (h hf)]
    simp only [hf, true_and]
  · rw [if_pos (Decidable.not_not.1 fun hn => hf (c.filters_iff.2 hn)), if_neg fun hc => hf hc.1]

theorem filter_of_refuses {offset : Nat} (h : ¬c.Takes c.buffer.octets offset) :
    c.filter offset = (false,
      let c' := c.noteSequence
        (FrameFilter.check c.buffer.octets offset c.localAddress).sequence
      { c' with receiver := c'.receiver.map .reject }) := by
  obtain ⟨hf, ha⟩ := Classical.not_imp.1 h
  unfold filter
  simp only
  rw [if_neg (c.filters_iff.1 hf), if_neg ha]

theorem sifted_of_short (h : frame.length ≤ 13) :
    c.sifted frame = c.noteSequence (FrameFilter.sequenceOf? frame) := by
  have hmatch : ¬FrameFilter.matchOffset < frame.length := Nat.not_lt.2 h
  simp only [sifted, hmatch, and_false, if_false]

theorem sifted_length (l : UInt8) : c.sifted [l] = c := by
  rw [sifted_of_short _ _ (by simp), FrameFilter.sequenceOf?_of_short (by simp)]
  rfl

/-- At an offset without a check the filter has nothing to add. -/
theorem sifted_concat_of_notMem (h : frame.length ∉ checkOffsets) (b : UInt8) :
    c.sifted (frame ++ [b]) = c.sifted frame := by
  simp only [checkOffsets, List.mem_cons, List.not_mem_nil, or_false, not_or] at h
  obtain ⟨-, h3, -, -, h13⟩ := h
  have hmatch : FrameFilter.matchOffset < (frame ++ [b]).length ↔
      FrameFilter.matchOffset < frame.length := by
    rw [List.length_append, List.length_singleton]
    change 13 < frame.length + 1 ↔ 13 < frame.length
    omega
  simp only [sifted, FrameFilter.sequenceOf?_concat h3, hmatch]

/-- At an offset with a check, what the filter does then is what it adds. -/
theorem sifted_concat_of_mem (h : frame.length ∈ checkOffsets) (b : UInt8) (node : LocalAddress) :
    c.sifted (frame ++ [b]) =
      let c' := (c.sifted frame).noteSequence
        (FrameFilter.check (frame ++ [b]) frame.length node).sequence
      if c.filters ∧ frame.length = FrameFilter.matchOffset then c'.raise .addressMatch
      else c' := by
  have hlength : (frame ++ [b]).length = frame.length + 1 := by simp
  have hle : frame.length ≤ 13 := (FrameFilter.bounds_of_checkOffset h).2
  have hmatch : FrameFilter.matchOffset < frame.length + 1 ↔
      frame.length = FrameFilter.matchOffset := by
    change 13 < frame.length + 1 ↔ frame.length = 13
    omega
  rw [c.sifted_of_short frame hle]
  simp only [sifted, hlength, hmatch, noteSequence_noteSequence,
    FrameFilter.sequence_check_concat node frame b]

/-- The filter changes only what belongs to the sequence number and to the events. -/
theorem sifted_eq : c.sifted frame = { c with
    registers := (c.sifted frame).registers
    surroundings := (c.sifted frame).surroundings
    sequence := (FrameFilter.sequenceOf? frame).getD c.sequence
    lastValid := (c.sifted frame).lastValid
    owed := (c.sifted frame).owed } := by
  unfold sifted
  simp only
  split
  · rw [raise_eq]
    cases FrameFilter.sequenceOf? frame <;> rfl
  · cases FrameFilter.sequenceOf? frame <;> rfl

theorem state_sifted : (c.sifted frame).state = c.state := by
  rw [sifted_eq]

/-- The filter sees the octet that has just come in. -/
theorem filter_holding_of_takes {l : UInt8} {p : List UInt8} {b : UInt8}
    (hk : p.length + 1 ∈ checkOffsets) (h : c.Takes (l :: p ++ [b]) (p.length + 1)) :
    ((c.sifted (l :: p)).holding f (l :: p ++ [b])).filter (p.length + 1) =
      (true, (c.sifted (l :: p ++ [b])).holding f (l :: p ++ [b])) := by
  let d := (c.sifted (l :: p)).holding f (l :: p ++ [b])
  have hsame : c.registers.SameSettings d.registers := c.sameSettings_sifted (l :: p)
  have hstate : d.state = c.state := c.state_sifted (l :: p)
  have hfilters : d.filters = c.filters := c.filters_congr hstate hsame
  have htakes : d.Takes d.buffer.octets (p.length + 1) := (takes_congr c _ hstate hsame _).2 h
  have hsifted := c.sifted_concat_of_mem (l :: p) hk b d.localAddress
  change d.filter (p.length + 1) = _
  rw [filter_of_takes d htakes, hfilters, hsifted]
  simp only [d, noteSequence_holding, raise_holding, List.length_cons]
  split
  · rfl
  · rfl

/-! ### Octet by octet -/

variable [RandomWords G] {c} {f} {frame}

theorem hear_of_some (hf : c.receiver = some f) (b : UInt8) (carrier : Bool) :
    let r := f.step ⟨b, carrier, c.registers.autoFcs⟩
    c.hear carrier b = carryOut { c with receiver := some r.1 } r.2.effects := by
  simp only [hear, hf]

theorem hear_of_carrier (hf : c.receiver = some f) (hd : f.phase ≠ .done) (b : UInt8) :
    let r := f.hear b c.registers.autoFcs
    c.hear true b = carryOut { c with receiver := some r.1 } r.2 := by
  have hstep := ReceiveFramer.step_of_carrier (i := ⟨b, true, c.registers.autoFcs⟩) hd rfl
  simp only [hear_of_some hf, hstep]

theorem carryOut_singleton (c : Chip G) (x : ReceiveEffect) :
    c.carryOut [x] = (c.apply x).2 := by
  unfold carryOut
  cases c.apply x with
  | mk goesOn d => cases goesOn <;> rfl

theorem carryOut_push (h : frame.length < 128) (b : UInt8) (effects : List ReceiveEffect) :
    (c.holding f frame).carryOut (.push b :: effects) =
      (c.holding f (frame ++ [b])).carryOut effects := by
  simp only [carryOut, apply, c.storeOctet_holding f frame h]

theorem hear_taking {l x : UInt8} {p : List UInt8} (ha : c.registers.autoFcs = true)
    (hl : p.length + 2 < l.toNat) (hl' : l.toNat ≤ 127) (b : UInt8) :
    (c.holding (.taking l x p) (l :: p)).hear true b =
      let d := c.holding (.taking l x (p ++ [b])) (l :: p ++ [b])
      if p.length + 1 ∈ checkOffsets then (d.filter (p.length + 1)).2 else d := by
  have hroom : (l :: p).length < 128 := by
    rw [List.length_cons]
    omega
  have hauto : (c.holding (.taking l x p) (l :: p)).registers.autoFcs = true := ha
  have h := hear_of_carrier (c := c.holding (.taking l x p) (l :: p)) rfl
    ReceiveFramer.phase_taking_ne_done b
  simp only [hauto, ReceiveFramer.hear_taking hl] at h
  rw [h]
  refine (carryOut_push hroom b _).trans ?_
  simp only
  split
  · exact carryOut_singleton _ _
  · rfl

/-- The filter takes the octets of a frame. -/
theorem hear_sifted {l x : UInt8} {p : List UInt8} (ha : c.registers.autoFcs = true)
    (hl : p.length + 2 < l.toNat) (hl' : l.toNat ≤ 127) {b : UInt8}
    (h : p.length + 1 ∈ checkOffsets → c.Takes (l :: p ++ [b]) (p.length + 1)) :
    ((c.sifted (l :: p)).holding (.taking l x p) (l :: p)).hear true b =
      (c.sifted (l :: p ++ [b])).holding (.taking l x (p ++ [b])) (l :: p ++ [b]) := by
  have hauto : (c.sifted (l :: p)).registers.autoFcs = true :=
    (c.sameSettings_sifted (l :: p)).autoFcs.trans ha
  rw [hear_taking hauto hl hl']
  simp only
  by_cases hk : p.length + 1 ∈ checkOffsets
  · rw [if_pos hk, filter_holding_of_takes c _ hk (h hk)]
  · rw [if_neg hk, c.sifted_concat_of_notMem (l :: p) hk]

theorem hearMany_cons (c : Chip G) (b : UInt8) (l : List UInt8) :
    c.hearMany (b :: l) = (c.hear true b).hearMany l := rfl

theorem hearMany_append (c : Chip G) (l m : List UInt8) :
    c.hearMany (l ++ m) = (c.hearMany l).hearMany m := List.foldl_append

/-- The frame is taken as far as its octets go. -/
theorem hearMany_sifted {l x : UInt8} {p r : List UInt8} (ha : c.registers.autoFcs = true)
    (hl : (p ++ r).length + 2 ≤ l.toNat) (hl' : l.toNat ≤ 127)
    (h : ∀ k ∈ checkOffsets, k < (l :: p ++ r).length → c.Takes (l :: p ++ r) k) :
    ((c.sifted (l :: p)).holding (.taking l x p) (l :: p)).hearMany r =
      (c.sifted (l :: p ++ r)).holding (.taking l x (p ++ r)) (l :: p ++ r) := by
  induction r generalizing p with
  | nil => simp only [List.append_nil]; rfl
  | cons b r ih =>
    have hassoc : p ++ b :: r = p ++ [b] ++ r := by simp
    have hlength : (p ++ b :: r).length = p.length + 1 + r.length := by
      rw [hassoc, List.length_append, List.length_append, List.length_singleton]
    have hfirst : p.length + 1 ∈ checkOffsets → c.Takes (l :: p ++ [b]) (p.length + 1) := by
      intro hk hf
      have hwhole := h _ hk (by simp) hf
      rw [List.cons_append, hassoc, ← List.cons_append, ← List.cons_append,
        FrameFilter.check_append _ _ (by simp)] at hwhole
      exact hwhole
    change (hear _ true b).hearMany r = _
    rw [hear_sifted ha (by omega) hl' hfirst]
    have hrest := ih (p := p ++ [b]) (by rw [← hassoc]; exact hl) (by
      rw [← List.cons_append, List.append_assoc]
      exact h)
    rw [List.cons_append, hrest]
    simp

/-! ### The whole frame -/

theorem hear_zero (hf : c.receiver = some f) (hp : f.phase = .scanning ∨ f.phase = .matched1) :
    c.hear true 0 = { c with receiver := some { f with phase := .matched1 } } := by
  have hd : f.phase ≠ .done := by rcases hp with hp | hp <;> simp [hp]
  have hstep : f.hear 0 c.registers.autoFcs = ({ f with phase := .matched1 }, []) := by
    rcases hp with hp | hp <;> simp [ReceiveFramer.hear, hp, ReceiveFramer.scan, startDelimiter]
  simp only [hear_of_carrier hf hd, hstep, carryOut]

theorem hear_startDelimiter (hf : c.receiver = some f) (hp : f.phase = .matched1) :
    c.hear true startDelimiter =
      { c.raise .rxStart with receiver := some { f with phase := .matched2 } } := by
  have hd : f.phase ≠ .done := by simp [hp]
  have hstep : f.hear startDelimiter c.registers.autoFcs =
      ({ f with phase := .matched2 }, [.raise .rxStart]) := by
    simp [ReceiveFramer.hear, hp]
  simp only [hear_of_carrier hf hd, hstep, carryOut_singleton, apply]
  exact c.raise_with_receiver .rxStart _

theorem hearMany_syncHeader (hf : c.receiver = some f)
    (hp : f.phase = .scanning ∨ f.phase = .matched1) : c.hearMany syncHeader =
      { c.raise .rxStart with receiver := some { f with phase := .matched2 } } := by
  let g : ReceiveFramer := { f with phase := .matched1 }
  let d : Chip G := { c with receiver := some g }
  have hagain : d.hear true 0 = d := hear_zero (c := d) (f := g) rfl (.inr rfl)
  have hdelimiter := hear_startDelimiter (c := d) (f := g) rfl rfl
  change ((((c.hear true 0).hear true 0).hear true 0).hear true 0).hear true startDelimiter = _
  rw [hear_zero hf hp, hagain, hagain, hagain, hdelimiter, c.raise_with_receiver]

theorem and_lengthMask {l : UInt8} (h : l.toNat ≤ 127) : l &&& 0x7F = l := by
  apply UInt8.toNat_inj.1
  rw [UInt8.toNat_and]
  exact (Nat.and_two_pow_sub_one_eq_mod l.toNat 7).trans (Nat.mod_eq_of_lt (by omega))

theorem openFrame_of_fits {l : UInt8} (hl : 2 ≤ l.toNat) (hl' : l.toNat ≤ 127) :
    f.openFrame l true = (.taking l f.firstCheck [], [.frameStart l]) := by
  have hzero : l ≠ 0 := by
    rintro rfl
    exact absurd hl (by decide)
  have hlt : ¬l < 2 := by
    rw [UInt8.lt_iff_toNat_lt]
    exact Nat.not_lt.2 hl
  have hphase : l = 2 ↔ ¬0 + 2 < l.toNat := by
    rw [← UInt8.toNat_inj]
    change l.toNat = 2 ↔ _
    omega
  simp only [ReceiveFramer.openFrame, and_lengthMask hl', if_true, hzero, hlt, or_self, if_false,
    hphase, ite_not]
  rfl

theorem hear_length (hf : c.receiver = some f) (hp : f.phase = .matched2)
    (ha : c.registers.autoFcs = true) {l : UInt8} (hl : 2 ≤ l.toNat) (hl' : l.toNat ≤ 127) :
    c.hear true l = holding { c with registers := c.registers.set .tstRxLength l }
      (.taking l f.firstCheck []) [l] := by
  have hd : f.phase ≠ .done := by simp [hp]
  have hstep : f.hear l true = (.taking l f.firstCheck [], [.frameStart l]) := by
    unfold ReceiveFramer.hear
    rw [hp]
    exact openFrame_of_fits hl hl'
  let opened : Chip G := { c with
    receiver := some (.taking l f.firstCheck [])
    buffer := .forReception
    registers := c.registers.set .tstRxLength l }
  have hroom : opened.buffer.octets.length < FrameBuffer.capacity := Nat.zero_lt_succ _
  simp only [hear_of_carrier hf hd, ha, hstep, carryOut_singleton]
  exact congrArg Prod.snd (storeOctet_of_room (c := opened) hroom)

/-- The chip has heard the length of a frame that has room for its check octets. -/
theorem hearMany_opening (hf : c.receiver = some f)
    (hp : f.phase = .scanning ∨ f.phase = .matched1) (ha : c.registers.autoFcs = true) {l : UInt8}
    (hl : 2 ≤ l.toNat) (hl' : l.toNat ≤ 127) : c.hearMany (syncHeader ++ [l]) =
      (c.announced l).holding (.taking l f.firstCheck []) [l] := by
  have hauto : (c.raise .rxStart).registers.autoFcs = true :=
    (c.sameSettings_raise .rxStart).autoFcs.trans ha
  rw [hearMany_append, hearMany_syncHeader hf hp]
  let g : ReceiveFramer := { f with phase := .matched2 }
  let d : Chip G := { c.raise .rxStart with receiver := some g }
  exact hear_length (c := d) (f := g) rfl rfl hauto hl hl'

/-- With the first of the check octets the chip waits for the second. -/
theorem hear_firstCheck {l x : UInt8} {p : List UInt8} (hl : p.length + 2 = l.toNat)
    (hroom : frame.length < 128) (a : UInt8) : (c.holding (.taking l x p) frame).hear true a =
      c.holding { ReceiveFramer.taking l a p with phase := .check2 } (frame ++ [a]) := by
  have h := hear_of_carrier (c := c.holding (.taking l x p) frame) rfl
    ReceiveFramer.phase_taking_ne_done a
  rw [ReceiveFramer.hear_taking_of_full (by omega)] at h
  rw [h]
  exact carryOut_push hroom a []

theorem hear_secondCheck {l a : UInt8} {p : List UInt8} (hroom : frame.length < 128) (b : UInt8) :
    (c.holding { ReceiveFramer.taking l a p with phase := .check2 } frame).hear true b =
      (c.holding { ReceiveFramer.taking l a p with phase := .done } (frame ++ [b])).completeChecked
        (Crc.accepts (Crc.ofList p) a b) := by
  let g : ReceiveFramer := { ReceiveFramer.taking l a p with phase := .check2 }
  have hstep : g.hear b c.registers.autoFcs = ({ g with phase := .done },
      [.push b, .frameComplete (some (Crc.accepts (Crc.ofList p) a b))]) := rfl
  have h := hear_of_carrier (c := c.holding g frame) (f := g) rfl (by simp [g]) b
  have hauto : (c.holding g frame).registers.autoFcs = c.registers.autoFcs := rfl
  rw [hauto, hstep] at h
  refine h.trans ((carryOut_push hroom b _).trans ?_)
  rw [carryOut_singleton]
  rfl

/-- As long as the filter lets it pass, a frame comes in octet by octet. -/
theorem hearMany_taken (hf : c.receiver = some f)
    (hp : f.phase = .scanning ∨ f.phase = .matched1) (ha : c.registers.autoFcs = true) {l : UInt8}
    {p : List UInt8} (hl : p.length + 2 ≤ l.toNat) (hl' : l.toNat ≤ 127)
    (h : ∀ k ∈ checkOffsets, k < (l :: p).length → c.Takes (l :: p) k) :
    c.hearMany (syncHeader ++ l :: p) =
      ((c.announced l).sifted (l :: p)).holding (.taking l f.firstCheck p) (l :: p) := by
  have hsame := c.sameSettings_announced l
  have hauto : (c.announced l).registers.autoFcs = true := hsame.autoFcs.trans ha
  have hstate : (c.announced l).state = c.state := c.state_raise .rxStart
  have hopened := hearMany_opening hf hp ha (by omega) hl'
  have htaken := hearMany_sifted (c := c.announced l) (x := f.firstCheck) (p := []) (r := p) hauto
    hl hl' fun k hk hlt => (takes_congr c _ hstate hsame k).2 (h k hk hlt)
  rw [sifted_length, ← hopened, ← hearMany_append, List.append_assoc] at htaken
  exact htaken

/-- A frame that the filter lets pass comes in whole and is judged by its check octets. -/
theorem hearMany_frame (hf : c.receiver = some f)
    (hp : f.phase = .scanning ∨ f.phase = .matched1) (ha : c.registers.autoFcs = true) {l : UInt8}
    {p : List UInt8} (hl : p.length + 2 = l.toNat) (hl' : l.toNat ≤ 127)
    (h : ∀ k ∈ checkOffsets, k < (l :: p).length → c.Takes (l :: p) k) (a b : UInt8) :
    c.hearMany (onAir l p a b) =
      (((c.announced l).sifted (l :: p)).holding { ReceiveFramer.taking l a p with phase := .done }
        (l :: p ++ [a, b])).completeChecked (Crc.accepts (Crc.ofList p) a b) := by
  have hroom : (l :: p).length < 128 := by
    rw [List.length_cons]
    omega
  have hroom' : (l :: p ++ [a]).length < 128 := by
    rw [List.length_append, List.length_cons, List.length_singleton]
    omega
  have hassoc : l :: p ++ [a, b] = l :: p ++ [a] ++ [b] := by simp
  rw [onAir, hearMany_append, hearMany_taken hf hp ha (by omega) hl' h, hassoc]
  change (hear _ true a).hear true b = _
  rw [hear_firstCheck hl hroom, hear_secondCheck hroom']

/-! ### A refused frame -/

theorem hear_of_waiting (hf : c.receiver = some f) (hp : f.phase = .waiting) (b : UInt8) :
    c.hear true b = carryOut { c with receiver := some f.passOver.1 } f.passOver.2 := by
  have hstep : f.hear b c.registers.autoFcs = f.passOver := by
    unfold ReceiveFramer.hear
    rw [hp]
  have hd : f.phase ≠ .done := by simp [hp]
  simp only [hear_of_carrier hf hd, hstep]

/-- The rest of a refused frame passes. -/
theorem hearMany_of_waiting (hf : c.receiver = some f) (hp : f.phase = .waiting) {r : List UInt8}
    (hn : f.counter.toNat + r.length + 1 = f.length.toNat) (b : UInt8) :
    c.hearMany (r ++ [b]) = { c with
      receiver := some { f with phase := .scanning, counter := f.length }
      bitErrors := .empty
      owed := none } := by
  induction r generalizing c f with
  | nil =>
    change c.hear true b = _
    rw [hear_of_waiting hf hp, ReceiveFramer.passOver_of_last hn, carryOut_singleton]
    rfl
  | cons x r ih =>
    rw [List.length_cons] at hn
    let g : ReceiveFramer := { f with counter := f.counter + 1 }
    have hmore : f.counter.toNat + 1 < f.length.toNat := by omega
    have hrest : g.counter.toNat + r.length + 1 = g.length.toNat := by
      change (f.counter + 1).toNat + r.length + 1 = f.length.toNat
      rw [ReceiveFramer.toNat_counter_succ (Nat.le_of_lt hmore)]
      omega
    change (c.hear true x).hearMany (r ++ [b]) = _
    rw [hear_of_waiting hf hp, ReceiveFramer.passOver_of_more hmore]
    exact ih (c := { c with receiver := some g }) (f := g) rfl hp hrest

/-- The octet with which the filter refuses the frame. -/
theorem hear_refused {l x : UInt8} {p : List UInt8} (ha : c.registers.autoFcs = true)
    (hl : p.length + 2 < l.toNat) (hl' : l.toNat ≤ 127) {b : UInt8}
    (hk : p.length + 1 ∈ checkOffsets) (h : ¬c.Takes (l :: p ++ [b]) (p.length + 1)) :
    ((c.sifted (l :: p)).holding (.taking l x p) (l :: p)).hear true b =
      (c.noteSequence (FrameFilter.sequenceOf? (l :: p ++ [b]))).holding
        (ReceiveFramer.taking l x (p ++ [b])).reject (l :: p ++ [b]) := by
  let d := (c.sifted (l :: p)).holding (.taking l x (p ++ [b])) (l :: p ++ [b])
  have hsame : c.registers.SameSettings d.registers := c.sameSettings_sifted (l :: p)
  have hstate : d.state = c.state := c.state_sifted (l :: p)
  have hauto : (c.sifted (l :: p)).registers.autoFcs = true := hsame.autoFcs.trans ha
  have hrefuses : ¬d.Takes d.buffer.octets (p.length + 1) :=
    fun ht => h ((takes_congr c _ hstate hsame _).1 ht)
  have h3 : p.length + 1 ≠ 3 := by
    intro h3
    rw [h3] at h
    exact h fun _ => FrameFilter.accepted_check_three _ _
  have hle : (l :: p).length ≤ 13 := (FrameFilter.bounds_of_checkOffset hk).2
  have hlength : (l :: p).length ≠ 3 := h3
  have hnoted := FrameFilter.sequenceOf?_concat hlength b
  rw [hear_taking hauto hl hl']
  simp only [if_pos hk]
  rw [filter_of_refuses d hrefuses, FrameFilter.sequence_check_of_ne _ h3,
    hnoted, ← c.sifted_of_short (l :: p) hle]
  rfl

/-- Whatever the octet at which the filter refuses a frame, the rest of the frame only passes. -/
theorem hearMany_sifted_refused {l x : UInt8} {p r : List UInt8}
    (ha : c.registers.autoFcs = true) (hl : (p ++ r).length + 2 = l.toNat) (hl' : l.toNat ≤ 127)
    (h : ∃ k ∈ checkOffsets, p.length < k ∧ k < (l :: p ++ r).length ∧ ¬c.Takes (l :: p ++ r) k)
    (a b : UInt8) : ∃ g q, g.phase = .scanning ∧ q <+: l :: p ++ r ∧
      ((c.sifted (l :: p)).holding (.taking l x p) (l :: p)).hearMany (r ++ [a, b]) =
        c.dismissed g q := by
  obtain ⟨k, hk, hpk, hkr, hrefuses⟩ := h
  induction r generalizing p with
  | nil =>
    rw [List.append_nil, List.length_cons] at hkr
    omega
  | cons y r ih =>
    have hassoc : l :: p ++ y :: r = l :: (p ++ [y]) ++ r := by simp
    have hlength : (p ++ y :: r).length = p.length + 1 + r.length := by
      rw [List.length_append, List.length_cons]
      omega
    rw [hassoc] at hkr hrefuses ⊢
    rw [List.cons_append (a := y), hearMany_cons]
    by_cases hnow : p.length + 1 ∈ checkOffsets ∧ ¬c.Takes (l :: p ++ [y]) (p.length + 1)
    · let g := (ReceiveFramer.taking l x (p ++ [y])).reject
      have hcounter : g.counter.toNat = p.length + 1 := by
        change (UInt8.ofNat (p ++ [y]).length).toNat = p.length + 1
        rw [List.length_append, List.length_singleton, UInt8.toNat_ofNat']
        omega
      have hrest : g.counter.toNat + (r ++ [a]).length + 1 = g.length.toNat := by
        rw [hcounter, List.length_append, List.length_singleton]
        change _ = l.toNat
        omega
      rw [hear_refused ha (by omega) hl' hnow.1 hnow.2]
      have hpassed := hearMany_of_waiting (f := g)
        (c := (c.noteSequence (FrameFilter.sequenceOf? (l :: p ++ [y]))).holding g (l :: p ++ [y]))
        rfl rfl hrest b
      rw [List.append_assoc] at hpassed
      exact ⟨{ g with phase := .scanning, counter := g.length }, _, rfl,
        List.prefix_append _ _, hpassed⟩
    · have htaken (hm : p.length + 1 ∈ checkOffsets) :
          c.Takes (l :: p ++ [y]) (p.length + 1) := Decidable.not_not.1 fun hn => hnow ⟨hm, hn⟩
      have hlater : p.length + 1 ≠ k := by
        rintro rfl
        refine hrefuses fun hf => ?_
        rw [FrameFilter.check_append r _ (by simp)]
        exact htaken hk hf
      rw [hear_sifted ha (by omega) hl' htaken]
      refine ih (p := p ++ [y]) ?_ ?_ hkr hrefuses
      · rw [List.append_assoc]
        exact hl
      · rw [List.length_append, List.length_singleton]
        omega

/-- A frame that the filter does not let pass is given up at the first offset where it is refused.
When all of it has passed the framer looks for the next one. -/
theorem hearMany_refused (hf : c.receiver = some f)
    (hp : f.phase = .scanning ∨ f.phase = .matched1) (ha : c.registers.autoFcs = true) {l : UInt8}
    {p : List UInt8} (hl : p.length + 2 = l.toNat) (hl' : l.toNat ≤ 127)
    (h : ∃ k ∈ checkOffsets, k < (l :: p).length ∧ ¬c.Takes (l :: p) k) (a b : UInt8) :
    ∃ g q, g.phase = .scanning ∧ q <+: l :: p ∧ c.hearMany (onAir l p a b) =
      (c.announced l).dismissed g q := by
  obtain ⟨k, hk, hlt, hrefuses⟩ := h
  have hsame := c.sameSettings_announced l
  have hauto : (c.announced l).registers.autoFcs = true := hsame.autoFcs.trans ha
  have hpos : 0 < k := (FrameFilter.bounds_of_checkOffset hk).1
  have hstate : (c.announced l).state = c.state := c.state_raise .rxStart
  have hannounced : ¬(c.announced l).Takes (l :: p) k :=
    fun ht => hrefuses ((takes_congr c _ hstate hsame k).1 ht)
  obtain ⟨g, q, hg, hq, hpassed⟩ := hearMany_sifted_refused (c := c.announced l)
    (x := f.firstCheck) (p := []) (r := p) hauto hl hl' ⟨k, hk, hpos, hlt, hannounced⟩ a b
  refine ⟨g, q, hg, hq, ?_⟩
  rw [sifted_length, ← hearMany_opening hf hp ha (by omega) hl', ← hearMany_append] at hpassed
  have hassoc : onAir l p a b = syncHeader ++ [l] ++ (p ++ [a, b]) := by simp [onAir]
  rw [hassoc]
  exact hpassed

end Chip

end Transceiver
