import Mathlib.Data.List.ReduceOption
import Transceiver.Proofs.FrameTransmission

/-!
# Frames on their way out of a queue

A transmitter that takes its frame out of a queue may find it empty. From the sixth octet on air it
asks for octets of the frame, the length first, and what it finds each time, an octet or none,
decides everything that goes on air: `QueuedFrame.wire`. `Underway` has the framer at every place of
such a frame, and `Underway.step` takes it from one place to the next.
-/

namespace Transceiver

namespace QueuedFrame

def frameLength (given : List (Option UInt8)) : UInt8 := given.head?.join.getD 0

def payloadLength (autoFcs : Bool) (l : UInt8) : Nat := if autoFcs then l.toNat - 2 else l.toNat

def duration (autoFcs : Bool) (l : UInt8) : Nat := 6 + if autoFcs then max l.toNat 2 else l.toNat

/-- The frame on air when this was found for its octets, with a zero for every one missing. -/
def wire (autoFcs : Bool) (given : List (Option UInt8)) : List UInt8 :=
  syncHeader ++ given.map (·.getD 0) ++
    if autoFcs then Crc.octets (Crc.ofList (given.tail.map (·.getD 0))) else []

def Asks (autoFcs : Bool) (n : Nat) (given : List (Option UInt8)) : Prop :=
  5 ≤ n ∧ n - 5 ≤ payloadLength autoFcs (frameLength given)

instance (autoFcs : Bool) (n : Nat) (given : List (Option UInt8)) :
    Decidable (Asks autoFcs n given) :=
  inferInstanceAs (Decidable (_ ∧ _))

/-- What has been found behind octet `n` on air, if this was next in the buffer. -/
def answer (autoFcs : Bool) (n : Nat) (given : List (Option UInt8)) (b : Option UInt8) :
    List (Option UInt8) :=
  if Asks autoFcs n given then given ++ [b] else given

variable {autoFcs : Bool} {n : Nat} {given : List (Option UInt8)} {b : Option UInt8}

theorem frameLength_append (h : given ≠ []) (r : List (Option UInt8)) :
    frameLength (given ++ r) = frameLength given := by
  cases given with
  | nil => exact absurd rfl h
  | cons x p => rfl

theorem duration_eq (autoFcs : Bool) (l : UInt8) :
    duration autoFcs l = 6 + payloadLength autoFcs l + if autoFcs then 2 else 0 := by
  unfold duration payloadLength
  cases autoFcs with
  | true =>
    simp only [if_true]
    omega
  | false => rfl

/-- Until the frame is complete, octets are found one after the other. -/
theorem length_answer
    (h : given.length = min (n - 5) (1 + payloadLength autoFcs (frameLength given))) :
    (answer autoFcs n given b).length =
      min (n + 1 - 5) (1 + payloadLength autoFcs (frameLength (answer autoFcs n given b))) := by
  unfold answer
  by_cases hasks : Asks autoFcs n given
  · rw [if_pos hasks, List.length_append, List.length_singleton]
    obtain ⟨hn, hpayload⟩ := hasks
    by_cases hgiven : given = []
    · rw [hgiven] at h ⊢
      simp at h ⊢
      omega
    · rw [frameLength_append hgiven]
      omega
  · rw [if_neg hasks]
    unfold Asks at hasks
    omega

theorem reduceOption_answer (autoFcs : Bool) (n : Nat) (given : List (Option UInt8))
    (b : Option UInt8) : (answer autoFcs n given b).reduceOption =
      given.reduceOption ++ if Asks autoFcs n given then b.toList else [] := by
  unfold answer
  split
  · rw [List.reduceOption_append, List.reduceOption_singleton]
  · rw [List.append_nil]

theorem count_none_answer (autoFcs : Bool) (n : Nat) (given : List (Option UInt8))
    (b : Option UInt8) : (answer autoFcs n given b).count none =
      given.count none + if Asks autoFcs n given ∧ b = none then 1 else 0 := by
  unfold answer
  by_cases hasks : Asks autoFcs n given
  · rw [if_pos hasks, List.count_append]
    cases b <;> simp [hasks]
  · simp [hasks]

theorem length_wire (h : given.length = 1 + payloadLength autoFcs (frameLength given)) :
    (wire autoFcs given).length = duration autoFcs (frameLength given) := by
  rw [duration_eq]
  unfold wire
  cases autoFcs <;> simp [syncHeader, h, Crc.octets] <;> omega

/-- What is on air ahead of the check octets does not depend on what comes later. -/
theorem take_wire (autoFcs : Bool) (r : List (Option UInt8)) (h : n ≤ 5 + given.length) :
    (wire autoFcs (given ++ r)).take n = (wire autoFcs given).take n := by
  have hlength : n ≤ (syncHeader ++ given.map (·.getD 0)).length := by
    simp [syncHeader]
    omega
  unfold wire
  rw [List.map_append, ← List.append_assoc, List.append_assoc,
    List.take_append_of_le_length hlength, List.take_append_of_le_length hlength]

theorem getElem?_wire_concat (h : n = 5 + given.length) :
    (wire autoFcs (given ++ [b]))[n]? = some (b.getD 0) := by
  have hn : n = (syncHeader ++ given.map (·.getD 0)).length := by
    simp [syncHeader]
    omega
  unfold wire
  rw [List.map_append, ← List.append_assoc, List.append_assoc, hn,
    List.getElem?_append_right (Nat.le_refl _), Nat.sub_self]
  rfl

theorem getElem?_wire_checks (k : Nat) (h : n = 5 + given.length + k) :
    (wire true given)[n]? = (Crc.octets (Crc.ofList (given.tail.map (·.getD 0))))[k]? := by
  have hn : n = (syncHeader ++ given.map (·.getD 0)).length + k := by
    simp [syncHeader]
    omega
  unfold wire
  rw [hn, List.getElem?_append_right (Nat.le_add_right _ _), Nat.add_sub_cancel_left]
  rfl

end QueuedFrame

/-! ### The framer -/

theorem TransmitOutput.relay_eq (b : Option UInt8) :
    TransmitOutput.relay b = ⟨b.getD 0, b.isSome, false, b.isNone, false⟩ := by
  cases b <;> rfl

namespace TransmitFramer

open QueuedFrame

inductive Underway (autoFcs : Bool) : Nat → List (Option UInt8) → TransmitFramer → Prop where
  | preamble {n : Nat} {f : TransmitFramer} (phase_eq : f.phase = .preamble)
      (counter_eq : f.counter.toNat = n) (early : n < 4) : Underway autoFcs n [] f
  | delimiter {f : TransmitFramer} (phase_eq : f.phase = .delimiter) : Underway autoFcs 4 [] f
  | length {f : TransmitFramer} (phase_eq : f.phase = .length) : Underway autoFcs 5 [] f
  | inPacket {l : Option UInt8} {p : List (Option UInt8)} {f : TransmitFramer}
      (phase_eq : f.phase = .inPacket) (isAck_eq : f.isAck = false)
      (length_eq : f.length = l.getD 0)
      (payload_eq : f.payload.toNat = payloadLength autoFcs (l.getD 0))
      (counter_eq : f.counter.toNat = p.length)
      (crc_eq : autoFcs = true → f.crc = Crc.ofList (p.map (·.getD 0)))
      (more : p.length < payloadLength autoFcs (l.getD 0)) :
      Underway autoFcs (6 + p.length) (l :: p) f
  | check1 {l : Option UInt8} {p : List (Option UInt8)} {f : TransmitFramer}
      (fcs : autoFcs = true) (phase_eq : f.phase = .check1)
      (crc_eq : f.crc = Crc.ofList (p.map (·.getD 0)))
      (full : p.length = payloadLength autoFcs (l.getD 0)) :
      Underway autoFcs (6 + p.length) (l :: p) f
  | check2 {l : Option UInt8} {p : List (Option UInt8)} {f : TransmitFramer}
      (fcs : autoFcs = true) (phase_eq : f.phase = .check2)
      (crc_eq : f.crc = Crc.ofList (p.map (·.getD 0)))
      (full : p.length = payloadLength autoFcs (l.getD 0)) :
      Underway autoFcs (7 + p.length) (l :: p) f

structure Serves (autoFcs : Bool) (n : Nat) (given : List (Option UInt8)) (b : Option UInt8)
    (r : TransmitFramer × TransmitOutput) : Prop where
  octet_eq : (wire autoFcs (answer autoFcs n given b))[n]? = some r.2.octet
  consumed_eq : r.2.consumed = (decide (Asks autoFcs n given) && b.isSome)
  underrun_eq : r.2.underrun = (decide (Asks autoFcs n given) && b.isNone)
  acknowledged_eq : r.2.acknowledged = false
  goes_on : r.2.finished = false ∧ Underway autoFcs (n + 1) (answer autoFcs n given b) r.1 ∨
    r.2.finished = true ∧ n + 1 = duration autoFcs (frameLength (answer autoFcs n given b))

variable {autoFcs : Bool} {n : Nat} {given : List (Option UInt8)} {b : Option UInt8}
  {f : TransmitFramer} {i : TransmitInput}

theorem Underway.ne_done (h : Underway autoFcs n given f) : f.phase ≠ .done := by
  cases h with
  | preamble phase_eq | delimiter phase_eq | length phase_eq | inPacket phase_eq => simp [phase_eq]
  | check1 _ phase_eq | check2 _ phase_eq => simp [phase_eq]

theorem Underway.length_eq (h : Underway autoFcs n given f) :
    given.length = min (n - 5) (1 + payloadLength autoFcs (frameLength given)) := by
  cases h with
  | preamble | delimiter | length => simp <;> omega
  | inPacket phase_eq isAck_eq length_eq payload_eq counter_eq crc_eq more =>
    simp [frameLength]
    omega
  | check1 fcs phase_eq crc_eq full | check2 fcs phase_eq crc_eq full =>
    simp [frameLength]
    omega

theorem Underway.lt_duration (h : Underway autoFcs n given f) :
    n < duration autoFcs (frameLength given) := by
  rw [duration_eq]
  cases h with
  | preamble | delimiter | length => omega
  | inPacket phase_eq isAck_eq length_eq payload_eq counter_eq crc_eq more =>
    simp [frameLength]
    omega
  | check1 fcs phase_eq crc_eq full | check2 fcs phase_eq crc_eq full =>
    simp [frameLength, fcs] at full ⊢
    omega

theorem answer_of_not_asks (h : ¬Asks autoFcs n given) : answer autoFcs n given b = given :=
  if_neg h

theorem answer_of_asks (h : Asks autoFcs n given) : answer autoFcs n given b = given ++ [b] :=
  if_pos h

/-- An octet of the framer's own, which may be the last. -/
theorem serves_of_send {r : TransmitFramer × TransmitOutput} (hasks : ¬Asks autoFcs n given)
    {x : UInt8} (hx : (wire autoFcs given)[n]? = some x) {last : Bool}
    (hout : r.2 = { TransmitOutput.send x with finished := last })
    (hg : last = false ∧ Underway autoFcs (n + 1) given r.1 ∨
      last = true ∧ n + 1 = duration autoFcs (frameLength given)) :
    Serves autoFcs n given b r := by
  rw [← answer_of_not_asks (b := b) hasks] at hx hg
  constructor <;> rw [hout]
  · exact hx
  · rw [decide_eq_false hasks]
    rfl
  · rw [decide_eq_false hasks]
    rfl
  · rfl
  · exact hg

/-- An octet out of the buffer, which may be the last. -/
theorem serves_of_relay {r : TransmitFramer × TransmitOutput} (hasks : Asks autoFcs n given)
    (hn : n = 5 + given.length) {last : Bool}
    (hout : r.2 = { TransmitOutput.relay b with finished := last })
    (hg : last = false ∧ Underway autoFcs (n + 1) (given ++ [b]) r.1 ∨
      last = true ∧ n + 1 = duration autoFcs (frameLength (given ++ [b]))) :
    Serves autoFcs n given b r := by
  rw [TransmitOutput.relay_eq] at hout
  rw [← answer_of_asks (b := b) hasks] at hg
  have hoctet : (wire autoFcs (given ++ [b]))[n]? = some (b.getD 0) := getElem?_wire_concat hn
  rw [← answer_of_asks (b := b) hasks] at hoctet
  constructor <;> rw [hout]
  · exact hoctet
  · simp [hasks]
  · simp [hasks]
  · exact hg

theorem toNat_payload (l : UInt8) :
    (if autoFcs then withoutFcs l else l).toNat = payloadLength autoFcs l := by
  unfold payloadLength
  split
  · exact ReceiveFramer.toNat_withoutFcs l
  · rfl

theorem serves_length (hf : f.phase = .length) (ha : i.autoFcs = autoFcs) (ho : i.owed = none) :
    Serves autoFcs 5 [] i.next (f.step i) := by
  let l := i.next.getD 0
  let payload : UInt8 := if autoFcs then withoutFcs l else l
  let phase : TransmitPhase :=
    if payload ≠ 0 then .inPacket else if autoFcs then .check1 else .done
  let g : TransmitFramer := ⟨phase, 0, l, payload, 0, false⟩
  have hd : f.phase ≠ .done := by simp [hf]
  have hpayload : payload.toNat = payloadLength autoFcs l := toNat_payload l
  have hadvance : f.advance i = (g, .relay i.next) := by
    unfold advance
    rw [hf]
    simp only [stepLength, ho, ha, TransmitOutput.relay_eq]
    rfl
  have hasks : Asks autoFcs 5 [] := ⟨Nat.le_refl 5, Nat.zero_le _⟩
  rw [step_of_ne_done i hd, hadvance]
  refine serves_of_relay hasks rfl rfl ?_
  by_cases hzero : payload = 0
  · have hnone : payloadLength autoFcs l = 0 := by rw [← hpayload, hzero]; rfl
    cases autoFcs with
    | true =>
      have hphase : g.phase = .check1 := if_neg (not_not.2 hzero)
      refine .inl ⟨by simp [hphase], ?_⟩
      exact .check1 (l := i.next) (p := []) rfl hphase rfl hnone.symm
    | false =>
      have hphase : g.phase = .done := if_neg (not_not.2 hzero)
      refine .inr ⟨by simp [hphase], ?_⟩
      change 6 = 6 + payloadLength false l
      rw [hnone]
  · have hphase : g.phase = .inPacket := if_pos hzero
    have hpos : payload.toNat ≠ 0 := fun h => hzero (UInt8.toNat_inj.1 h)
    refine .inl ⟨by simp [hphase], ?_⟩
    exact .inPacket (l := i.next) (p := []) hphase rfl rfl hpayload rfl (fun _ => rfl)
      (Nat.pos_of_ne_zero (hpayload ▸ hpos))

theorem fst_stepInPacket_of_data (hisAck : f.isAck = false) (ha : i.autoFcs = autoFcs) :
    (f.stepInPacket i).1 = { f with
      counter := f.counter + 1
      crc := if autoFcs then Crc.feed f.crc (i.next.getD 0) else f.crc
      phase := if (if autoFcs then f.payload else f.length) ≤ f.counter + 1 then
        (if autoFcs then .check1 else .done) else .inPacket } := by
  subst ha
  unfold stepInPacket
  rw [hisAck, TransmitOutput.relay_eq]
  cases i.autoFcs <;> rfl

theorem snd_stepInPacket_of_data (hisAck : f.isAck = false) :
    (f.stepInPacket i).2 = .relay i.next := by
  unfold stepInPacket
  rw [hisAck]
  cases i.autoFcs <;> rfl

theorem serves_inPacket {l : Option UInt8} {p : List (Option UInt8)} (hf : f.phase = .inPacket)
    (hisAck : f.isAck = false) (hl : f.length = l.getD 0)
    (hpayload : f.payload.toNat = payloadLength autoFcs (l.getD 0))
    (hcounter : f.counter.toNat = p.length)
    (hcrc : autoFcs = true → f.crc = Crc.ofList (p.map (·.getD 0)))
    (hmore : p.length < payloadLength autoFcs (l.getD 0)) (ha : i.autoFcs = autoFcs) :
    Serves autoFcs (6 + p.length) (l :: p) i.next (f.step i) := by
  have hd : f.phase ≠ .done := by simp [hf]
  have hlt := f.payload.toNat_lt
  have hp : (p ++ [i.next]).length = p.length + 1 := by
    rw [List.length_append, List.length_singleton]
  have hnext : (f.counter + 1).toNat = (p ++ [i.next]).length := by
    rw [octet_toNat_succ (by omega), hcounter, hp]
  have hlength : 6 + p.length + 1 = 6 + (p ++ [i.next]).length := by omega
  have hfed : Crc.feed (Crc.ofList (p.map (·.getD 0))) (i.next.getD 0) =
      Crc.ofList ((p ++ [i.next]).map (·.getD 0)) := by
    rw [List.map_append, ← Crc.ofList_concat]
    rfl
  have hasks : Asks autoFcs (6 + p.length) (l :: p) := by
    refine ⟨by omega, ?_⟩
    change 6 + p.length - 5 ≤ payloadLength autoFcs (l.getD 0)
    omega
  have hbound : (if autoFcs then f.payload else f.length) ≤ f.counter + 1 ↔
      payloadLength autoFcs (l.getD 0) ≤ (p ++ [i.next]).length := by
    rw [UInt8.le_iff_toNat_le, hnext, ← hpayload]
    cases autoFcs with
    | true => exact Iff.rfl
    | false => rw [hpayload, hl]; exact Iff.rfl
  have hadvance : f.advance i = f.stepInPacket i := by
    unfold advance
    rw [hf]
  rw [step_of_ne_done i hd, hadvance, fst_stepInPacket_of_data hisAck ha,
    snd_stepInPacket_of_data hisAck]
  refine serves_of_relay hasks (by rw [List.length_cons]; omega) rfl ?_
  rw [hlength, List.cons_append]
  by_cases hend : (if autoFcs then f.payload else f.length) ≤ f.counter + 1
  · have hfull := hbound.1 hend
    cases autoFcs with
    | true =>
      refine .inl ⟨by rw [if_pos hend]; rfl, .check1 rfl (if_pos hend) ?_ (by omega)⟩
      rw [← hfed, ← hcrc rfl]
      rfl
    | false =>
      refine .inr ⟨by rw [if_pos hend]; rfl, ?_⟩
      change 6 + (p ++ [i.next]).length = 6 + payloadLength false (l.getD 0)
      omega
  · refine .inl ⟨by simp [hend], ?_⟩
    have hroom := Nat.not_le.1 (mt hbound.2 hend)
    refine .inPacket (if_neg hend) hisAck hl hpayload hnext (fun h => ?_) hroom
    rw [← hfed, ← hcrc h, h]
    rfl

theorem Serves.le_duration {r : TransmitFramer × TransmitOutput}
    (h : Serves autoFcs n given b r) :
    n + 1 ≤ duration autoFcs (frameLength (answer autoFcs n given b)) := by
  rcases h.goes_on with ⟨-, hg⟩ | ⟨-, he⟩
  · exact Nat.le_of_lt hg.lt_duration
  · exact Nat.le_of_eq he

theorem Serves.finished_eq {r : TransmitFramer × TransmitOutput}
    (h : Serves autoFcs n given b r) :
    r.2.finished = decide (duration autoFcs (frameLength (answer autoFcs n given b)) ≤ n + 1) := by
  rcases h.goes_on with ⟨hf, hg⟩ | ⟨hf, he⟩
  · rw [hf, decide_eq_false (Nat.not_le.2 hg.lt_duration)]
  · rw [hf, decide_eq_true (Nat.le_of_eq he.symm)]

theorem not_asks_of_opening (h : n < 5) : ¬Asks autoFcs n given := fun hasks =>
  absurd hasks.1 (Nat.not_le.2 h)

theorem not_asks_of_complete {l : Option UInt8} {p : List (Option UInt8)}
    (hn : 6 + p.length ≤ n) (hp : p.length = payloadLength autoFcs (l.getD 0)) :
    ¬Asks autoFcs n (l :: p) := by
  rintro ⟨-, hasks⟩
  change n - 5 ≤ payloadLength autoFcs (l.getD 0) at hasks
  omega

theorem serves_preamble (hp : f.phase = .preamble) (hcounter : f.counter.toNat = n)
    (hn : n < 4) : Serves autoFcs n [] i.next (f.step i) := by
  obtain ⟨hnext, hphase⟩ := stepPreamble_of_counter hcounter hn
  have hg : Underway autoFcs (n + 1) [] f.stepPreamble.1 := by
    by_cases h3 : n = 3
    · rw [if_pos h3] at hphase
      rw [h3]
      exact .delimiter hphase
    · rw [if_neg h3] at hphase
      exact .preamble hphase hnext (by omega)
  have hstep : f.step i = (f.stepPreamble.1, .send 0) := by
    refine step_of_advance (by simp [hp]) ?_ hg.ne_done rfl
    unfold advance
    rw [hp]
    rfl
  rw [hstep]
  refine serves_of_send (not_asks_of_opening (by omega)) ?_ rfl (.inl ⟨rfl, hg⟩)
  have hzero : n = 0 ∨ n = 1 ∨ n = 2 ∨ n = 3 := by omega
  rcases hzero with rfl | rfl | rfl | rfl <;> rfl

/-- The framer goes through the frame, and nothing but what it finds in the buffer matters. -/
theorem Underway.step (h : Underway autoFcs n given f) (ha : i.autoFcs = autoFcs)
    (ho : i.owed = none) : Serves autoFcs n given i.next (f.step i) := by
  have hd := h.ne_done
  cases h with
  | preamble phase_eq counter_eq early => exact serves_preamble phase_eq counter_eq early
  | delimiter phase_eq =>
    have hstep : f.step i = ({ f with phase := .length }, .send startDelimiter) := by
      refine step_of_advance hd ?_ (by simp) rfl
      unfold advance
      rw [phase_eq]
    rw [hstep]
    exact serves_of_send (not_asks_of_opening (by omega)) rfl rfl (.inl ⟨rfl, .length rfl⟩)
  | length phase_eq => exact serves_length phase_eq ha ho
  | inPacket phase_eq isAck_eq length_eq payload_eq counter_eq crc_eq more =>
    exact serves_inPacket phase_eq isAck_eq length_eq payload_eq counter_eq crc_eq more ha
  | @check1 l p _ fcs phase_eq crc_eq full =>
    subst fcs
    have hstep : f.step i = ({ f with phase := .check2 }, .send (Crc.first f.crc)) := by
      refine step_of_advance hd ?_ (by simp) rfl
      unfold advance
      rw [phase_eq]
    rw [hstep]
    have hplace : 6 + p.length + 1 = 7 + p.length := by omega
    refine serves_of_send (not_asks_of_complete (Nat.le_refl _) full) ?_ rfl (.inl ⟨rfl, ?_⟩)
    · rw [getElem?_wire_checks 0 (by rw [List.length_cons]; omega), crc_eq]
      rfl
    · rw [hplace]
      exact .check2 rfl rfl crc_eq full
  | @check2 l p _ fcs phase_eq crc_eq full =>
    subst fcs
    have hstep : f.step i = ({ f with phase := .done },
        { TransmitOutput.send (Crc.second f.crc) with finished := true }) := by
      rw [step_of_ne_done i hd]
      unfold advance
      rw [phase_eq]
      rfl
    rw [hstep]
    refine serves_of_send (not_asks_of_complete (by omega) full) ?_ rfl (.inr ⟨rfl, ?_⟩)
    · rw [getElem?_wire_checks 1 (by rw [List.length_cons]; omega), crc_eq]
      rfl
    · rw [duration_eq]
      change 7 + p.length + 1 = 6 + payloadLength true (l.getD 0) + 2
      omega

end TransmitFramer

end Transceiver
