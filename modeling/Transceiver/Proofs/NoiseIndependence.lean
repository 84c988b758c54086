import Transceiver.Proofs.EffectOrder
import Transceiver.Proofs.NoiseTolerance

/-!
# Independence of the noise

Chips that differ in nothing but their noise go on to differ in nothing else, whatever happens to
them short of a transmitter that is started while it runs: the link quality of the last frame is the
only trace (`noise_stays_in_link_quality`). `Alike` relates two such chips. One operation keeps them
alike (`Alike.after`), be it one that takes the octet behind the veil along, or the last octet of a
frame, with which a new one comes; and so does a whole history, with other bit errors in it for each
of the two (`Alike.run`).
-/

namespace Transceiver

def Operation.isNoise : Operation → Bool
  | .recordBitErrors _ _ | .takePacketErrorRate => true
  | _ => false

namespace Chip

variable {G : Type} [RandomWords G] {c d : Chip G} {g : G} {q : Nat} {place : Option Nat}

/-! ### Frames that are complete -/

def Completes (c : Chip G) (op : Operation) : Prop := c.InFrame ∧ (c.after op).InPhase .done

structure Grades (c : Chip G) (op : Operation) (q : Nat) : Prop where
  inPhase : c.InPhase .check2
  done : (c.after op).InPhase .done
  length_eq : (c.after op).buffer.octets.length = q + 1

def Checks (c : Chip G) (op : Operation) : Prop := c.InPhase .check2 ∧ ∃ b, op = .receive true b

/-! ### One operation -/

/-- What is noise and still in the buffer remains where it is tolerated. -/
theorem Guarded.after (h : c.Guarded place) (hc : c.Reachable) {op : Operation}
    (he : op.emptiesFrame = false) (hs : op.startsTransmitter = true → c.transmitter = none) :
    (c.after op).Guarded (place.filter (· < (c.after op).buffer.octets.length)) := by
  refine ⟨h.holdsFrame.after hc he, fun q hq => ?_⟩
  obtain ⟨hq, hlt⟩ := Option.mem_filter_iff.1 hq
  exact (h.tolerates q hq).after hc hs (of_decide_eq_true hlt)

omit [RandomWords G] in
/-- Inside of a frame nothing is veiled, and outside of frames nothing is stored. -/
theorem spares_step (h : c.Guarded place) {f : ReceiveFramer} (hf : c.receiver = some f)
    {carrier : Bool} {b : UInt8} (hn : ¬c.Checks (.receive carrier b)) :
    ∀ x ∈ (f.step ⟨b, carrier, c.registers.autoFcs⟩).2.effects, Spares place x := by
  intro x hx
  by_cases hin : f.InFrame
  · have hplace : place = none := by
      refine Option.eq_none_iff_forall_not_mem.2 fun q hq => ?_
      exact (h.tolerates q hq).outside ⟨f, hf, hin⟩
    subst hplace
    have hroutine := ReceiveFramer.isRoutine_of_step (i := ⟨b, carrier, c.registers.autoFcs⟩)
      hin.ne_done (fun hp => eq_false_of_ne_true fun hcarrier =>
        hn ⟨⟨f, hf, hp⟩, b, by rw [← hcarrier]⟩) x hx
    cases x with
    | frameComplete v =>
      cases v with
      | none => rfl
      | some valid => exact hroutine.elim
    | frameStart l => exact nofun
    | _ => trivial
  · have hframe := (ReceiveFramer.not_isOfFrame_step
      (i := ⟨b, carrier, c.registers.autoFcs⟩) fun h => absurd h hin).2 x hx
    cases x with
    | frameStart l => exact fun q hq => Nat.le_of_succ_le (h.tolerates q hq).two_le
    | push | filterCheck | frameComplete => exact absurd trivial hframe
    | _ => trivial

/-- Noise in the chip remains behind the veil, unless a frame is graded. -/
theorem veil_after (h : c.Guarded place) {op : Operation} (he : op.emptiesFrame = false)
    (hn : ¬c.Checks op) :
    ((c.veil g place).after op).veil g place = (c.after op).veil g place := by
  have hlt (q : Nat) (hq : q ∈ place) : q < c.buffer.octets.length := (h.tolerates q hq).lt_length
  have hcommutes (hop : (c.veil g place).after op = (c.after op).veil g place) :
      ((c.veil g place).after op).veil g place = (c.after op).veil g place := by
    rw [hop, veil_veil]
  have hwritten {f f' : FrameBuffer} (hf : f.veil place = f'.veil place) :
      veil { c.veil g place with buffer := f } g place = veil { c with buffer := f' } g place := by
    simp only [veil, hf]
  cases op with
  | readRegister | setDataWaiting | setRssi | setTime => exact hcommutes rfl
  | recordBitErrors | takePacketErrorRate => exact veil_veil c g place
  | writeRegister r v => exact hcommutes (c.veil_writeRegister g place r v)
  | command code => exact hcommutes (c.veil_execute g place _)
  | sleepPin level => exact hcommutes (c.veil_sleepPin g place level)
  | reset => exact hcommutes (c.veil_reset g place)
  | advance now => exact hcommutes (c.veil_advance g place now)
  | popFrame => exact hcommutes (c.veil_popFrame g place)
  | pushFrame b =>
    have hpush : ((c.buffer.veil place).push b).2 = (c.buffer.push b).2.veil place :=
      congrArg Prod.snd (c.buffer.veil_push hlt b)
    exact hwritten (hpush ▸ FrameBuffer.veil_veil _ place)
  | uploadFrame index b => exact hwritten (c.buffer.veil_upload hlt index b)
  | pokeFrame index b => exact hwritten (c.buffer.veil_poke hlt index b)
  | transmit =>
    exact hcommutes (congrArg Prod.snd (c.veil_transmit g fun q hq => (h.tolerates q hq).sendsOwn))
  | receive carrier b =>
    let e := c.advance c.surroundings.now
    have hnow := c.sameFrame_advance c.surroundings.now
    have hguarded : e.Guarded place :=
      h.congr (c.activity_advance _) (congrArg List.length hnow.octets_eq)
    have hchecks : ¬e.Checks (.receive carrier b) := by
      rintro ⟨⟨f, hf, hp⟩, hb⟩
      exact hn ⟨⟨f, hnow.receiver_eq.symm.trans hf, hp⟩, hb⟩
    refine hcommutes ?_
    change ((c.veil g place).receive carrier b).2 = (c.receive carrier b).2.veil g place
    rw [snd_receive, snd_receive,
      ← e.veil_hear g fun f hf => spares_step hguarded hf hchecks, ← veil_advance]
    rfl
  | clearFrame | prepareFrame => cases he

/-- The last octet of a frame that is checked is stored before the frame is complete. -/
theorem hear_check2_of_room {f : ReceiveFramer} (hf : c.receiver = some f)
    (hp : f.phase = .check2) (hroom : c.buffer.octets.length < FrameBuffer.capacity) (b : UInt8) :
    c.hear true b = completeChecked { c with
      receiver := some { f with phase := .done }
      buffer := { c.buffer with octets := c.buffer.octets ++ [b] } }
      (Crc.accepts f.crc f.firstCheck b) := by
  let done : Chip G := { c with receiver := some { f with phase := .done } }
  have hstored := storeOctet_of_room (c := done) (b := b) hroom
  rw [hear_of_some hf, ReceiveFramer.step_of_check2 hp rfl]
  simp only [carryOut, apply, hstored, done]

theorem hear_check2_of_full {f : ReceiveFramer} (hf : c.receiver = some f)
    (hp : f.phase = .check2) (hfull : ¬c.buffer.octets.length < FrameBuffer.capacity) (b : UInt8) :
    c.hear true b =
      { c with receiver := some (ReceiveFramer.overflow { f with phase := .done }) } := by
  let done : Chip G := { c with receiver := some { f with phase := .done } }
  have hstored := storeOctet_of_full (c := done) (b := b) hfull
  rw [hear_of_some hf, ReceiveFramer.step_of_check2 hp rfl]
  simp only [carryOut, apply, hstored, done]
  rfl

theorem veil_hear_check2 {f : ReceiveFramer} (hf : c.receiver = some f) (hp : f.phase = .check2)
    (h : 2 ≤ c.buffer.octets.length) (b : UInt8) :
    ((c.veil g none).hear true b).veil g (some c.buffer.octets.length) =
      (c.hear true b).veil g (some c.buffer.octets.length) := by
  have hv : (c.veil g none).receiver = some f := hf
  by_cases hroom : c.buffer.octets.length < FrameBuffer.capacity
  · let stored : Chip G := { c with
      receiver := some { f with phase := .done }
      buffer := { c.buffer with octets := c.buffer.octets ++ [b] } }
    have hlength : stored.buffer.octets.length = c.buffer.octets.length + 1 := by simp [stored]
    have hcompleted := stored.veil_completeChecked g (Crc.accepts f.crc f.firstCheck b) (by omega)
    rw [hear_check2_of_room hf hp hroom, hear_check2_of_room hv hp hroom]
    rwa [hlength] at hcompleted
  · rw [hear_check2_of_full hf hp hroom, hear_check2_of_full hv hp hroom]
    rfl

/-- If the last octet is stored, then the link quality stands in its place. -/
theorem hear_check2_of_lt {f : ReceiveFramer} (hf : c.receiver = some f) (hp : f.phase = .check2)
    {b : UInt8} (h : c.buffer.octets.length < (c.hear true b).buffer.octets.length) :
    (c.hear true b).InPhase .done ∧
      (c.hear true b).buffer.octets.length = c.buffer.octets.length + 1 := by
  by_cases hroom : c.buffer.octets.length < FrameBuffer.capacity
  · let stored : Chip G := { c with
      receiver := some { f with phase := .done }
      buffer := { c.buffer with octets := c.buffer.octets ++ [b] } }
    obtain ⟨q, -, hq⟩ := buffer_storeLinkQuality (c := stored) rfl hroom
      (Crc.accepts f.crc f.firstCheck b)
    rw [hear_check2_of_room hf hp hroom, completeChecked_eq, raise_eq]
    refine ⟨⟨_, rfl, rfl⟩, ?_⟩
    change ((stored.storeLinkQuality _).buffer).octets.length = _
    rw [hq]
    simp
  · rw [hear_check2_of_full hf hp hroom] at h
    exact absurd h (Nat.lt_irrefl _)

theorem veil_receive_check2 {f : ReceiveFramer} (hf : c.receiver = some f)
    (hp : f.phase = .check2) (h : 2 ≤ c.buffer.octets.length) (b : UInt8) :
    ((c.veil g none).receive true b).2.veil g (some c.buffer.octets.length) =
      (c.receive true b).2.veil g (some c.buffer.octets.length) := by
  let e := c.advance c.surroundings.now
  have hnow := c.sameFrame_advance c.surroundings.now
  have hlength : e.buffer.octets.length = c.buffer.octets.length :=
    congrArg List.length hnow.octets_eq
  have hveil : (c.veil g none).advance (c.veil g none).surroundings.now = e.veil g none :=
    c.veil_advance g none c.surroundings.now
  rw [snd_receive, snd_receive, hveil, ← hlength]
  exact veil_hear_check2 (hnow.receiver_eq.trans hf) hp (hlength ▸ h) b

omit [RandomWords G] in
/-- In front of the last check octet there are the length and the first one. -/
theorem Guarded.check2 (h : c.Guarded place) {f : ReceiveFramer} (hf : c.receiver = some f)
    (hp : f.phase = .check2) : place = none ∧ 2 ≤ c.buffer.octets.length := by
  have hin : f.InFrame := .inr (.inr hp)
  refine ⟨Option.eq_none_iff_forall_not_mem.2 fun q hq => ?_, ?_⟩
  · exact (h.tolerates q hq).outside ⟨f, hf, hin⟩
  · have hlength := h.holdsFrame f hf hin
    rwa [if_pos hp] at hlength

/-- A frame that is graded is over, and nothing but an acknowledgement is to be sent. -/
theorem Guarded.grades (h : c.Guarded place) (hc : c.Reachable) {f : ReceiveFramer}
    (hf : c.receiver = some f) (hp : f.phase = .check2) {b : UInt8}
    (hlt : c.buffer.octets.length < (c.receive true b).2.buffer.octets.length) :
    c.Grades (.receive true b) c.buffer.octets.length ∧
      (c.receive true b).2.Tolerates c.buffer.octets.length := by
  have hnow := c.sameFrame_advance c.surroundings.now
  have hcheck := hear_check2_of_lt (c := c.advance c.surroundings.now) (b := b)
    (hnow.receiver_eq.trans hf) hp
  rw [← snd_receive, hnow.octets_eq] at hcheck
  obtain ⟨hdone, hlength⟩ := hcheck hlt
  refine ⟨⟨⟨f, hf, hp⟩, hdone, hlength⟩, (h.check2 hf hp).2, hlt, ?_, ?_⟩
  · obtain ⟨f', hf', hp'⟩ := hdone
    rintro ⟨g', hg', hin⟩
    cases hf'.symm.trans hg'
    exact hin.ne_done hp'
  · have hsilent : c.activity.SendsOwn :=
      Activity.sendsOwn_of_none (hc.orderly.transmitter_eq_none hf)
    exact (heard_receive c true b).sendsOwn hc.orderly hsilent

/-! ### Two chips -/

/-- Two chips that differ in nothing but noise, of which the first is reachable. -/
structure Alike (g : G) (place : Option Nat) (c d : Chip G) : Prop where
  reachable : c.Reachable
  guarded : c.Guarded place
  veil_eq : d.veil g place = c.veil g place

theorem Alike.activity_eq (h : Alike g place c d) : d.activity = c.activity :=
  congrArg (fun e => e.activity) h.veil_eq

theorem Alike.length_eq (h : Alike g place c d) :
    d.buffer.octets.length = c.buffer.octets.length := c.length_eq_of_veil g place h.veil_eq

theorem Alike.receiver_eq (h : Alike g place c d) : d.receiver = c.receiver :=
  congrArg Activity.receiver h.activity_eq

/-- With a frame that is graded new noise comes into the buffer, in place of the last octet. -/
theorem Alike.grade (h : Alike g place c d) {f : ReceiveFramer} (hf : c.receiver = some f)
    (hp : f.phase = .check2) (b : UInt8) :
    ∃ place', Alike g place' (c.receive true b).2 (d.receive true b).2 ∧
      (place' = none ∨ ∃ q, place' = some q ∧ c.Grades (.receive true b) q) := by
  obtain ⟨rfl, htwo⟩ := h.guarded.check2 hf hp
  have hveil : (d.receive true b).2.veil g (some c.buffer.octets.length) =
      (c.receive true b).2.veil g (some c.buffer.octets.length) := by
    have hd := veil_receive_check2 (g := g) (h.receiver_eq.trans hf) hp (h.length_eq ▸ htwo) b
    rw [h.length_eq, h.veil_eq, veil_receive_check2 hf hp htwo] at hd
    exact hd.symm
  have hreceive : (Operation.receive true b).emptiesFrame = false := rfl
  have hholds : (c.receive true b).2.HoldsFrame :=
    h.guarded.holdsFrame.after h.reachable hreceive
  have hgrades := h.guarded.grades h.reachable hf hp (b := b)
  refine ⟨_, ⟨h.reachable.after (.receive true b), ⟨hholds, ?_⟩,
    (c.receive true b).2.veil_filter_congr g _ hveil⟩, ?_⟩
  · intro q hq
    obtain ⟨hq, hlt⟩ := Option.mem_filter_iff.1 hq
    cases hq
    exact (hgrades (of_decide_eq_true hlt)).2
  · by_cases hlt : c.buffer.octets.length < (c.receive true b).2.buffer.octets.length
    · rw [Option.filter_some, if_pos (decide_eq_true hlt)]
      exact .inr ⟨_, rfl, (hgrades hlt).1⟩
    · rw [Option.filter_some, if_neg (by simpa using hlt)]
      exact .inl rfl

/-- With any other operation the noise remains where it is, as long as that place is there. -/
theorem Alike.keep (h : Alike g place c d) {op : Operation} (he : op.emptiesFrame = false)
    (hs : op.startsTransmitter = true → c.transmitter = none) (hn : ¬c.Checks op) :
    ∃ place', Alike g place' (c.after op) (d.after op) ∧
      (place' = none ∨ place' = place ∧ ¬c.Completes op) := by
  have hdn : ¬d.Checks op := by
    rintro ⟨⟨f, hf, hp⟩, hop⟩
    exact hn ⟨⟨f, h.receiver_eq.symm.trans hf, hp⟩, hop⟩
  have hveil : (d.after op).veil g place = (c.after op).veil g place := by
    have hd := h.guarded.congr h.activity_eq h.length_eq
    rw [← veil_after hd he hdn, h.veil_eq, veil_after h.guarded he hn]
  refine ⟨_, ⟨h.reachable.after op, h.guarded.after h.reachable he hs,
    (c.after op).veil_filter_congr g place hveil⟩, ?_⟩
  cases place with
  | none => exact .inl rfl
  | some q =>
    have hidle : ¬c.Completes op := fun hc => (h.guarded.tolerates q rfl).outside hc.1
    by_cases hlt : q < (c.after op).buffer.octets.length
    · rw [Option.filter_some, if_pos (decide_eq_true hlt)]
      exact .inr ⟨rfl, hidle⟩
    · rw [Option.filter_some, if_neg (by simpa using hlt)]
      exact .inl rfl

/-- The same operation keeps two chips alike. What noise there is in the buffer was there before
and no frame has become complete, or it is the link quality of one that has. -/
theorem Alike.after (h : Alike g place c d) {op : Operation} (he : op.emptiesFrame = false)
    (hs : op.startsTransmitter = true → c.transmitter = none) :
    ∃ place', Alike g place' (c.after op) (d.after op) ∧ (place' = none ∨
      place' = place ∧ ¬c.Completes op ∨ ∃ q, place' = some q ∧ c.Grades op q) := by
  by_cases hn : c.Checks op
  · obtain ⟨⟨f, hf, hp⟩, b, rfl⟩ := hn
    obtain ⟨place', halike, hplace⟩ := h.grade hf hp b
    exact ⟨place', halike, hplace.imp_right .inr⟩
  · obtain ⟨place', halike, hplace⟩ := h.keep he hs hn
    exact ⟨place', halike, hplace.imp_right .inl⟩

/-! ### Histories -/

def CompletesNone (c : Chip G) : List Operation → Prop
  | [] => True
  | op :: ops => ¬c.Completes op ∧ (c.after op).CompletesNone ops

/-- The last frame that became complete along the history had its check octets looked at, and its
link quality is at this place. -/
def QualityAt (c : Chip G) (ops : List Operation) (q : Nat) : Prop :=
  ∃ earlier op later, ops = earlier ++ op :: later ∧ (c.run earlier).Grades op q ∧
    (c.run (earlier ++ [op])).CompletesNone later

/-- What noise there is in the buffer was there before and no frame has become complete, or it is
the link quality of the last one that has. -/
def Traces (c : Chip G) (ops : List Operation) (place place' : Option Nat) : Prop :=
  place' = none ∨ place' = place ∧ c.CompletesNone ops ∨ ∃ q, place' = some q ∧ c.QualityAt ops q

theorem Grades.qualityAt {op : Operation} {ops : List Operation} (h : c.Grades op q)
    (hops : (c.after op).CompletesNone ops) : c.QualityAt (op :: ops) q :=
  ⟨[], op, ops, rfl, h, hops⟩

theorem QualityAt.cons {op : Operation} {ops : List Operation} (h : (c.after op).QualityAt ops q) :
    c.QualityAt (op :: ops) q := by
  obtain ⟨earlier, x, later, rfl, hx, hlater⟩ := h
  exact ⟨op :: earlier, x, later, rfl, hx, hlater⟩

theorem traces_cons {op : Operation} {ops : List Operation} {place₁ place' : Option Nat}
    (h : place₁ = none ∨ place₁ = place ∧ ¬c.Completes op ∨ ∃ q, place₁ = some q ∧ c.Grades op q)
    (hops : (c.after op).Traces ops place₁ place') : c.Traces (op :: ops) place place' := by
  rcases hops with hnone | ⟨rfl, hidle⟩ | ⟨q, hq, hquality⟩
  · exact .inl hnone
  · rcases h with hnone | ⟨rfl, hop⟩ | ⟨q, hq, hop⟩
    · exact .inl hnone
    · exact .inr (.inl ⟨rfl, hop, hidle⟩)
    · exact .inr (.inr ⟨q, hq, hop.qualityAt hidle⟩)
  · exact .inr (.inr ⟨q, hq, hquality.cons⟩)

theorem holdsFrame_run (hc : c.Reachable) (h : c.HoldsFrame) {ops : List Operation}
    (hops : ∀ op ∈ ops, op.emptiesFrame = false) : (c.run ops).HoldsFrame := by
  induction ops generalizing c with
  | nil => exact h
  | cons op ops ih =>
    exact ih (hc.after op) (h.after hc (hops op List.mem_cons_self))
      fun x hx => hops x (List.mem_cons_of_mem op hx)

theorem Alike.sent_eq (h : Alike g place c d) (op : Operation) : d.sent [op] = c.sent [op] := by
  cases op with
  | transmit =>
    have hd := h.guarded.congr h.activity_eq h.length_eq
    have hsent : d.transmit.1 = c.transmit.1 := by
      have hc := c.veil_transmit g fun q hq => (h.guarded.tolerates q hq).sendsOwn
      have hd := d.veil_transmit g fun q hq => (hd.tolerates q hq).sendsOwn
      rw [h.veil_eq, hc] at hd
      exact (congrArg Prod.fst hd).symm
    simp only [sent, hsent]
  | _ => rfl

/-- Noise leaves everything behind the veil alone. -/
theorem veil_noise (c : Chip G) (g : G) (place : Option Nat) {op : Operation}
    (h : op.isNoise = true) : (c.after op).veil g place = c.veil g place ∧ c.sent [op] = [] := by
  cases op with
  | recordBitErrors | takePacketErrorRate => exact ⟨rfl, rfl⟩
  | _ => cases h

theorem Alike.noise_left (h : Alike g place c d) {op : Operation} (hop : op.isNoise = true) :
    Alike g place (c.after op) d := by
  have hveil := (c.veil_noise g place hop).1
  refine ⟨h.reachable.after op, ?_, h.veil_eq.trans hveil.symm⟩
  exact h.guarded.congr (congrArg (fun e => e.activity) hveil) (c.length_eq_of_veil g place hveil)

theorem Alike.noise_right (h : Alike g place c d) {ops : List Operation}
    (hops : ∀ op ∈ ops, op.isNoise = true) : Alike g place c (d.run ops) ∧ d.sent ops = [] := by
  induction ops generalizing d with
  | nil => exact ⟨h, rfl⟩
  | cons op ops ih =>
    obtain ⟨hveil, hsent⟩ := d.veil_noise g place (hops op List.mem_cons_self)
    have hnext : Alike g place c (d.after op) := ⟨h.reachable, h.guarded, hveil.trans h.veil_eq⟩
    obtain ⟨halike, hsilent⟩ := ih hnext fun x hx => hops x (List.mem_cons_of_mem op hx)
    refine ⟨halike, ?_⟩
    have happend := d.sent_append [op] ops
    rw [hsent, run_cons, run_nil, hsilent] at happend
    exact happend

/-- Noise completes no frame. -/
theorem not_completes_of_noise {op : Operation} (h : op.isNoise = true) : ¬c.Completes op := by
  rintro ⟨⟨f, hf, hin⟩, f', hf', hp⟩
  have ha : (c.after op).activity = c.activity :=
    congrArg (fun e => e.activity) (c.veil_noise c.generator none h).1
  cases (hf.symm.trans (congrArg Activity.receiver ha).symm).trans hf'
  exact hin.ne_done hp

theorem Alike.run (h : Alike g place c d) {l m : List Operation}
    (hl : ∀ op ∈ l, op.emptiesFrame = false)
    (hs : ∀ i (hi : i < l.length), l[i].startsTransmitter = true →
      (c.run (l.take i)).isTransmitting = false)
    (hm : m.filter (!·.isNoise) = l.filter (!·.isNoise)) :
    ∃ place', Alike g place' (c.run l) (d.run m) ∧ d.sent m = c.sent l ∧
      c.Traces l place place' := by
  induction l generalizing c d m place with
  | nil =>
    have hnoise : ∀ op ∈ m, op.isNoise = true := by
      intro op hop
      simpa using List.filter_eq_nil_iff.1 hm op hop
    obtain ⟨halike, hsent⟩ := h.noise_right hnoise
    exact ⟨place, halike, hsent, .inr (.inl ⟨rfl, trivial⟩)⟩
  | cons op l ih =>
    have hl' : ∀ x ∈ l, x.emptiesFrame = false := fun x hx => hl x (List.mem_cons_of_mem op hx)
    have hs' (i : Nat) (hi : i < l.length) :
        l[i].startsTransmitter = true → ((c.after op).run (l.take i)).isTransmitting = false :=
      hs (i + 1) (Nat.succ_lt_succ hi)
    have hsplit : c.sent (op :: l) = c.sent [op] ++ (c.after op).sent l := c.sent_append [op] l
    by_cases hop : op.isNoise = true
    · rw [List.filter_cons_of_neg (by simpa using hop)] at hm
      obtain ⟨place', halike, hsent, htraces⟩ := ih (h.noise_left hop) hl' hs' hm
      refine ⟨place', halike, ?_,
        traces_cons (.inr (.inl ⟨rfl, not_completes_of_noise hop⟩)) htraces⟩
      rw [hsent, hsplit, (c.veil_noise g place hop).2]
      rfl
    · rw [List.filter_cons_of_pos (by simpa using hop)] at hm
      obtain ⟨noise, m', rfl, hnoise, -, hm'⟩ := List.filter_eq_cons_iff.1 hm
      obtain ⟨hahead, hsilent⟩ := h.noise_right fun x hx => by simpa using hnoise x hx
      have hoff (hstarts : op.startsTransmitter = true) : c.transmitter = none := by
        have hidle : c.isTransmitting = false := hs 0 (Nat.succ_pos _) hstarts
        simpa [isTransmitting] using hidle
      obtain ⟨place₁, hnext, htrace⟩ := hahead.after (hl op List.mem_cons_self) hoff
      obtain ⟨place', halike, hsent, htraces⟩ := ih hnext hl' hs' hm'
      refine ⟨place', ?_, ?_, traces_cons htrace htraces⟩
      · rw [run_append]
        exact halike
      · have hrest := (d.run noise).sent_append [op] m'
        rw [d.sent_append, hsilent, List.nil_append, hsplit, ← hsent, ← hahead.sent_eq op]
        exact hrest

/-- Link quality noise stays in the link quality. Two chips with the same past differ in their
generators and in the statistics of bit errors. From then on the same happens to both, but the
medium may report other bit errors to each of them, and at other times, and the node starts no
transmitter that runs. Then at any moment the chips have sent the same octets, and are the same but
for their generators and statistics, and for the low seven bits of one octet in the frame buffer,
the link quality of the last frame that became complete. -/
theorem noise_stays_in_link_quality (config : Configuration) (now : Instant) (g : G)
    {before : List Operation} (hbefore : ∀ op ∈ before, op.emptiesFrame = false) (g' : G)
    (e' : BitErrors) {l m : List Operation} (hl : ∀ op ∈ l, op.emptiesFrame = false)
    (hm : m.filter (!·.isNoise) = l.filter (!·.isNoise)) :
    let c := (build config now g).run before
    let d : Chip G := { c with generator := g', bitErrors := e' }
    (∀ i (hi : i < l.length), l[i].startsTransmitter = true →
      (c.run (l.take i)).isTransmitting = false) →
    d.sent m = c.sent l ∧
    d.run m = { c.run l with
      generator := (d.run m).generator
      bitErrors := (d.run m).bitErrors
      buffer := (d.run m).buffer } ∧
    ((d.run m).buffer = (c.run l).buffer ∨
      ∃ q, c.QualityAt l q ∧ (c.run l).buffer.SameBut (d.run m).buffer q) := by
  intro c d hs
  have hbuild := reachable_build config now g
  have hholds : c.HoldsFrame :=
    holdsFrame_run hbuild (holdsFrame_of_not_inFrame fun ⟨f, hf, _⟩ => by cases hf) hbefore
  have halike : Alike g none c d := ⟨hbuild.run before, ⟨hholds, nofun⟩, rfl⟩
  obtain ⟨place, hend, hsent, htraces⟩ := halike.run hl hs hm
  have hveil := hend.veil_eq
  refine ⟨hsent, ?_, ?_⟩
  · have hrest := congrArg (fun e : Chip G => { e with
      generator := (d.run m).generator
      bitErrors := (d.run m).bitErrors
      buffer := (d.run m).buffer }) hveil
    exact hrest
  · have hbuffer : (d.run m).buffer.veil place = (c.run l).buffer.veil place :=
      congrArg (fun e => e.buffer) hveil
    rcases htraces with rfl | ⟨rfl, -⟩ | ⟨q, rfl, hq⟩
    · exact .inl hbuffer
    · exact .inl hbuffer
    · exact .inr ⟨q, hq, FrameBuffer.sameBut_of_veil _ hbuffer⟩

/-- A frame that is acknowledged, with bit errors and without. The acknowledgement is the same, and
only the link quality of the frame is left to differ. -/
theorem noise_stays_in_link_quality_of_acknowledged_frame :
    let config : Configuration := ⟨.at86rf231, Vector.replicate 8 0, none, 0⟩
    let before : List Operation := [.command Command.txStart.code]
    let c : Chip Mixer := (build config (Instant.mk 0) (Mixer.mk 0)).run before
    let d : Chip Mixer := { c with generator := Mixer.mk 1, bitErrors := ⟨7, 0.5⟩ }
    let frame : List Operation :=
      [0, 0, 0, 0, 0x7A, 5, 0x21, 0x00, 0x2A, 0xBF, 0xD7, 0].map (.receive true)
    let start : List Operation := [.command Command.trxOff.code, .command Command.txStart.code,
      .command Command.rxAackOn.code]
    let l : List Operation := start ++ frame ++ List.replicate 11 .transmit
    let m : List Operation :=
      start ++ .recordBitErrors 0.125 11 :: frame ++ List.replicate 11 .transmit
    (∀ op ∈ before, op.emptiesFrame = false) ∧ (∀ op ∈ l, op.emptiesFrame = false) ∧
    m.filter (!·.isNoise) = l.filter (!·.isNoise) ∧
    (∀ i (hi : i < l.length), l[i].startsTransmitter = true →
      (c.run (l.take i)).isTransmitting = false) ∧
    d.sent m = c.sent l ∧
    d.sent m =
      [0, 0, 0, 0, 0x7A, 5, 0x02, 0x00, 0x2A] ++ Crc.octets (Crc.ofList [0x02, 0x00, 0x2A]) ∧
    ((d.run m).buffer = (c.run l).buffer ∨
      ∃ q, c.QualityAt l q ∧ (c.run l).buffer.SameBut (d.run m).buffer q) := by
  intro config before c d frame start l m
  have hbefore : ∀ op ∈ before, op.emptiesFrame = false := by
    intro op hop
    rw [List.mem_singleton.1 hop]
    rfl
  have hl : ∀ op ∈ l, op.emptiesFrame = false := by decide
  have hm : m.filter (!·.isNoise) = l.filter (!·.isNoise) := rfl
  have hs : ∀ i (hi : i < l.length), l[i].startsTransmitter = true →
      (c.run (l.take i)).isTransmitting = false := by
    decide +kernel
  have h := noise_stays_in_link_quality config (Instant.mk 0) (Mixer.mk 0) hbefore (Mixer.mk 1)
    ⟨7, 0.5⟩ hl hm hs
  have hsent : c.sent l = [0, 0, 0, 0, 0x7A, 5, 0x02, 0x00, 0x2A] ++
      Crc.octets (Crc.ofList [0x02, 0x00, 0x2A]) := by decide +kernel
  exact ⟨hbefore, hl, hm, hs, h.1, h.1.trans hsent, h.2.2⟩

end Chip

end Transceiver
