import Transceiver.Proofs.AddressRecognition
import Transceiver.Proofs.FrameAnnouncement

/-!
# The destination of an acknowledged frame

The filter looks at a frame while it comes in, at an offset where a field of the destination is
complete, and the chip acts on what it says only if it acknowledges on its own at that very moment.
Whether to acknowledge the frame is decided with its last octet, and the node may give commands in
between. So what an acknowledged frame is known to be depends on the operating states in which its
octets were heard, which `frameStates` collects along a history: `acknowledged_destination` has one
statement for each field.
-/

namespace Transceiver

namespace Activity

variable {a b : Activity}

/-- A framer at work on something was there before. -/
theorem Step.receiver_eq (h : a.Step b) {f : ReceiveFramer} (hf : b.receiver = some f)
    (hp : f.phase ≠ .scanning) : a.receiver = some f := by
  have hexecute (command : Command) (hf : (a.execute command).receiver = some f) :
      a.receiver = some f := by
    have hstarted (hf : a.receiver.getD .start = f) : a.receiver = some f := by
      cases hr : a.receiver with
      | some g =>
        rw [hr] at hf
        exact congrArg some hf
      | none =>
        rw [hr] at hf
        cases hf
        exact absurd rfl hp
    cases command with
    | nop | forcePllOn | txOn => exact hf
    | txStart | forceTrxOff | trxOff | txAretOn => cases hf
    | rxOn | rxAackOn => exact hstarted (Option.some.inj hf)
  cases h with
  | rests => exact hf
  | executes command => exact hexecute command hf
  | seesSleepPin level =>
    obtain ⟨s, code, hb⟩ := a.shifts_sleepPin level
    rw [hb] at hf
    exact hf
  | resets => cases hf
  | transmits i =>
    rcases a.transmit_cases i with ⟨ht, he⟩ | ⟨g, ht, ⟨hg, he⟩ | ⟨hg, he⟩⟩ <;> rw [he] at hf <;>
      exact hf

/-- Something comes to be owed with the second of the check octets. -/
theorem Heard.check2_of_owed (h : a.Heard b) (ha : a.owed = none) (hb : b.owed ≠ none) :
    ∃ f, a.receiver = some f ∧ f.phase = .check2 := by
  cases h with
  | deaf | passes => exact absurd ha hb
  | hears hr hp h =>
    obtain ⟨f, o, v, ho | ho, rfl⟩ := h
    · exact absurd ho hb
    · exact absurd (ho.trans ha) hb
  | schedules hr hp => exact ⟨_, hr, hp⟩
  | turnsAround => exact absurd ha hb

end Activity

/-! ### What the filter says of a field -/

namespace FrameFilter

variable {frame : List UInt8} {node : LocalAddress}

theorem field_of_accepted {own : List UInt8} {n : Nat} (hn : own.length = n)
    (hl : 6 + n ≤ frame.length) (h : addressAccepted frame own = true) :
    (frame.drop 6).take n = own ∨ (frame.drop 6).take n = List.replicate n 0xFF := by
  subst hn
  have hfield : field? frame 6 own.length = some ((frame.drop 6).take own.length) := if_pos hl
  unfold addressAccepted at h
  rw [hfield] at h
  exact reaches_iff.1 h

/-- A destination PAN identifier that is accepted is that of the node or means everyone. -/
theorem pan_of_accepted (hknown : (FrameControl.ofFrame frame).isReserved = false)
    (hpresent : (FrameControl.ofFrame frame).destPanPresent = true) (hl : 6 ≤ frame.length)
    (h : (check frame 5 node).accepted = true) :
    (frame.drop 4).take 2 = node.pan.toList ∨ (frame.drop 4).take 2 = [0xFF, 0xFF] := by
  have hfield : field? frame 4 2 = some ((frame.drop 4).take 2) := if_pos hl
  have hlength : node.pan.toList.length = 2 := node.pan.length_toList
  rw [(accepted_check_of_known node hknown).1, panAccepted, hfield] at h
  simp only [hpresent, if_true] at h
  rw [reaches_iff, hlength] at h
  exact h

theorem short_of_accepted (hknown : (FrameControl.ofFrame frame).isReserved = false)
    (hmode : (FrameControl.ofFrame frame).destMode = .short) (hl : 8 ≤ frame.length)
    (h : (check frame 7 node).accepted = true) :
    (frame.drop 6).take 2 = node.short.toList ∨ (frame.drop 6).take 2 = [0xFF, 0xFF] := by
  rw [(accepted_check_of_known node hknown).2.1, hmode] at h
  exact field_of_accepted node.short.length_toList hl (by simpa using h)

theorem long_of_accepted (hknown : (FrameControl.ofFrame frame).isReserved = false)
    (hmode : (FrameControl.ofFrame frame).destMode = .long) (hl : 14 ≤ frame.length)
    (h : (check frame 13 node).accepted = true) :
    (frame.drop 6).take 8 = node.ieee.toList ∨
      (frame.drop 6).take 8 = List.replicate 8 0xFF := by
  rw [(accepted_check_of_known node hknown).2.2, hmode] at h
  exact field_of_accepted node.ieee.length_toList hl (by simpa using h)

end FrameFilter

namespace Chip

variable {G : Type} {c d : Chip G}

def statesNext (c : Chip G) (states : List OperatingState) (op : Operation) :
    List OperatingState :=
  if ¬c.InFrame then []
  else if op.heard?.isSome then states ++ [c.state]
  else states

variable [RandomWords G]

/-- The operating states in which the octets of the frame coming in have been heard at the end of a
history, if these were the ones at its beginning. -/
def frameStates (c : Chip G) (states : List OperatingState) : List Operation → List OperatingState
  | [] => states
  | op :: ops => (c.after op).frameStates (c.statesNext states op) ops

/-- What is known of a frame that comes in while the node has these addresses: the filter accepts it
at every offset whose octet was heard in `rxAackOn`. -/
structure Attested (c : Chip G) (node : LocalAddress) (states : List OperatingState)
    (s l : UInt8) (p checks : List UInt8) : Prop extends c.Inside s l p checks where
  count : states.length = (p ++ checks).length
  accepted : ∀ k ∈ checkOffsets, k ≤ p.length → states[k - 1]? = some .rxAackOn →
    (FrameFilter.check (l :: p) k node).accepted = true

variable {node : LocalAddress} {states : List OperatingState} {s l : UInt8} {p checks : List UInt8}

/-- An octet inside a frame is stored. The filter does not stand in its way, unless it is one of the
check octets, which the filter does not see. -/
theorem hear_of_inFrame {f : ReceiveFramer} (hf : c.receiver = some f) (hin : f.InFrame)
    {carrier : Bool} {b : UInt8} (hd : (c.hear carrier b).InFrame) :
    let offset := (f.counter + 1).toNat
    (c.hear carrier b).buffer.octets = c.buffer.octets ++ [b] ∧
      (f.phase = .inPacket ∧
          (offset ∈ checkOffsets → c.Takes (c.buffer.octets ++ [b]) offset) ∨
        f.phase = .check1 ∧ ∃ g, (c.hear carrier b).receiver = some g ∧ g.phase = .check2) := by
  intro offset
  let r := f.step ⟨b, carrier, c.registers.autoFcs⟩
  let stored : Chip G := { c with
    receiver := some r.1
    buffer := { c.buffer with octets := c.buffer.octets ++ [b] } }
  obtain ⟨hr, hreceiver⟩ := inFrame_step hf hd
  have hheard : c.hear carrier b = carryOut { c with receiver := some r.1 } r.2.effects :=
    hear_of_some hf b carrier
  rw [hheard] at hd hreceiver ⊢
  rcases ReceiveFramer.step_of_inFrame hin hr with ⟨hp, -, -, heffects⟩ | ⟨hp, hg, heffects⟩
  · rw [heffects] at hd ⊢
    have hstored := (carryOut_push_of_inFrame hd).2
    rw [hstored] at hd ⊢
    by_cases hk : offset ∈ checkOffsets
    · rw [if_pos hk, carryOut_singleton] at hd ⊢
      have hfiltered := receiver_of_filter (c := stored) hd
      exact ⟨congrArg FrameBuffer.octets hfiltered.2.1,
        .inl ⟨hp, fun _ => takes_of_filter (c := stored) hd⟩⟩
    · rw [if_neg hk]
      exact ⟨rfl, .inl ⟨hp, fun h => absurd h hk⟩⟩
  · refine ⟨?_, .inr ⟨hp, r.1, hreceiver, hg⟩⟩
    rw [heffects] at hd ⊢
    rw [(carryOut_push_of_inFrame hd).2]
    rfl

omit [RandomWords G] in
/-- In `rxAackOn` the filter does not stand in the way of what it accepts only. -/
theorem accepted_of_takes {frame : List UInt8} (hnode : c.localAddress = node)
    (hcoordinator : node.isCoordinator = false) (hstate : c.state = .rxAackOn) {n : UInt8} {m : Nat}
    (hn : n.toNat = m) (hk : m + 1 ∈ checkOffsets)
    (h : (n + 1).toNat ∈ checkOffsets → c.Takes frame (n + 1).toNat) :
    (FrameFilter.check frame (m + 1) node).accepted = true := by
  have hle : m + 1 ≤ 13 := (FrameFilter.bounds_of_checkOffset hk).2
  have hoffset : (n + 1).toNat = m + 1 := by
    rw [octet_toNat_succ (by omega), hn]
  have hfilters : c.filters = true :=
    filters_of_state hstate ((congrArg LocalAddress.isCoordinator hnode).trans hcoordinator)
  rw [hoffset] at h
  exact hnode ▸ h hk hfilters

/-- Of a frame about which this is known there is one more octet. -/
theorem Attested.hear (h : c.Attested node states s l p checks) (hnode : c.localAddress = node)
    (hcoordinator : node.isCoordinator = false) {carrier : Bool} {b : UInt8}
    (hd : (c.hear carrier b).InFrame) : ∃ p' checks',
      (c.hear carrier b).Attested node (states ++ [c.state]) s l p' checks' := by
  obtain ⟨f, hf, hpast⟩ := h.framer
  obtain ⟨hstored, hf'⟩ := hear_of_inFrame hf hpast.inFrame hd
  obtain ⟨p', checks', h'⟩ := h.toInside.hear hd
  obtain ⟨hn, rfl⟩ : f.counter.toNat = p.length ∧ checks = [] := by
    rcases hpast with ⟨hchecks, hn, -⟩ | ⟨-, hp⟩
    · exact ⟨hn, hchecks⟩
    · rcases hf' with ⟨hp', -⟩ | ⟨hp', -⟩ <;> cases hp.symm.trans hp'
  have hcount : states.length = p.length := by
    rw [h.count, List.append_nil]
  have hearlier {k : Nat} (hk : k ∈ checkOffsets) (hle : k ≤ p.length)
      (hstate : (states ++ [c.state])[k - 1]? = some .rxAackOn) :
      (FrameFilter.check (l :: p) k node).accepted = true := by
    have hpos : 0 < k := (FrameFilter.bounds_of_checkOffset hk).1
    rw [List.getElem?_append_left (by omega)] at hstate
    exact h.accepted k hk hle hstate
  have hoctets : p' ++ checks' = p ++ [b] := by
    have := h'.octets_eq.symm.trans (hstored.trans (congrArg (· ++ [b]) h.octets_eq))
    simpa using this
  refine ⟨p', checks', h', ?_, ?_⟩
  · rw [hoctets, List.length_append, List.length_append, hcount]
    rfl
  obtain ⟨g, hg, hgpast⟩ := h'.framer
  rcases hgpast with ⟨rfl, -, hgp⟩ | ⟨⟨a, rfl⟩, -⟩
  · rw [List.append_nil] at hoctets
    subst hoctets
    intro k hk hle hstate
    rw [List.length_append, List.length_singleton] at hle
    by_cases hnow : k = p.length + 1
    · subst hnow
      have hlast : p.length + 1 - 1 = states.length := hcount.symm
      rw [hlast, List.getElem?_concat_length] at hstate
      rcases hf' with ⟨-, htakes⟩ | ⟨-, g', hg', hp⟩
      · have haccepted := accepted_of_takes hnode hcoordinator (Option.some.inj hstate) hn hk htakes
        rw [h.octets_eq, List.append_nil] at haccepted
        exact haccepted
      · cases hg.symm.trans hg'
        rcases hgp with hgp | hgp <;> cases hp.symm.trans hgp
    · have hold := hearlier hk (by omega) hstate
      have hlt : k < (l :: p).length := by
        rw [List.length_cons]
        omega
      exact (congrArg Verdict.accepted (FrameFilter.check_append [b] node hlt)).trans hold
  · obtain ⟨rfl, -⟩ := List.append_inj' hoctets rfl
    exact fun k hk hle hstate => hearlier hk hle hstate

omit [RandomWords G] in
theorem Attested.congr (h : c.Attested node states s l p checks) (hd : c.SameFrame d) :
    d.Attested node states s l p checks :=
  ⟨h.toInside.congr hd, h.count, h.accepted⟩

omit [RandomWords G] in
theorem sameSettings_advance (c : Chip G) (now : Instant) :
    c.registers.SameSettings (c.advance now).registers := by
  intro r hr
  refine c.get_advance ?_ now
  rintro rfl
  exact hr (by decide)

/-- Of a frame that begins nothing is known yet. -/
theorem attested_opening (hout : ¬c.InFrame) {carrier : Bool} {b : UInt8}
    (hd : (c.receive carrier b).2.InFrame) :
    ∃ s l, (c.receive carrier b).2.Attested node [] s l [] [] := by
  let now := c.advance c.surroundings.now
  have hnow := c.sameFrame_advance c.surroundings.now
  cases hf : c.receiver with
  | none =>
    obtain ⟨g, hg, -⟩ := hd
    cases (receiver_receive_of_none hf carrier b).symm.trans hg
  | some f =>
    have hf' : now.receiver = some f := hnow.receiver_eq.trans hf
    have hheard := hd
    rw [snd_receive] at hheard
    obtain ⟨l, hl, -⟩ := ReceiveFramer.announced?_of_enters (fun hin => hout ⟨f, hf, hin⟩)
      (.inl (inFrame_step hf' hheard).1)
    obtain ⟨hp, hcarrier, -⟩ := ReceiveFramer.announced?_eq_some.1 hl
    obtain rfl : carrier = true := hcarrier
    refine ⟨c.sequence, b &&& 0x7F, inside_opening hf hp hd, rfl, fun k hk hle => ?_⟩
    exact absurd hle (Nat.not_le.2 (FrameFilter.bounds_of_checkOffset hk).1)

/-- With every operation that leaves the chip inside a frame, what is known of the frame is brought
up to date. -/
theorem attested_after (hc : c.Reachable)
    (h : c.InFrame → ∃ s l p checks, c.Attested node states s l p checks)
    (hnode : c.localAddress = node) (hcoordinator : node.isCoordinator = false) {op : Operation}
    (hw : c.isReceiving = true → op.writesFrame = false) (hd : (c.after op).InFrame) :
    ∃ s l p checks, (c.after op).Attested node (c.statesNext states op) s l p checks := by
  cases hop : op.heard? with
  | none =>
    obtain ⟨f, hg, hgin⟩ := hd
    have hscanning : f.phase ≠ .scanning := by rcases hgin with hp | hp | hp <;> simp [hp]
    have hf : c.receiver = some f := (step_after hop).receiver_eq hg hscanning
    have hin : c.InFrame := ⟨f, hf, hgin⟩
    have hstates : c.statesNext states op = states := by simp [statesNext, hin, hop]
    obtain ⟨s, l, p, checks, hattested⟩ := h hin
    have hreceiving : c.isReceiving = true := Option.isSome_iff_exists.2 ⟨f, hf⟩
    have hon : (c.after op).receiver ≠ none := hg ▸ Option.some_ne_none f
    rw [hstates]
    exact ⟨s, l, p, checks, hattested.congr (sameFrame_after hc hf hop (hw hreceiving) hon)⟩
  | some heard =>
    cases op with
    | receive carrier b =>
      change (c.receive carrier b).2.InFrame at hd
      by_cases hin : c.InFrame
      · have hstates : c.statesNext states (.receive carrier b) = states ++ [c.state] := by
          simp [statesNext, hin, Operation.heard?]
        obtain ⟨s, l, p, checks, hattested⟩ := h hin
        have hnow := c.sameFrame_advance c.surroundings.now
        have hsame := c.sameSettings_advance c.surroundings.now
        have hnode' := (c.localAddress_congr hsame).trans hnode
        have hstate : (c.advance c.surroundings.now).state = c.state :=
          congrArg Activity.state (c.activity_advance _)
        rw [snd_receive] at hd
        obtain ⟨p', checks', h'⟩ := (hattested.congr hnow).hear hnode' hcoordinator hd
        rw [hstate, ← snd_receive] at h'
        rw [hstates]
        exact ⟨s, l, p', checks', h'⟩
      · have hstates : c.statesNext states (.receive carrier b) = [] := if_pos hin
        obtain ⟨s, l, hattested⟩ := attested_opening hin hd
        rw [hstates]
        exact ⟨s, l, [], [], hattested⟩
    | _ => cases hop

theorem attested_run (hc : c.Reachable)
    (h : c.InFrame → ∃ s l p checks, c.Attested node states s l p checks)
    (hcoordinator : node.isCoordinator = false) {ops : List Operation}
    (hnode : c.Throughout (fun d => d.localAddress = node) ops)
    (hw : ∀ i (h : i < ops.length), (c.run (ops.take i)).isReceiving = true →
      ops[i].writesFrame = false) (hd : (c.run ops).InFrame) :
    ∃ s l p checks, (c.run ops).Attested node (c.frameStates states ops) s l p checks := by
  induction ops generalizing c states with
  | nil => exact h hd
  | cons op ops ih =>
    have hnext := attested_after hc h hnode.now hcoordinator (hw 0 (Nat.succ_pos _))
    exact ih (hc.after op) hnext hnode.next (fun i hi => hw (i + 1) (Nat.succ_lt_succ hi)) hd

/-- What is known of a frame when an acknowledgement for it comes to be owed. From the start of the
history on, which is not inside a frame, the addresses of the node stay the same, it does not
coordinate its network, and it does not write to the frame buffer while the receiver is on; other
than that it may give any commands at any time. Each field of the destination that is complete
before the check octets is the node's own or means everyone, if the chip was in `rxAackOn` when it
heard the last octet of that field. Frames of reserved types are known only by their first octet:
they are not acknowledged if that was heard in `rxAackOn`. -/
theorem acknowledged_destination (hc : c.Reachable) (hout : ¬c.InFrame)
    (hcoordinator : c.registers.isCoordinator = false) {ops : List Operation}
    (hnode : c.Throughout (fun d => d.localAddress = c.localAddress) ops)
    (hwrites : ∀ i (h : i < ops.length), (c.run (ops.take i)).isReceiving = true →
      ops[i].writesFrame = false)
    (hn : (c.run ops).owed = none) (carrier : Bool) (b : UInt8) :
    let d := ((c.run ops).receive carrier b).2
    let states := c.frameStates [] ops
    let frame := d.buffer.octets
    let fc := FrameControl.ofFrame frame
    d.owed ≠ none → ∃ l octets check quality, frame = l :: octets ++ [check, quality] ∧
      states.length = octets.length + 1 ∧
      (1 ≤ octets.length → states[0]? = some .rxAackOn → fc.isReserved = false) ∧
      (fc.isReserved = false →
        (fc.destPanPresent = true → 5 ≤ octets.length → states[4]? = some .rxAackOn →
          (frame.drop 4).take 2 = c.localAddress.pan.toList ∨
            (frame.drop 4).take 2 = [0xFF, 0xFF]) ∧
        (fc.destMode = .short → 7 ≤ octets.length → states[6]? = some .rxAackOn →
          (frame.drop 6).take 2 = c.localAddress.short.toList ∨
            (frame.drop 6).take 2 = [0xFF, 0xFF]) ∧
        (fc.destMode = .long → 13 ≤ octets.length → states[12]? = some .rxAackOn →
          (frame.drop 6).take 8 = c.localAddress.ieee.toList ∨
            (frame.drop 6).take 8 = List.replicate 8 0xFF)) := by
  intro d states frame fc ho
  obtain ⟨f, hf, hp⟩ := (heard_receive (c.run ops) carrier b).check2_of_owed hn ho
  have hin : (c.run ops).InFrame := ⟨f, hf, .inr (.inr hp)⟩
  obtain ⟨s, l, p, checks, hattested⟩ := attested_run hc (fun h => absurd h hout)
    hcoordinator hnode hwrites hin
  obtain ⟨a, q, hframe, -⟩ := hattested.toInside.schedules (hc.run ops) ho
  have hcount : states.length = p.length + 1 := by
    obtain ⟨g, hg, hpast⟩ := hattested.framer
    cases hf.symm.trans hg
    rcases hpast with ⟨-, -, hp' | hp'⟩ | ⟨⟨a, rfl⟩, -⟩
    · cases hp.symm.trans hp'
    · cases hp.symm.trans hp'
    · exact hattested.count.trans List.length_append
  have hlength : frame.length = p.length + 3 := by simp [frame, d, hframe]
  have haccepted {k : Nat} (hk : k ∈ checkOffsets) (hle : k ≤ p.length)
      (hstate : states[k - 1]? = some .rxAackOn) :
      (FrameFilter.check frame k c.localAddress).accepted = true := by
    have hlt : k < (l :: p).length := Nat.lt_succ_of_le hle
    have hwhole := FrameFilter.check_append [a, q] c.localAddress hlt
    rw [← hframe] at hwhole
    exact (congrArg Verdict.accepted hwhole).trans (hattested.accepted k hk hle hstate)
  refine ⟨l, p, a, q, hframe, hcount, fun hle hstate => ?_, fun hknown => ⟨?_, ?_, ?_⟩⟩
  · have hfirst := haccepted (k := 1) (by decide) hle hstate
    rw [FrameFilter.accepted_check_one, Bool.not_eq_true'] at hfirst
    exact hfirst
  · intro hpresent hle hstate
    exact FrameFilter.pan_of_accepted hknown hpresent (by omega)
      (haccepted (by decide) hle hstate)
  · intro hmode hle hstate
    exact FrameFilter.short_of_accepted hknown hmode (by omega) (haccepted (by decide) hle hstate)
  · intro hmode hle hstate
    exact FrameFilter.long_of_accepted hknown hmode (by omega) (haccepted (by decide) hle hstate)

/-- A frame for this node. Its payload was heard in another state, which does not matter to its
destination. -/
theorem acknowledged_destination_of_data_frame :
    let config : Configuration := ⟨.at86rf231, Vector.replicate 8 0, none, 0⟩
    let c := Chip.run (.build config (Instant.mk 0) (Mixer.mk 0))
      [.writeRegister .panId 0x34, .writeRegister (Register.panId.plus 1) 0x12,
        .writeRegister .shortAddr 0x01, .writeRegister (Register.shortAddr.plus 1) 0x00]
    let body : List UInt8 := [0x21, 0x08, 0x2A, 0x34, 0x12, 0x01, 0x00]
    let ops : List Operation :=
      .command Command.rxAackOn.code :: (syncHeader ++ 10 :: body).map (.receive true) ++
        [.command Command.txOn.code, .receive true 0x55, .command Command.rxAackOn.code,
          .receive true (Crc.first (Crc.ofList (body ++ [0x55])))]
    let d := ((c.run ops).receive true (Crc.second (Crc.ofList (body ++ [0x55])))).2
    c.frameStates [] ops = List.replicate 7 .rxAackOn ++ [.pllOn, .rxAackOn] ∧
      d.owed = some .plain ∧ c.localAddress.pan.toList = [0x34, 0x12] ∧
      ((d.buffer.octets.drop 4).take 2 = c.localAddress.pan.toList ∨
        (d.buffer.octets.drop 4).take 2 = [0xFF, 0xFF]) ∧
      ((d.buffer.octets.drop 6).take 2 = c.localAddress.short.toList ∨
        (d.buffer.octets.drop 6).take 2 = [0xFF, 0xFF]) := by
  intro config c body ops d
  have hc : c.Reachable := (reachable_build config _ _).run _
  have hstates : c.frameStates [] ops = List.replicate 7 .rxAackOn ++ [.pllOn, .rxAackOn] := by
    decide +kernel
  have ho : d.owed = some .plain := by decide +kernel
  have hnode : c.Throughout (fun d => d.localAddress = c.localAddress) ops := by decide +kernel
  have hwrites : ∀ i (h : i < ops.length), ops[i].writesFrame = false := by decide +kernel
  have howed : d.owed ≠ none := ho ▸ Option.some_ne_none _
  obtain ⟨l, octets, check, quality, -, hcount, hreserved, hfields⟩ :=
    acknowledged_destination hc (by decide +kernel) (by decide +kernel) hnode
      (fun i h _ => hwrites i h) (by decide +kernel) true
      (Crc.second (Crc.ofList (body ++ [0x55]))) howed
  have hd : ((c.run ops).receive true (Crc.second (Crc.ofList (body ++ [0x55])))).2 = d := rfl
  rw [hstates] at hcount hreserved hfields
  rw [hd] at hreserved hfields
  have hlength : octets.length = 8 := Nat.succ_inj.1 hcount.symm
  obtain ⟨hpan, hshort, -⟩ := hfields (hreserved (by omega) rfl)
  exact ⟨hstates, ho, by decide +kernel, hpan (by decide +kernel) (by omega) rfl,
    hshort (by decide +kernel) (by omega) rfl⟩

/-- A chip can owe an acknowledgement for a frame that is not for its node. It was in `rxOn` when
the frame came in, so that the filter had no say, and began to acknowledge on its own right before
the check octets. -/
theorem acknowledges_for_another_node :
    let config : Configuration := ⟨.at86rf231, Vector.replicate 8 0, none, 0⟩
    let c : Chip Mixer := .build config (Instant.mk 0) (Mixer.mk 0)
    let body : List UInt8 := [0x21, 0x08, 0x2A, 0x34, 0x12, 0x01, 0x00]
    let ops : List Operation :=
      .command Command.rxOn.code :: (syncHeader ++ 9 :: body).map (.receive true) ++
        [.command Command.rxAackOn.code, .receive true (Crc.first (Crc.ofList body))]
    let d := ((c.run ops).receive true (Crc.second (Crc.ofList body))).2
    let fc := FrameControl.ofFrame d.buffer.octets
    c.registers.isCoordinator = false ∧
      c.Throughout (fun d => d.localAddress = c.localAddress) ops ∧
      (∀ op ∈ ops, op.writesFrame = false) ∧ (c.run ops).owed = none ∧ d.owed = some .plain ∧
      d.buffer.octets.take 8 = 9 :: body ∧ fc.destPanPresent = true ∧ fc.destMode = .short ∧
      ¬((d.buffer.octets.drop 4).take 2 = c.localAddress.pan.toList ∨
        (d.buffer.octets.drop 4).take 2 = [0xFF, 0xFF]) ∧
      ¬((d.buffer.octets.drop 6).take 2 = c.localAddress.short.toList ∨
        (d.buffer.octets.drop 6).take 2 = [0xFF, 0xFF]) := by
  decide +kernel

end Chip

end Transceiver
