import Transceiver.Proofs.Addressing
import Transceiver.Proofs.InterruptStatus
import Transceiver.Proofs.ReceivedFrame

/-!
# Address recognition

In the state in which a chip acknowledges on its own, its filter is in charge. A chip that does not
coordinate its network then takes in exactly the frames that are addressed to it, and of any other
frame nothing is left but the event that announced it: `completes_iff_addressed`.
-/

namespace Transceiver.Chip

variable {G : Type} {c : Chip G}

theorem filters_of_state (hs : c.state = .rxAackOn) (hn : c.registers.isCoordinator = false) :
    c.filters = true := by
  simp [filters, hs, hn]

/-- A filter in charge takes what it lets pass. -/
theorem passes_iff_takes (hf : c.filters = true) (frame : List UInt8) :
    FrameFilter.Passes frame c.localAddress ↔
      ∀ k ∈ checkOffsets, k < frame.length → c.Takes frame k :=
  ⟨fun h k hk hlt _ => h k hk hlt, fun h k hk hlt => h k hk hlt hf⟩

theorem receptionEvents_of_filters (hf : c.filters = true) (frame : List UInt8) :
    c.receptionEvents frame =
      [.rxStart] ++ (if 13 ≤ frame.tail.length then [.addressMatch] else []) ++ [.rxEnd] := by
  have hlong : FrameFilter.matchOffset < frame.length ↔ 13 ≤ frame.tail.length := by
    rw [List.length_tail]
    change 13 < frame.length ↔ _
    omega
  simp only [receptionEvents, hf, hlong, true_and]

variable [RandomWords G]

theorem listen_frame (hc : c.Reachable) (hs : c.state = .rxAackOn)
    (hn : c.registers.isCoordinator = false) (ha : c.registers.autoFcs = true)
    (hr : ∃ f, c.receiver = some f ∧ (f.phase = .scanning ∨ f.phase = .matched1))
    (h : Header) {payload image : List UInt8} (hi : h.image? payload = some image)
    {heard : List (Instant × UInt8)}
    (hheard : heard.map Prod.snd =
      [0, 0, 0, 0, 0x7A] ++ image ++ Crc.octets (Crc.ofList image.tail)) :
    (h.AddressedTo c.localAddress → ∃ l p, image = l :: p ∧
      c.Received (c.listen heard) l p (Crc.first (Crc.ofList p)) true) ∧
    (¬h.AddressedTo c.localAddress → c.Refused (c.listen heard)) := by
  have hpasses : FrameFilter.Passes image c.localAddress ↔ _ := h.passes_image_iff hi hn
  rw [passes_iff_takes (filters_of_state hs hn)] at hpasses
  obtain ⟨l, rfl, hl, hl'⟩ := h.image?_eq_some hi
  generalize h.octets ++ payload = p at hl hpasses hheard ⊢
  have hheard : heard.map Prod.snd =
      onAir l p (Crc.first (Crc.ofList p)) (Crc.second (Crc.ofList p)) := hheard
  constructor
  · intro haddressed
    have hd := listen_received hr ha (owed_of_listening hc hr) hl hl' (hpasses.2 haddressed) hheard
    rw [Crc.accepts_first_second] at hd
    exact ⟨l, p, rfl, hd⟩
  · intro hother
    refine listen_refuses hr ha hl hl' ?_ hheard
    by_contra hnone
    exact hother (hpasses.1 fun k hk hlt => Decidable.not_not.1 fun ht => hnone ⟨k, hk, hlt, ht⟩)

/-- A chip that acknowledges on its own, and does not coordinate its network, completes the frames
that are addressed to it and no others. A completed frame has its end raised, and the top bit of the
last octet in the buffer says that its check octets were right. The address match is raised as well
if the frame is long enough to show it, with thirteen octets before its check octets. A frame for
another node raises its start only, is passed over to its end, and is never owed an
acknowledgement. -/
theorem completes_iff_addressed (hc : c.Reachable) (hs : c.state = .rxAackOn)
    (hn : c.registers.isCoordinator = false) (ha : c.registers.autoFcs = true)
    (hr : ∃ f, c.receiver = some f ∧ (f.phase = .scanning ∨ f.phase = .matched1))
    (h : Header) {payload image : List UInt8} (hi : h.image? payload = some image)
    {heard : List (Instant × UInt8)}
    (hheard : heard.map Prod.snd =
      [0, 0, 0, 0, 0x7A] ++ image ++ Crc.octets (Crc.ofList image.tail)) :
    let d := c.listen heard
    let announced := if 13 ≤ image.tail.length then [Event.addressMatch] else []
    ((∃ f, d.receiver = some f ∧ f.phase = .done) ∧
        (∃ q, d.buffer.octets.getLast? = some q ∧ 0x80 ≤ q) ∧
        c.Raised d ([.rxStart] ++ announced ++ [.rxEnd]) ↔
      h.AddressedTo c.localAddress) ∧
    (¬h.AddressedTo c.localAddress →
      c.Raised d [.rxStart] ∧ (∃ f, d.receiver = some f ∧ f.phase = .scanning) ∧
        ∀ l, l <+: heard → (c.listen l).owed = none) := by
  have hevents := receptionEvents_of_filters (filters_of_state hs hn) image
  obtain ⟨hreceived, hrefused⟩ := listen_frame hc hs hn ha hr h hi hheard
  intro d announced
  by_cases haddressed : h.AddressedTo c.localAddress
  · obtain ⟨l, p, rfl, hd⟩ := hreceived haddressed
    refine ⟨iff_of_true ⟨hd.receiver_done, ?_, ?_⟩ haddressed, fun hno => absurd haddressed hno⟩
    · obtain ⟨q, -, hq⟩ := hd.buffer_eq
      refine ⟨0x80 ||| q, ?_, ?_⟩
      · have hassoc (a x : UInt8) : l :: p ++ [a, x] = l :: p ++ [a] ++ [x] := by simp
        rw [hq, hassoc]
        exact List.getLast?_concat
      · rw [UInt8.le_iff_toNat_le, UInt8.toNat_or]
        exact Nat.left_le_or
    · rw [← hevents]
      exact hd.raised
  · have hd := hrefused haddressed
    refine ⟨iff_of_false ?_ haddressed, fun _ => ⟨hd.raised, hd.receiver_scanning, fun m hm => ?_⟩⟩
    · rintro ⟨⟨f, hf, hp⟩, -⟩
      obtain ⟨g, hg, hgp⟩ := hd.receiver_scanning
      cases hf.symm.trans hg
      cases hp.symm.trans hgp
    · obtain ⟨g, hg, -⟩ := hd.receiver_scanning
      refine owed_of_prefix hc hm ?_ hd.owed_eq
      rw [hg]
      exact Option.some_ne_none g

/-- A broadcast of six octets is completed by a chip that has just begun to acknowledge, and
interrupts its node with the start of the frame, the address and the end. -/
theorem completes_broadcast :
    let config : Configuration := ⟨.atmega128rfa1, Vector.replicate 8 0, none, 0⟩
    let c := Chip.run (.build config (Instant.mk 0) (Mixer.mk 0))
      [.writeRegister .irqMask 0x2C, .command Command.rxAackOn.code]
    let h := Header.data 0x2A 0xFFFF (.short 0xFFFF) .absent
    let payload : List UInt8 := [1, 2, 3, 4, 5, 6]
    let body : List UInt8 := [0x01, 0x08, 0x2A, 0xFF, 0xFF, 0xFF, 0xFF] ++ payload
    (c.Reachable ∧ c.state = .rxAackOn ∧ c.registers.isCoordinator = false ∧
      c.registers.autoFcs = true ∧ c.receiver = some .start ∧
      h.image? payload = some (15 :: body)) ∧
    ∀ heard : List (Instant × UInt8), heard.map Prod.snd =
        [0, 0, 0, 0, 0x7A] ++ 15 :: body ++ Crc.octets (Crc.ofList body) →
      (∃ f, (c.listen heard).receiver = some f ∧ f.phase = .done) ∧
        c.Raised (c.listen heard) [.rxStart, .addressMatch, .rxEnd] ∧
        (c.listen heard).registers.get .irqStatus = 0x2C ∧
        (c.listen heard).interrupts = [60, 63, 61] := by
  intro config c h payload body
  have hc : c.Reachable := (reachable_build config _ _).run _
  have hn : c.registers.isCoordinator = false := by decide
  have ha : c.registers.autoFcs = true := by decide
  have hi : h.image? payload = some (15 :: body) := by decide
  have haddressed : h.AddressedTo c.localAddress := ⟨by decide, .inr rfl, .inr rfl⟩
  refine ⟨⟨hc, rfl, hn, ha, rfl, hi⟩, fun heard hheard => ?_⟩
  have hd := completes_iff_addressed hc rfl hn ha ⟨_, rfl, .inl rfl⟩ h hi hheard
  obtain ⟨hdone, -, hraised⟩ := hd.1.2 haddressed
  have hnotices : (c.listen heard).notices = ⟨.atmega128rfa1, none, 0x2C, [60, 63, 61]⟩ :=
    hraised.notices_eq.trans (by decide)
  exact ⟨hdone, hraised, congrArg Notices.status hnotices, congrArg Notices.interrupts hnotices⟩

end Transceiver.Chip
